import Mathlib.Data.List.Basic

/-!
# Hash chains

A list in which each element names the hash of the one before. All of it, from the element it is
built on, is determined by the hash of its last element, unless there are elements of the same hash
(`Linked.eq_of_hash_last`).
-/

namespace HashChain

variable {α β : Type*} (hash parent : α → β)

/-- Each element names the hash of the one before, and the first one that of `a`. -/
def Linked : α → List α → Prop
  | _, [] => True
  | a, b :: bs => parent b = hash a ∧ Linked b bs

/-- No element of one list has the hash of another one of the other list. -/
def NoCollision (as bs : List α) : Prop :=
  ∀ a ∈ as, ∀ b ∈ bs, hash a = hash b → a = b

instance [DecidableEq α] [DecidableEq β] (as bs : List α) : Decidable (NoCollision hash as bs) :=
  inferInstanceAs (Decidable (∀ a ∈ as, ∀ b ∈ bs, hash a = hash b → a = b))

variable {hash parent} {a b : α} {as bs as' bs' : List α}

/-- Parts of lists do not collide if the lists do not. -/
theorem NoCollision.mono (h : NoCollision hash as bs) (has : as' ⊆ as) (hbs : bs' ⊆ bs) :
    NoCollision hash as' bs' :=
  fun a ha b hb => h a (has ha) b (hbs hb)

/-- Without collisions, lists are determined by their hashes. -/
theorem NoCollision.eq_of_map_eq (h : NoCollision hash as bs) (heq : as.map hash = bs.map hash) :
    as = bs := by
  induction as generalizing bs with
  | nil => exact (List.map_eq_nil_iff.1 heq.symm).symm
  | cons a as ih =>
    cases bs with
    | nil => cases heq
    | cons b bs =>
      obtain ⟨hab, heq⟩ := List.cons.inj heq
      rw [h a List.mem_cons_self b List.mem_cons_self hab,
        ih (h.mono (List.subset_cons_self _ _) (List.subset_cons_self _ _)) heq]

/-- Without collisions, the hash of the last element determines a linked list of a given length,
    and what it is linked to. -/
theorem Linked.eq_of_hash_last (ha : Linked hash parent a as) (hb : Linked hash parent b bs)
    (hno : NoCollision hash (a :: as) (b :: bs)) (hlength : as.length = bs.length)
    (hlast : hash (as.getLastD a) = hash (bs.getLastD b)) : a = b ∧ as = bs := by
  induction as generalizing a b bs with
  | nil =>
    obtain rfl := List.length_eq_zero_iff.1 hlength.symm
    exact ⟨hno a List.mem_cons_self b List.mem_cons_self hlast, rfl⟩
  | cons a' as ih =>
    cases bs with
    | nil => cases hlength
    | cons b' bs =>
      rw [List.getLastD_cons, List.getLastD_cons] at hlast
      obtain ⟨rfl, rfl⟩ := ih ha.2 hb.2 (hno.mono (List.subset_cons_self _ _)
        (List.subset_cons_self _ _)) (Nat.succ.inj hlength) hlast
      refine ⟨hno a List.mem_cons_self b List.mem_cons_self ?_, rfl⟩
      rw [← ha.1, ← hb.1]

end HashChain
