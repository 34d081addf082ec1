import Mathlib.Data.List.Basic
import Mathlib.Logic.Function.Basic
import Mathlib.Tactic.SplitIfs

/-!
# Maps written from lists

A map may be written by going through a list of entries, an entry overwriting the
earlier ones with the same key. What the map holds then at a key is the value of
the last entry with that key (`lastEntry`), and what it held before if there is
none (`foldl_update_eq`).

A map may also be written only where it holds nothing yet, at every key of a list
(`foldl_fill_eq`), or emptied at the keys of some entries (`foldl_remove_eq`).

A hash map is such a map, inserting and erasing a key being updates of it.
-/

namespace Overwrite

variable {K V W : Type*} [DecidableEq K]

/-- The value of the last entry of a list with the key `k`. -/
def lastEntry (entries : List (K × V)) (k : K) : Option V :=
  entries.foldl (fun value entry => if entry.1 = k then some entry.2 else value) none

/-- A loop that overwrites a value at each entry of a key ends with the last one. -/
theorem foldl_lastEntry (entries : List (K × V)) (k : K) (value : Option V) :
    entries.foldl (fun value entry => if entry.1 = k then some entry.2 else value) value =
      (lastEntry entries k).or value := by
  induction entries generalizing value with
  | nil => simp [lastEntry]
  | cons entry entries ih =>
    rw [lastEntry, List.foldl_cons, List.foldl_cons, ih, ih (if entry.1 = k then _ else _)]
    split_ifs <;> simp

@[simp]
theorem lastEntry_nil (k : K) : lastEntry ([] : List (K × V)) k = none := rfl

theorem lastEntry_cons (entry : K × V) (entries : List (K × V)) (k : K) :
    lastEntry (entry :: entries) k =
      (lastEntry entries k).or (if entry.1 = k then some entry.2 else none) := by
  rw [lastEntry, List.foldl_cons, foldl_lastEntry]

/-- The last entry is that of the second list, if it has one. -/
theorem lastEntry_append (entries entries' : List (K × V)) (k : K) :
    lastEntry (entries ++ entries') k = (lastEntry entries' k).or (lastEntry entries k) := by
  rw [lastEntry, List.foldl_append, foldl_lastEntry]
  rfl

/-- There is no entry with a key that is not in the list. -/
theorem lastEntry_eq_none {entries : List (K × V)} {k : K} (h : ∀ entry ∈ entries, entry.1 ≠ k) :
    lastEntry entries k = none := by
  induction entries with
  | nil => rfl
  | cons entry entries ih =>
    rw [List.forall_mem_cons] at h
    rw [lastEntry_cons, ih h.2, if_neg h.1]
    rfl

/-- An entry is the last one with its key if the key is not in the rest of the list. -/
theorem lastEntry_split {entries entries' : List (K × V)} {k : K} {v : V}
    (h : ∀ entry ∈ entries', entry.1 ≠ k) :
    lastEntry (entries ++ (k, v) :: entries') k = some v := by
  rw [lastEntry_append, lastEntry_cons, lastEntry_eq_none h, if_pos rfl]
  rfl

/-- If the keys of a list are distinct, an entry is the last one with its key. -/
theorem lastEntry_of_mem {entries : List (K × V)} (hnodup : (entries.map (·.1)).Nodup) {k : K}
    {v : V} (h : (k, v) ∈ entries) : lastEntry entries k = some v := by
  obtain ⟨before, after, rfl⟩ := List.append_of_mem h
  rw [List.map_append, List.map_cons] at hnodup
  refine lastEntry_split fun entry hentry heq => ?_
  refine (List.nodup_cons.1 (List.nodup_append.1 hnodup).2.1).1 ?_
  exact List.mem_map.2 ⟨entry, hentry, heq⟩

/-- The last entry is an entry. -/
theorem mem_of_lastEntry {entries : List (K × V)} {k : K} {v : V}
    (h : lastEntry entries k = some v) : (k, v) ∈ entries := by
  induction entries with
  | nil => cases h
  | cons entry entries ih =>
    rw [lastEntry_cons, Option.or_eq_some_iff] at h
    rcases h with h | ⟨-, h⟩
    · exact List.mem_cons_of_mem _ (ih h)
    · obtain ⟨rfl, hv⟩ := Option.ite_none_right_eq_some.1 h
      cases hv
      exact List.mem_cons_self

/-- There is a last entry if the key has one. -/
theorem isSome_lastEntry_iff {entries : List (K × V)} {k : K} :
    (lastEntry entries k).isSome ↔ k ∈ entries.map (·.1) := by
  induction entries with
  | nil => simp
  | cons entry entries ih =>
    rw [lastEntry_cons, Option.isSome_or, Bool.or_eq_true, ih, List.map_cons, List.mem_cons,
      or_comm]
    split_ifs with h
    · simp [h]
    · simp [Ne.symm h]

/-- A map written from a list holds the last entry of each key. -/
theorem foldl_update_eq (g : K → V → W) (entries : List (K × V)) (m : K → Option W) (k : K) :
    (entries.foldl (fun (m : K → Option W) entry =>
        Function.update m entry.1 (some (g entry.1 entry.2))) m) k =
      ((lastEntry entries k).map (g k)).or (m k) := by
  induction entries generalizing m with
  | nil => simp
  | cons entry entries ih =>
    rw [List.foldl_cons, ih, lastEntry_cons]
    cases lastEntry entries k with
    | some value => simp
    | none =>
      by_cases h : entry.1 = k
      · subst h
        simp
      · simp [h, Function.update_of_ne (Ne.symm h)]

/-- A map filled at the keys of a list holds something at each of them. -/
theorem foldl_fill_eq (g : K → W) (keys : List K) (m : K → Option W) (k : K) :
    (keys.foldl (fun (m : K → Option W) key =>
        Function.update m key ((m key).or (some (g key)))) m) k =
      if k ∈ keys then (m k).or (some (g k)) else m k := by
  induction keys generalizing m with
  | nil => simp
  | cons key keys ih =>
    rw [List.foldl_cons, ih]
    by_cases h : k = key
    · subst h
      cases m k <;> simp
    · simp [h]

/-- A map emptied at the keys of the entries that meet a condition. -/
theorem foldl_remove_eq (c : V → Bool) (key : V → K) (entries : List V) (m : K → Option W) (k : K) :
    (entries.foldl (fun (m : K → Option W) entry =>
        if c entry then Function.update m (key entry) none else m) m) k =
      if ∃ entry ∈ entries, c entry = true ∧ key entry = k then none else m k := by
  induction entries generalizing m with
  | nil => simp
  | cons entry entries ih =>
    rw [List.foldl_cons, ih]
    by_cases h : c entry = true ∧ key entry = k
    · obtain ⟨hc, rfl⟩ := h
      simp [hc]
    · rw [not_and] at h
      by_cases hc : c entry = true
      · simp [hc, h hc, Function.update_of_ne (Ne.symm (h hc))]
      · simp [hc]

/-! ## Hash maps -/

section HashMap

variable [Hashable K]

/-- Inserting into a hash map updates the function it is. -/
theorem getElem?_insert_eq (m : Std.HashMap K V) (key : K) (value : V) :
    (fun k => (m.insert key value)[k]?) = Function.update (fun k => m[k]?) key (some value) := by
  funext k
  rw [Std.HashMap.getElem?_insert]
  by_cases h : k = key
  · rw [h, Function.update_self, if_pos BEq.rfl]
  · rw [Function.update_of_ne h, if_neg fun heq => h (eq_of_beq heq).symm]

/-- Erasing a key makes the function have no value there. -/
theorem getElem?_erase_eq (m : Std.HashMap K V) (key : K) :
    (fun k => (m.erase key)[k]?) = Function.update (fun k => m[k]?) key none := by
  funext k
  rw [Std.HashMap.getElem?_erase]
  by_cases h : k = key
  · rw [h, Function.update_self, if_pos BEq.rfl]
  · rw [Function.update_of_ne h, if_neg fun heq => h (eq_of_beq heq).symm]

end HashMap

end Overwrite
