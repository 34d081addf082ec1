import Mathlib.Data.List.DropRight
import Mathlib.Order.Lattice

/-!
# Append-only tables

A table of a database that keeps its entries sorted by their keys (`AppendTable`). Entries are
appended at its end, with keys greater than all others (`append`), and removed from its end
(`unwind`). An entry is found by its key (`seekExact`).

* Unwinding to a key keeps the entries up to it (`entries_unwind`).
* A table is a map: there is at most one entry for a key (`seekExact_eq_some`).
-/

/-- A table with keys `K` and values `V`, sorted by its keys. -/
structure AppendTable (K V : Type*) [LinearOrder K] where
  entries : List (K × V)
  sorted : entries.Pairwise fun entry entry' => entry.1 < entry'.1

namespace AppendTable

variable {K V : Type*} [LinearOrder K] {t t' : AppendTable K V} {k : K} {v : V}

/-- The table without entries. -/
def empty : AppendTable K V := ⟨[], .nil⟩

/-- Appends an entry, if its key exceeds every key of the table. -/
def append (t : AppendTable K V) (k : K) (v : V) : Option (AppendTable K V) :=
  if h : ∀ entry ∈ t.entries, entry.1 < k then
    some ⟨t.entries ++ [(k, v)], List.pairwise_append.2
      ⟨t.sorted, List.pairwise_singleton _ _, fun entry hentry _ hlast =>
        List.mem_singleton.1 hlast ▸ h entry hentry⟩⟩
  else none

/-- Removes entries from the end of the table, as long as their keys are greater than `k`. -/
def unwind (t : AppendTable K V) (k : K) : AppendTable K V where
  entries := t.entries.rdropWhile fun entry => k < entry.1
  sorted := t.sorted.sublist <| List.IsPrefix.sublist <| List.rdropWhile_prefix ..

/-- The entry with the key `k`. -/
def seekExact (t : AppendTable K V) (k : K) : Option (K × V) :=
  t.entries.find? fun entry => entry.1 = k

/-- What is appended comes last. -/
theorem entries_of_append (h : t.append k v = some t') : t'.entries = t.entries ++ [(k, v)] := by
  unfold append at h
  split_ifs at h
  cases h
  rfl

/-- Unwinding to a key keeps the entries up to it: by induction from the end of the table,
    where the greatest key is. -/
theorem entries_unwind (t : AppendTable K V) (k : K) :
    (t.unwind k).entries = t.entries.filter fun entry => entry.1 ≤ k := by
  obtain ⟨entries, hsorted⟩ := t
  change entries.rdropWhile _ = _
  induction entries using List.reverseRecOn with
  | nil => rfl
  | append_singleton entries entry ih =>
    obtain ⟨hinit, -, hlast⟩ := List.pairwise_append.1 hsorted
    rw [List.rdropWhile_concat, List.filter_append]
    by_cases h : k < entry.1
    · rw [if_pos (decide_eq_true h), ih hinit, List.filter_singleton,
        decide_eq_false (not_le.2 h)]
      exact (List.append_nil _).symm
    · have hle (other : K × V) (hother : other ∈ entries) : other.1 ≤ k :=
        (hlast other hother entry List.mem_cons_self).le.trans (not_lt.1 h)
      rw [if_neg (by simpa using h), List.filter_singleton, decide_eq_true (not_lt.1 h),
        List.filter_eq_self.2 fun other hother => decide_eq_true (hle other hother)]
      rfl

/-- The entries are found by their keys. -/
theorem seekExact_eq_some : t.seekExact k = some (k, v) ↔ (k, v) ∈ t.entries := by
  refine ⟨List.mem_of_find?_eq_some, fun h => ?_⟩
  obtain ⟨before, after, hentries⟩ := List.append_of_mem h
  have hsorted := t.sorted
  rw [hentries, List.pairwise_append] at hsorted
  -- The keys before the entry are smaller.
  have hbefore : before.find? (fun entry => decide (entry.1 = k)) = none := by
    refine List.find?_eq_none.2 fun entry hentry heq => ?_
    exact (hsorted.2.2 entry hentry (k, v) List.mem_cons_self).ne (of_decide_eq_true heq)
  rw [seekExact, hentries, List.find?_append, hbefore, Option.none_or, List.find?_cons_of_pos]
  exact decide_eq_true rfl

end AppendTable
