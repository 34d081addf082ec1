import Mathlib.Data.List.Basic
import Mathlib.Data.List.Count
import Mathlib.Data.List.TakeDrop

/-!
# Cut lists

A list is *cut* at `k` by a property if its first `k` elements have the property, and
no other element does (`CutAt`). Whatever way the elements with the property are then
selected, these are the first `k` ones: by their index (`getElem_iff`), by filtering
(`filter_eq`), by counting them (`countP_eq`), up to the first one without the property
(`takeWhile_eq`).

A list may also be cut into chunks of a given length, the last of which may be shorter
(`chunks`).
-/

namespace Cut

variable {α β : Type*}

/-- Exactly the first `k` elements of `xs` satisfy `p`. -/
structure CutAt (p : α → Bool) (k : ℕ) (xs : List α) : Prop where
  le_length : k ≤ xs.length
  take : ∀ x ∈ xs.take k, p x = true
  drop : ∀ x ∈ xs.drop k, p x = false

variable {p : α → Bool} {k : ℕ} {xs ys : List α}

/-- Lists of which all and no elements satisfy `p` are cut where they are joined. -/
theorem cutAt_append (hxs : ∀ x ∈ xs, p x = true) (hys : ∀ y ∈ ys, p y = false) :
    CutAt p xs.length (xs ++ ys) where
  le_length := by simp
  take := by simpa using hxs
  drop := by simpa using hys

/-- A list is cut at `k` if its elements have the property up to the index `k`. -/
theorem cutAt_iff_getElem :
    CutAt p k xs ↔ k ≤ xs.length ∧ ∀ i (h : i < xs.length), p xs[i] = true ↔ i < k := by
  constructor
  · intro h
    refine ⟨h.le_length, fun i hi => ⟨fun hp => ?_, fun hik => ?_⟩⟩
    · by_contra hik
      have hmem : xs[i] ∈ xs.drop k := List.mem_drop_iff_getElem.2 ⟨i - k, by omega, by
        congr 1; omega⟩
      rw [h.drop _ hmem] at hp
      cases hp
    · exact h.take _ (List.mem_take_iff_getElem.2 ⟨i, by omega, rfl⟩)
  · rintro ⟨hk, h⟩
    refine ⟨hk, fun x hx => ?_, fun x hx => ?_⟩
    · obtain ⟨i, hi, rfl⟩ := List.mem_take_iff_getElem.1 hx
      exact (h i (by omega)).2 (by omega)
    · obtain ⟨i, hi, rfl⟩ := List.mem_drop_iff_getElem.1 hx
      rw [← Bool.not_eq_true, h (k + i) (by omega)]
      omega

namespace CutAt

/-- An element satisfies `p` if it is before the cut. -/
theorem getElem_iff (h : CutAt p k xs) {i : ℕ} (hi : i < xs.length) : p xs[i] = true ↔ i < k :=
  (cutAt_iff_getElem.1 h).2 i hi

/-- The cut is at the beginning if the first element does not satisfy `p`. -/
theorem eq_zero (h : CutAt p k xs) (hhead : ∀ x ∈ xs.head?, p x = false) : k = 0 := by
  cases xs with
  | nil => exact Nat.le_zero.1 h.le_length
  | cons x xs =>
    have hx : ¬ 0 < k := by
      rw [← h.getElem_iff (Nat.succ_pos xs.length), List.getElem_cons_zero, hhead x rfl]
      exact Bool.false_ne_true
    exact Nat.eq_zero_of_not_pos hx

/-- The elements that satisfy `p` are those before the cut. -/
theorem filter_eq (h : CutAt p k xs) : xs.filter p = xs.take k := by
  conv_lhs => rw [← List.take_append_drop k xs]
  rw [List.filter_append, List.filter_eq_self.2 h.take, List.filter_eq_nil_iff.2, List.append_nil]
  intro x hx
  rw [h.drop x hx]
  exact Bool.false_ne_true

/-- The elements that do not satisfy `p` are those after the cut. -/
theorem filter_not_eq (h : CutAt p k xs) : (xs.filter fun x => !p x) = xs.drop k := by
  conv_lhs => rw [← List.take_append_drop k xs]
  rw [List.filter_append, List.filter_eq_nil_iff.2, List.nil_append, List.filter_eq_self]
  · intro x hx
    rw [h.drop x hx]
    rfl
  · intro x hx
    rw [h.take x hx]
    exact Bool.false_ne_true

/-- The first elements that satisfy `p` are all of them. -/
theorem takeWhile_eq (h : CutAt p k xs) : xs.takeWhile p = xs.take k := by
  conv_lhs => rw [← List.take_append_drop k xs]
  rw [List.takeWhile_append_of_pos h.take]
  cases hdrop : xs.drop k with
  | nil => simp
  | cons x ys =>
    have hx : p x = false := h.drop x (by rw [hdrop]; exact List.mem_cons_self)
    rw [List.takeWhile_cons_of_neg (by rw [hx]; exact Bool.false_ne_true), List.append_nil]

/-- What is computed of the elements that satisfy `p`, is computed of those before the cut. -/
theorem filterMap_eq (h : CutAt p k xs) (f : α → β) :
    (xs.filterMap fun x => if p x then some (f x) else none) = (xs.take k).map f := by
  have hdrop : ((xs.drop k).filterMap fun x => if p x then some (f x) else none) = [] := by
    refine List.filterMap_eq_nil_iff.2 fun x hx => ?_
    rw [h.drop x hx]
    rfl
  conv_lhs => rw [← List.take_append_drop k xs]
  rw [List.filterMap_append, hdrop, List.append_nil, ← List.filterMap_eq_map]
  exact List.filterMap_congr fun x hx => if_pos (h.take x hx)

/-- The cut is at the number of elements that satisfy `p`. -/
theorem countP_eq (h : CutAt p k xs) : xs.countP p = k := by
  rw [List.countP_eq_length_filter, h.filter_eq, List.length_take_of_le h.le_length]

/-- A list is cut as a list it is mapped to. -/
theorem of_map {f : β → α} {xs : List β} (h : CutAt p k (xs.map f)) : CutAt (p ∘ f) k xs where
  le_length := by simpa using h.le_length
  take x hx := h.take (f x) (by rw [← List.map_take]; exact List.mem_map_of_mem hx)
  drop x hx := h.drop (f x) (by rw [← List.map_drop]; exact List.mem_map_of_mem hx)

end CutAt

/-! ## Numbered elements -/

/-- The elements that are left keep the indices they had. -/
theorem drop_mapIdx (f : ℕ → α → β) (k : ℕ) (xs : List α) :
    (xs.mapIdx f).drop k = (xs.drop k).mapIdx fun i => f (k + i) := by
  refine List.ext_getElem? fun i => ?_
  rw [List.getElem?_drop, List.getElem?_mapIdx, List.getElem?_mapIdx, List.getElem?_drop]

theorem take_mapIdx (f : ℕ → α → β) (k : ℕ) (xs : List α) :
    (xs.mapIdx f).take k = (xs.take k).mapIdx f := by
  refine List.ext_getElem? fun i => ?_
  rw [List.getElem?_mapIdx, List.getElem?_take, List.getElem?_take, List.getElem?_mapIdx]
  split
  · rfl
  · rfl

/-! ## Chunks -/

/-- Cuts a list with at most `fuel` elements into chunks. -/
def chunksAux (n : ℕ) : ℕ → List α → List (List α)
  | fuel + 1, x :: xs => (x :: xs).take n :: chunksAux n fuel ((x :: xs).drop n)
  | _, _ => []

/-- Cuts a list into chunks of `n` elements. -/
def chunks (n : ℕ) (xs : List α) : List (List α) := chunksAux n xs.length xs

/-- The chunks of a list are the list again. -/
theorem flatten_chunks {n : ℕ} (hn : 0 < n) (xs : List α) : (chunks n xs).flatten = xs := by
  suffices ∀ fuel (xs : List α), xs.length ≤ fuel → (chunksAux n fuel xs).flatten = xs from
    this _ _ (Nat.le_refl _)
  intro fuel
  induction fuel with
  | zero =>
    intro xs hxs
    rw [List.length_eq_zero_iff.1 (Nat.le_zero.1 hxs)]
    rfl
  | succ fuel ih =>
    rintro (_ | ⟨x, xs⟩) hxs
    · rfl
    · rw [chunksAux, List.flatten_cons, ih, List.take_append_drop]
      rw [List.length_drop]
      omega

/-- No chunk is longer than asked, and none is empty. -/
theorem of_mem_chunks {n : ℕ} (hn : 0 < n) {xs chunk : List α} (h : chunk ∈ chunks n xs) :
    chunk.length ≤ n ∧ chunk ≠ [] := by
  unfold chunks at h
  generalize xs.length = fuel at h
  induction fuel generalizing xs with
  | zero => cases xs <;> cases h
  | succ fuel ih =>
    rcases xs with _ | ⟨x, xs⟩
    · cases h
    · rcases List.mem_cons.1 h with rfl | h
      · exact ⟨List.length_take_le _ _, by simp [Nat.ne_of_gt hn]⟩
      · exact ih h

end Cut
