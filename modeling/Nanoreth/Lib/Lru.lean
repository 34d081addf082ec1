import Mathlib.Data.Finset.Card
import Nanoreth.Lib.Overwrite

/-!
# LRU caches

Caches that hold a limited number of keys and evict the one that was least recently used. The
keys are kept in a list, the most recently used one first.

Without a limit, this is the list of all keys in the order of their last use (`recency`). A
cache with a limit holds its first elements (`LruCache.keys_foldl`): a key is in it exactly when
it was used, and fewer other keys than the limit were used since (`mem_take_recency_iff`).

* `LruCache` has keys only, and returns the key it evicts;
* `LruMap` has values for its keys;
* `LruBiMap` is a pair of maps between keys and values, with a cache of the keys.
-/

open Overwrite

namespace Lru

variable {K V : Type*} [DecidableEq K]

/-! ## Recency -/

/-- Uses a key, which is the first one then. -/
def touch (keys : List K) (k : K) : List K := k :: keys.erase k

/-- The keys in the order of their last use, the last one first. -/
def recency (used : List K) : List K := used.foldl touch []

theorem recency_append_singleton (used : List K) (k : K) :
    recency (used ++ [k]) = touch (recency used) k := by
  rw [recency, List.foldl_append]
  rfl

/-- No key is repeated. -/
theorem nodup_recency (used : List K) : (recency used).Nodup := by
  induction used using List.reverseRecOn with
  | nil => exact List.nodup_nil
  | append_singleton used k ih =>
    rw [recency_append_singleton, touch, List.nodup_cons]
    exact ⟨ih.not_mem_erase, ih.erase k⟩

/-- The keys are those that were used. -/
theorem mem_recency {used : List K} {k : K} : k ∈ recency used ↔ k ∈ used := by
  induction used using List.reverseRecOn with
  | nil => exact Iff.rfl
  | append_singleton used k' ih =>
    rw [recency_append_singleton, touch, List.mem_cons, List.mem_append, List.mem_singleton,
      or_comm]
    by_cases h : k = k'
    · simp [h]
    · rw [List.mem_erase_of_ne h, ih]

/-- There are as many keys as distinct ones were used. -/
theorem length_recency (used : List K) : (recency used).length = used.toFinset.card := by
  rw [← List.toFinset_card_of_nodup (nodup_recency used)]
  congr 1
  ext k
  rw [List.mem_toFinset, List.mem_toFinset, mem_recency]

/-- The keys used after a key are before it. -/
theorem recency_split (before : List K) {after : List K} {k : K} (h : k ∉ after) :
    ∃ rest, recency (before ++ k :: after) = recency after ++ k :: rest := by
  induction after using List.reverseRecOn with
  | nil => exact ⟨(recency before).erase k, recency_append_singleton before k⟩
  | append_singleton after k' ih =>
    rw [List.mem_append, List.mem_singleton, not_or] at h
    obtain ⟨rest, hrest⟩ := ih h.1
    rw [recency_append_singleton, ← List.cons_append, ← List.append_assoc,
      recency_append_singleton, hrest, touch, touch, List.erase_append]
    split_ifs with hmem
    · exact ⟨rest, rfl⟩
    · refine ⟨rest.erase k', ?_⟩
      rw [List.erase_of_not_mem hmem, List.erase_cons_tail (by simpa using h.2), List.cons_append]

omit [DecidableEq K] in
/-- A list with an element has a last occurrence of it. -/
theorem exists_last_split {used : List K} {k : K} (h : k ∈ used) :
    ∃ before after, used = before ++ k :: after ∧ k ∉ after := by
  obtain ⟨after, before, hreverse, hnot⟩ := List.eq_append_cons_of_mem (List.mem_reverse.2 h)
  refine ⟨before.reverse, after.reverse, ?_, by simpa using hnot⟩
  rw [← List.reverse_reverse used, hreverse]
  simp

/-- After its last use, a key is among the first ones as long as fewer other ones were used. -/
theorem mem_take_split_iff {before after : List K} {k : K} {limit : ℕ} (h : k ∉ after) :
    k ∈ (recency (before ++ k :: after)).take limit ↔ after.toFinset.card < limit := by
  obtain ⟨rest, hrest⟩ := recency_split before h
  rw [hrest, ← length_recency, List.take_append, List.mem_append]
  constructor
  · rintro (hmem | hmem)
    · exact absurd (mem_recency.1 (List.mem_of_mem_take hmem)) h
    · by_contra hle
      rw [Nat.sub_eq_zero_of_le (Nat.not_lt.1 hle), List.take_zero] at hmem
      cases hmem
  · intro hlt
    obtain ⟨n, hn⟩ := Nat.exists_eq_add_of_lt hlt
    rw [hn, Nat.add_assoc, Nat.add_sub_cancel_left, List.take_succ_cons]
    exact .inr List.mem_cons_self

/-- A key is among the last `limit` ones if fewer than `limit` other ones were used since. -/
theorem mem_take_recency_iff {used : List K} {k : K} {limit : ℕ} :
    k ∈ (recency used).take limit ↔
      ∃ before after, used = before ++ k :: after ∧ k ∉ after ∧ after.toFinset.card < limit := by
  constructor
  · intro hmem
    obtain ⟨before, after, rfl, hnot⟩ :=
      exists_last_split (mem_recency.1 (List.mem_of_mem_take hmem))
    exact ⟨before, after, rfl, hnot, (mem_take_split_iff hnot).1 hmem⟩
  · rintro ⟨before, after, rfl, hnot, hlt⟩
    exact (mem_take_split_iff hnot).2 hlt

/-- The elements before the last one do not depend on what is cut off. -/
theorem take_erase_take (keys : List K) (k : K) (n : ℕ) :
    ((keys.take (n + 1)).erase k).take n = (keys.erase k).take n := by
  induction keys generalizing n with
  | nil => rfl
  | cons key keys ih =>
    rw [List.take_succ_cons, List.erase_cons, List.erase_cons]
    split_ifs
    · rw [List.take_take, Nat.min_self]
    · cases n with
      | zero => rfl
      | succ n => rw [List.take_succ_cons, List.take_succ_cons, ih]

/-- Whether keys beyond the limit are dropped before a use or after it makes no difference. -/
theorem take_touch_take {limit : ℕ} (hlimit : 0 < limit) (keys : List K) (k : K) :
    (touch (keys.take limit) k).take limit = (touch keys k).take limit := by
  obtain ⟨n, rfl⟩ := Nat.exists_eq_succ_of_ne_zero hlimit.ne'
  rw [touch, touch, List.take_succ_cons, List.take_succ_cons, take_erase_take]

/-! ## Caches of keys -/

/-- A cache of up to `limit` keys. -/
structure LruCache (K : Type*) where
  limit : ℕ
  keys : List K

namespace LruCache

/-- Inserts a key. Returns whether it is new, and the key that is evicted for it. -/
def insertAndGetEvicted (c : LruCache K) (k : K) : Bool × Option K × LruCache K :=
  if k ∉ c.keys ∧ c.limit ≤ c.keys.length then
    (true, c.keys.getLast?, { c with keys := touch c.keys.dropLast k })
  else (k ∉ c.keys, none, { c with keys := touch c.keys k })

/-- The cache holds the last `limit` keys of those used. -/
structure Holds (c : LruCache K) (limit : ℕ) (used : List K) : Prop where
  limit_pos : 0 < limit
  limit_eq : c.limit = limit
  keys_eq : c.keys = (recency used).take limit

variable {c : LruCache K} {limit : ℕ} {used : List K}

theorem Holds.length_le (h : c.Holds limit used) : c.keys.length ≤ limit := by
  rw [h.keys_eq]
  exact List.length_take_le _ _

theorem Holds.nodup (h : c.Holds limit used) : c.keys.Nodup := by
  rw [h.keys_eq]
  exact (nodup_recency used).sublist (List.take_sublist _ _)

/-- A use does not exceed the limit, if the key is there or there is room for it. -/
theorem length_touch_le {keys : List K} {k : K} {limit : ℕ} (hlength : keys.length ≤ limit)
    (h : k ∉ keys → keys.length < limit) : (touch keys k).length ≤ limit := by
  rw [touch, List.length_cons]
  by_cases hmem : k ∈ keys
  · have := List.length_pos_of_mem hmem
    rw [List.length_erase_of_mem hmem]
    omega
  · rw [List.erase_of_not_mem hmem]
    exact h hmem

/-- A use does not change which other keys there are. -/
theorem mem_touch_of_ne {keys : List K} {k k' : K} (h : k' ≠ k) :
    k' ∈ touch keys k ↔ k' ∈ keys := by
  rw [touch, List.mem_cons, List.mem_erase_of_ne h]
  exact or_iff_right h

/-- What inserting a key does: it is the last one used, the evicted key is no longer in the
    cache, and all other keys are as before. -/
theorem Holds.insert (h : c.Holds limit used) (k : K) :
    ∃ new evicted c', c.insertAndGetEvicted k = (new, evicted, c') ∧
      c'.Holds limit (used ++ [k]) ∧ (evicted ≠ none → new = true) ∧
      ∀ k' ≠ k, k' ∈ c'.keys ↔ k' ∈ c.keys ∧ evicted ≠ some k' := by
  have hkeys : (recency (used ++ [k])).take limit = (touch c.keys k).take limit := by
    rw [recency_append_singleton, h.keys_eq, take_touch_take h.limit_pos]
  have hlength := h.length_le
  have hnodup := h.nodup
  unfold insertAndGetEvicted
  rw [h.limit_eq]
  split_ifs with hfull
  · -- The cache is full, and evicts its last key.
    obtain ⟨hnew, hfull⟩ := hfull
    have hne : c.keys ≠ [] := List.ne_nil_of_length_pos (h.limit_pos.trans_le hfull)
    obtain ⟨init, last, hinit⟩ := (List.eq_nil_or_concat' c.keys).resolve_left hne
    rw [hinit, List.length_append, List.length_singleton] at hlength hfull
    rw [hinit, List.mem_append, not_or] at hnew
    rw [hinit, List.nodup_append] at hnodup
    refine ⟨_, _, _, rfl, ⟨h.limit_pos, rfl, ?_⟩, fun _ => rfl, fun k' hk' => ?_⟩
    · rw [hkeys, hinit, List.dropLast_concat, touch, touch, List.erase_of_not_mem hnew.1,
        List.erase_of_not_mem (by simpa using hnew), show limit = init.length + 1 by omega,
        List.take_succ_cons, List.take_left]
    · rw [mem_touch_of_ne hk', hinit, List.dropLast_concat, List.getLast?_concat, List.mem_append,
        List.mem_singleton, Ne, Option.some.injEq]
      constructor
      · exact fun hmem => ⟨.inl hmem, fun heq => hnodup.2.2 k' hmem last (by simp) heq.symm⟩
      · rintro ⟨hmem | rfl, hne⟩
        · exact hmem
        · exact absurd rfl hne
  · refine ⟨_, _, _, rfl, ⟨h.limit_pos, rfl, ?_⟩, fun hne => absurd rfl hne, fun k' hk' => ?_⟩
    · rw [hkeys, List.take_of_length_le]
      refine length_touch_le hlength fun hnew => ?_
      exact Nat.lt_of_not_le fun hle => hfull ⟨hnew, hle⟩
    · rw [mem_touch_of_ne hk']
      exact (and_iff_left (Option.some_ne_none k').symm).symm

/-- A key is evicted for a new one only. -/
theorem of_evicted {k k' : K} (h : (c.insertAndGetEvicted k).2.1 = some k') :
    (c.insertAndGetEvicted k).1 = true ∧ k ∉ c.keys ∧ k' ∈ c.keys := by
  unfold insertAndGetEvicted at h ⊢
  split_ifs at h ⊢ with hfull
  exact ⟨rfl, hfull.1, List.mem_of_getLast? h⟩

end LruCache

/-! ## Maps -/

/-- A map with up to `limit` keys. Its entries are in the order of their last use, the last one
    first. -/
structure LruMap (K V : Type*) where
  limit : ℕ
  entries : List (K × V)

namespace LruMap

/-- The entries, with the one for `k` first. -/
def promote (entries : List (K × V)) (k : K) (v : V) : List (K × V) :=
  (k, v) :: entries.filter fun entry => entry.1 ≠ k

/-- The value for a key, which is used then. -/
def get (m : LruMap K V) (k : K) : Option (V × LruMap K V) :=
  (m.entries.find? fun entry => entry.1 = k).map fun entry =>
    (entry.2, { m with entries := promote m.entries k entry.2 })

/-- Inserts a value for a key, and evicts the last entries if there are too many. -/
def insert (m : LruMap K V) (k : K) (v : V) : LruMap K V :=
  { m with entries := (promote m.entries k v).take m.limit }

/-- Evicts the keys that are not to be kept. -/
def retain (m : LruMap K V) (keep : K → Bool) : LruMap K V :=
  { m with entries := m.entries.filter fun entry => keep entry.1 }

variable {m m' : LruMap K V} {k : K} {v : V}

/-- An entry that comes first adds nothing but itself. -/
theorem mem_promote {entries : List (K × V)} {entry : K × V}
    (h : entry ∈ promote entries k v) : entry = (k, v) ∨ entry ∈ entries := by
  rcases List.mem_cons.1 h with rfl | h
  · exact .inl rfl
  · exact .inr (List.mem_of_mem_filter h)

/-- What is found is an entry, and it comes first then. -/
theorem get_eq_some (h : m.get k = some (v, m')) :
    (k, v) ∈ m.entries ∧ m' = { m with entries := promote m.entries k v } := by
  obtain ⟨⟨key, value⟩, hfind, heq⟩ := Option.map_eq_some_iff.1 h
  obtain rfl : key = k := by simpa using List.find?_some hfind
  cases heq
  exact ⟨List.mem_of_find?_eq_some hfind, rfl⟩

/-- Looking up a key adds no entry. -/
theorem mem_of_get (h : m.get k = some (v, m')) {entry : K × V} (hentry : entry ∈ m'.entries) :
    entry ∈ m.entries := by
  obtain ⟨hmem, rfl⟩ := get_eq_some h
  rcases mem_promote hentry with rfl | hentry
  · exact hmem
  · exact hentry

theorem mem_insert {entry : K × V} (h : entry ∈ (m.insert k v).entries) :
    entry = (k, v) ∨ entry ∈ m.entries :=
  mem_promote (List.mem_of_mem_take h)

/-- The value for a key, if it is in the map. -/
def value (m : LruMap K V) (k : K) : Option V :=
  (m.entries.find? fun entry => entry.1 = k).map (·.2)

/-- The entries of other keys are found as before. -/
theorem find_promote_of_ne (entries : List (K × V)) (v : V) {k k' : K} (h : k ≠ k') :
    ((promote entries k v).find? fun entry => entry.1 = k') =
      entries.find? fun entry => entry.1 = k' := by
  rw [promote, List.find?_cons_of_neg (by simpa using h), List.find?_filter]
  congr 1
  funext entry
  by_cases heq : entry.1 = k'
  · simp [heq, h.symm]
  · simp [heq]

/-- Using a key does not change the values. -/
theorem value_of_get (h : m.get k = some (v, m')) : m.value k = some v ∧ m'.value = m.value := by
  obtain ⟨entry, hfind, heq⟩ := Option.map_eq_some_iff.1 h
  cases heq
  have hvalue : m.value k = some entry.2 := by
    rw [value, hfind]
    rfl
  refine ⟨hvalue, funext fun k' => ?_⟩
  by_cases hk : k = k'
  · subst hk
    rw [hvalue, value, promote, List.find?_cons_of_pos (by simp)]
    rfl
  · rw [value, find_promote_of_ne _ _ hk, value]

/-- What is found after an insertion was inserted, or was found before. -/
theorem value_insert {k' : K} {v' : V} (h : (m.insert k v).value k' = some v') :
    (k', v') = (k, v) ∨ m.value k' = some v' := by
  obtain ⟨entry, hfind, rfl⟩ := Option.map_eq_some_iff.1 h
  have hfound := (List.take_prefix _ _).find?_eq_some hfind
  by_cases hk : k = k'
  · subst hk
    rw [promote, List.find?_cons_of_pos (by simp)] at hfound
    cases hfound
    exact .inl rfl
  · rw [find_promote_of_ne _ _ hk] at hfound
    exact .inr (Option.map_eq_some_iff.2 ⟨entry, hfound, rfl⟩)

/-- The keys, the one used last first. -/
def keys (m : LruMap K V) : List K := m.entries.map (·.1)

theorem isSome_get_iff : (m.get k).isSome ↔ k ∈ m.keys := by
  rw [get, Option.isSome_map, List.find?_isSome, keys, List.mem_map]
  simp

/-- The keys change as by a use of the key. -/
theorem map_promote {entries : List (K × V)} (h : (entries.map (·.1)).Nodup) (k : K) (v : V) :
    (promote entries k v).map (·.1) = touch (entries.map (·.1)) k := by
  rw [promote, List.map_cons, touch, h.erase_eq_filter, List.filter_map]
  congr 2
  exact List.filter_congr fun entry _ => by simp [bne, decide_not, beq_eq_decide]

/-- The map holds the last `limit` keys of those used. -/
structure Holds (m : LruMap K V) (limit : ℕ) (used : List K) : Prop where
  limit_pos : 0 < limit
  limit_eq : m.limit = limit
  keys_eq : m.keys = (recency used).take limit

variable {limit : ℕ} {used : List K}

theorem Holds.nodup (h : m.Holds limit used) : m.keys.Nodup := by
  rw [h.keys_eq]
  exact (nodup_recency used).sublist (List.take_sublist _ _)

/-- Inserting an entry is a use of its key. -/
theorem Holds.insert (h : m.Holds limit used) (k : K) (v : V) :
    (m.insert k v).Holds limit (used ++ [k]) where
  limit_pos := h.limit_pos
  limit_eq := h.limit_eq
  keys_eq := by
    have hkeys : (m.insert k v).keys = (touch m.keys k).take limit := by
      rw [keys, LruMap.insert, List.map_take, map_promote h.nodup, h.limit_eq]
      rfl
    rw [hkeys, recency_append_singleton, h.keys_eq, take_touch_take h.limit_pos]

/-- Finding a key is a use of it. -/
theorem Holds.get (h : m.Holds limit used) (hget : m.get k = some (v, m')) :
    m'.Holds limit (used ++ [k]) := by
  obtain ⟨hmem, rfl⟩ := get_eq_some hget
  have hkey : k ∈ m.keys := List.mem_map.2 ⟨(k, v), hmem, rfl⟩
  have hlength : m.keys.length ≤ limit := by
    rw [h.keys_eq]
    exact List.length_take_le _ _
  have htouch := LruCache.length_touch_le hlength fun hnot => absurd hkey hnot
  refine ⟨h.limit_pos, h.limit_eq, ?_⟩
  rw [keys, map_promote h.nodup, recency_append_singleton, ← take_touch_take h.limit_pos,
    ← h.keys_eq]
  exact (List.take_of_length_le htouch).symm

end LruMap

/-! ## Bidirectional maps -/

/-- Maps between keys and values, and the cache of their keys. -/
structure LruBiMap (K V : Type*) where
  leftToRight : K → Option V
  rightToLeft : V → Option K
  lruKeys : LruCache K

namespace LruBiMap

variable [DecidableEq V]

/-- The empty map with up to `limit` keys. -/
def new (limit : ℕ) : LruBiMap K V := ⟨fun _ => none, fun _ => none, ⟨limit, []⟩⟩

/-- Removes a key and its value. -/
def evict (m : LruBiMap K V) (k : K) : LruBiMap K V :=
  match m.leftToRight k with
  | some v =>
    { m with
      leftToRight := Function.update m.leftToRight k none
      rightToLeft := Function.update m.rightToLeft v none }
  | none => m

/-- Inserts a pair, and removes the pair of the key that was used least recently. -/
def insert (m : LruBiMap K V) (k : K) (v : V) : LruBiMap K V :=
  let (new, evicted, lruKeys) := m.lruKeys.insertAndGetEvicted k
  let m := match new, evicted with
    | true, some evicted => m.evict evicted
    | _, _ => m
  { leftToRight := Function.update m.leftToRight k (some v)
    rightToLeft := Function.update m.rightToLeft v (some k)
    lruKeys := lruKeys }

/-- The value of a key. Looking it up is not a use of the key. -/
def getByLeft (m : LruBiMap K V) (k : K) : Option V := m.leftToRight k

/-- Inserts pairs one after the other. -/
def insertAll (m : LruBiMap K V) (pairs : List (K × V)) : LruBiMap K V :=
  pairs.foldl (fun m pair => m.insert pair.1 pair.2) m

/-- Evicts the keys that are not to be kept. -/
def retain (m : LruBiMap K V) (keep : K → Bool) : LruBiMap K V where
  leftToRight k := if keep k then m.leftToRight k else none
  rightToLeft v := (m.rightToLeft v).filter keep
  lruKeys := { m.lruKeys with keys := m.lruKeys.keys.filter keep }

variable {m : LruBiMap K V} {k : K} {v : V}

/-- The key that is evicted has no value any more. -/
theorem leftToRight_evict (m : LruBiMap K V) (k : K) :
    (m.evict k).leftToRight = Function.update m.leftToRight k none := by
  unfold evict
  split
  · rfl
  · rw [← ‹m.leftToRight k = none›, Function.update_eq_self]

theorem leftToRight_insert_self (m : LruBiMap K V) (k : K) (v : V) :
    (m.insert k v).leftToRight k = some v :=
  Function.update_self ..

/-- An insertion removes the evicted key, and leaves all others as they are. -/
theorem leftToRight_insert_of_ne {new : Bool} {evicted : Option K} {c : LruCache K} {k' : K}
    (h : m.lruKeys.insertAndGetEvicted k = (new, evicted, c)) (hne : k' ≠ k) :
    (m.insert k v).leftToRight k' =
      if new = true ∧ evicted = some k' then none else m.leftToRight k' := by
  simp only [insert, h, Function.update_of_ne hne]
  rcases new with _ | _
  · rfl
  · rcases evicted with _ | evicted
    · rfl
    · simp only [leftToRight_evict, true_and, Option.some.injEq, Function.update_apply, eq_comm]

/-- What is found after an insertion was inserted, or was found before. -/
theorem getByLeft_insert {k' : K} {v' : V} (h : (m.insert k v).getByLeft k' = some v') :
    (k', v') = (k, v) ∨ m.getByLeft k' = some v' := by
  unfold getByLeft at h ⊢
  by_cases hne : k' = k
  · subst hne
    rw [leftToRight_insert_self] at h
    exact .inl (by rw [Option.some.inj h])
  · rw [leftToRight_insert_of_ne rfl hne] at h
    exact .inr (Option.ite_none_left_eq_some.1 h).2

/-- What is found was inserted, or there before. -/
theorem getByLeft_insertAll {pairs : List (K × V)} (h : (m.insertAll pairs).getByLeft k = some v) :
    (k, v) ∈ pairs ∨ m.getByLeft k = some v := by
  induction pairs generalizing m with
  | nil => exact .inr h
  | cons pair pairs ih =>
    rcases ih h with hmem | h
    · exact .inl (List.mem_cons_of_mem _ hmem)
    · rcases getByLeft_insert h with heq | h
      · exact .inl (List.mem_cons.2 (.inl heq))
      · exact .inr h

omit [DecidableEq K] [DecidableEq V] in
/-- What is found among the entries that are kept was there before. -/
theorem getByLeft_retain {keep : K → Bool} (h : (m.retain keep).getByLeft k = some v) :
    m.getByLeft k = some v :=
  (Option.ite_none_right_eq_some.1 h).2

/-- The map holds the last keys that were inserted, with the last values inserted for them. -/
structure Holds (m : LruBiMap K V) (limit : ℕ) (pairs : List (K × V)) : Prop where
  lruKeys : m.lruKeys.Holds limit (pairs.map (·.1))
  leftToRight : ∀ k, m.leftToRight k = if k ∈ m.lruKeys.keys then lastEntry pairs k else none

variable {limit : ℕ} {pairs : List (K × V)}

omit [DecidableEq V] in
theorem holds_new (h : 0 < limit) : (new limit : LruBiMap K V).Holds limit [] :=
  ⟨⟨h, rfl, List.take_nil.symm⟩, fun _ => rfl⟩

/-- Inserting a pair is a use of its key. -/
theorem Holds.insert (h : m.Holds limit pairs) (k : K) (v : V) :
    (m.insert k v).Holds limit (pairs ++ [(k, v)]) := by
  obtain ⟨new, evicted, c, hc, hholds, hnew, hmem⟩ := h.lruKeys.insert k
  have hlruKeys : (m.insert k v).lruKeys = c := by
    rw [LruBiMap.insert, hc]
  constructor
  · rwa [hlruKeys, List.map_append, List.map_singleton]
  · intro k'
    rw [hlruKeys, lastEntry_append]
    by_cases hne : k' = k
    · subst hne
      have hk : k' ∈ c.keys := by
        rw [hholds.keys_eq]
        exact (mem_take_split_iff List.not_mem_nil).2 hholds.limit_pos
      rw [leftToRight_insert_self, if_pos hk, lastEntry_cons, if_pos rfl]
      rfl
    · rw [leftToRight_insert_of_ne hc hne, h.leftToRight, lastEntry_cons, if_neg (Ne.symm hne)]
      simp only [hmem k' hne, lastEntry_nil, Option.or_none, Option.none_or]
      by_cases hevicted : evicted = some k'
      · rw [if_pos ⟨hnew (by simp [hevicted]), hevicted⟩, if_neg fun hk => hk.2 hevicted]
      · rw [if_neg fun hk => hevicted hk.2]
        simp only [hevicted, ne_eq, not_false_eq_true, and_true]

/-- Inserting pairs uses their keys in turn. -/
theorem Holds.insertAll (h : m.Holds limit pairs) (pairs' : List (K × V)) :
    (m.insertAll pairs').Holds limit (pairs ++ pairs') := by
  induction pairs' generalizing m pairs with
  | nil => rwa [List.append_nil]
  | cons pair pairs' ih =>
    rw [List.append_cons]
    exact ih (h.insert pair.1 pair.2)

omit [DecidableEq V] in
/-- A key has a value if it is in the cache of keys. -/
theorem Holds.isSome_getByLeft (h : m.Holds limit pairs) {k : K} :
    (m.getByLeft k).isSome ↔ k ∈ m.lruKeys.keys := by
  rw [getByLeft, h.leftToRight]
  constructor
  · intro hsome
    by_contra hk
    rw [if_neg hk] at hsome
    cases hsome
  · intro hk
    have hused := mem_recency.1 (List.mem_of_mem_take (h.lruKeys.keys_eq ▸ hk))
    rw [if_pos hk]
    exact isSome_lastEntry_iff.2 hused

omit [DecidableEq V] in
/-- A key is found if fewer than `limit` other ones were inserted since. -/
theorem Holds.isSome_getByLeft_iff (h : m.Holds limit pairs) {k : K} :
    (m.getByLeft k).isSome ↔ ∃ before after, pairs.map (·.1) = before ++ k :: after ∧
      k ∉ after ∧ after.toFinset.card < limit := by
  rw [h.isSome_getByLeft, h.lruKeys.keys_eq, mem_take_recency_iff]

omit [DecidableEq V] in
/-- What is found for a key was inserted with it. -/
theorem Holds.mem_of_getByLeft (h : m.Holds limit pairs) {k : K} {v : V}
    (hleft : m.getByLeft k = some v) : (k, v) ∈ pairs := by
  rw [getByLeft, h.leftToRight, Option.ite_none_right_eq_some] at hleft
  exact mem_of_lastEntry hleft.2

end LruBiMap

end Lru
