import Mathlib.Data.Set.Card
import Nanoreth.Lib.Lru

/-!
# The bidirectional map

The block store looks up numbers by hashes in a bidirectional map (`pseudo_peer/utils.rs`), whose
keys are in an LRU cache. Inserting a pair overwrites an entry in each of the two maps, and evicting
a key removes one in each of them.

From left to right, the map holds the keys of the cache with their last values. From right to left,
it should find the key that was last inserted with a value (`lastKey`). But

* a key that is inserted with a new value is still found by the old one;
* a key that is evicted takes the entry of its value with it, also if that is the entry of another
  key.

These are the only insertions after which the map from right to left is wrong (`Clean`,
`consistent_insert_iff`). There are none if the pairs are one-to-one (`allClean_of_oneToOne`).
-/

open Overwrite

namespace Lru

namespace LruBiMap

variable {K V : Type*} [DecidableEq K] [DecidableEq V]

/-- The key of a value. -/
def getByRight (m : LruBiMap K V) (v : V) : Option K := m.rightToLeft v

/-- The key last inserted with the value `v`, of those that have this value. -/
def lastKey (m : LruBiMap K V) (pairs : List (K × V)) (v : V) : Option K :=
  (pairs.reverse.find? fun pair => pair.2 = v ∧ m.getByLeft pair.1 = some v).map (·.1)

/-- From right to left, the map finds the last keys. -/
def Consistent (m : LruBiMap K V) (pairs : List (K × V)) : Prop :=
  ∀ v k, m.getByRight v = some k ↔ m.lastKey pairs v = some k

/-- An insertion takes no value from a key that is found by it, and evicts no key whose value
    another key has, unless the inserted key has it then. -/
structure Clean (m : LruBiMap K V) (k : K) (v : V) : Prop where
  overwritten : ∀ v' ≠ v, m.getByLeft k = some v' → m.getByRight v' ≠ some k
  evicted : ∀ k', (m.lruKeys.insertAndGetEvicted k).2.1 = some k' → ∀ v' ≠ v,
    m.getByLeft k' = some v' → ∀ k'' ≠ k', m.getByLeft k'' ≠ some v'

variable {m : LruBiMap K V} {limit : ℕ} {pairs : List (K × V)} {k : K} {v : V}

/-! ## Last keys -/

omit [DecidableEq K] in
/-- The last key of a value is the one that was inserted last among those that still have it. -/
theorem lastKey_eq_some_iff : m.lastKey pairs v = some k ↔ m.getByLeft k = some v ∧
    ∃ before after, pairs = before ++ (k, v) :: after ∧
      ∀ pair ∈ after, pair.2 = v → m.getByLeft pair.1 ≠ some v := by
  rw [lastKey, Option.map_eq_some_iff]
  constructor
  · rintro ⟨⟨k', v'⟩, hfind, rfl⟩
    obtain ⟨hpair, after, before, hsplit, hafter⟩ := List.find?_eq_some_iff_append.1 hfind
    simp only [decide_eq_true_eq] at hpair
    obtain ⟨rfl, hleft⟩ := hpair
    refine ⟨hleft, before.reverse, after.reverse, ?_, fun pair hpair hv => ?_⟩
    · rw [← List.reverse_reverse pairs, hsplit]
      simp
    · simpa [hv] using hafter pair (List.mem_reverse.1 hpair)
  · rintro ⟨hleft, before, after, rfl, hafter⟩
    refine ⟨(k, v), List.find?_eq_some_iff_append.2 ⟨by simpa using hleft, after.reverse,
      before.reverse, by simp, fun pair hpair => ?_⟩, rfl⟩
    simpa [imp_iff_not_or] using hafter pair (List.mem_reverse.1 hpair)

omit [DecidableEq K] in
theorem lastKey_eq_none_iff : m.lastKey pairs v = none ↔
    ∀ pair ∈ pairs, pair.2 = v → m.getByLeft pair.1 ≠ some v := by
  rw [lastKey, Option.map_eq_none_iff, List.find?_eq_none]
  simp

/-- The last key for a value is in the map, if any key with that value is. -/
theorem lastKey_ne_none (h : m.Holds limit pairs) (hleft : m.getByLeft k = some v) :
    m.lastKey pairs v ≠ none :=
  fun hnone => lastKey_eq_none_iff.1 hnone (k, v) (h.mem_of_getByLeft hleft) rfl hleft

omit [DecidableEq K] in
/-- A last key is still one if fewer keys have the value, and it is one of them. -/
theorem lastKey_mono {m' : LruBiMap K V} (h : m.lastKey pairs v = some k)
    (hleft : m'.getByLeft k = some v)
    (hmono : ∀ k', m'.getByLeft k' = some v → m.getByLeft k' = some v) :
    m'.lastKey pairs v = some k := by
  obtain ⟨-, before, after, hsplit, hafter⟩ := lastKey_eq_some_iff.1 h
  refine lastKey_eq_some_iff.2 ⟨hleft, before, after, hsplit, fun pair hpair hv hleft' => ?_⟩
  exact hafter pair hpair hv (hmono _ hleft')

omit [DecidableEq K] in
theorem lastKey_append_self (hleft : m.getByLeft k = some v) :
    m.lastKey (pairs ++ [(k, v)]) v = some k :=
  lastKey_eq_some_iff.2 ⟨hleft, pairs, [], rfl, by simp⟩

omit [DecidableEq K] in
theorem lastKey_append_of_ne {v' : V} (hne : v ≠ v') :
    m.lastKey (pairs ++ [(k, v)]) v' = m.lastKey pairs v' := by
  rw [lastKey, List.reverse_append, List.reverse_singleton, List.singleton_append,
    List.find?_cons_of_neg (by simp [hne])]
  rfl

/-! ## Insertions -/

theorem getByRight_insert_self (m : LruBiMap K V) (k : K) (v : V) :
    (m.insert k v).getByRight v = some k :=
  Function.update_self ..

/-- A value is lost if its key is evicted. -/
theorem getByRight_insert_of_evicted {k' : K} {v' : V} (hne : v' ≠ v)
    (hevicted : (m.lruKeys.insertAndGetEvicted k).2.1 = some k')
    (hleft : m.getByLeft k' = some v') : (m.insert k v).getByRight v' = none := by
  have hnew := (LruCache.of_evicted hevicted).1
  simp only [getByRight, insert, Function.update_of_ne hne, hevicted, hnew, evict]
  rw [getByLeft] at hleft
  simp only [hleft, Function.update_self]

/-- A value is kept if none of its keys is evicted. -/
theorem getByRight_insert_of_kept {v' : V} (hne : v' ≠ v)
    (hkept : ∀ k', (m.lruKeys.insertAndGetEvicted k).2.1 = some k' → m.getByLeft k' ≠ some v') :
    (m.insert k v).getByRight v' = m.getByRight v' := by
  simp only [getByRight, insert, Function.update_of_ne hne]
  split
  · rename_i k' hnew hevicted
    have hleft := hkept k' hevicted
    rw [getByLeft] at hleft
    unfold evict
    split
    · rename_i v'' hv''
      have hne' : v' ≠ v'' := fun heq => hleft (heq ▸ hv'')
      exact Function.update_of_ne hne' _ _
    · rfl
  · rfl

/-- Other keys keep their values, unless they are evicted. -/
theorem getByLeft_insert_of_ne {k' : K} (hne : k' ≠ k) {v' : V} :
    (m.insert k v).getByLeft k' = some v' ↔
      m.getByLeft k' = some v' ∧ (m.lruKeys.insertAndGetEvicted k).2.1 ≠ some k' := by
  rw [getByLeft, leftToRight_insert_of_ne rfl hne, Option.ite_none_left_eq_some, and_comm]
  refine and_congr_right fun _ => not_congr ⟨fun h => h.2, fun h => ⟨?_, h⟩⟩
  exact (LruCache.of_evicted h).1

theorem getByLeft_insert_self (m : LruBiMap K V) (k : K) (v : V) :
    (m.insert k v).getByLeft k = some v :=
  leftToRight_insert_self m k v

/-- Of the other values, no key has one that did not have it before. -/
theorem getByLeft_of_insert {k' : K} {v' : V} (hne : v' ≠ v)
    (hleft : (m.insert k v).getByLeft k' = some v') :
    k' ≠ k ∧ m.getByLeft k' = some v' ∧ (m.lruKeys.insertAndGetEvicted k).2.1 ≠ some k' := by
  have hk : k' ≠ k := by
    rintro rfl
    rw [getByLeft_insert_self, Option.some.injEq] at hleft
    exact hne hleft.symm
  exact ⟨hk, (getByLeft_insert_of_ne hk).1 hleft⟩

/-- The last keys for the other values stay the same, unless a value is taken from the key that is
    found by it, or from an evicted key. -/
theorem lastKey_insert_of_ne (hclean : m.Clean k v) (hc : m.Consistent pairs) {v' : V}
    (hne : v' ≠ v)
    (hkept : ∀ k', (m.lruKeys.insertAndGetEvicted k).2.1 = some k' → m.getByLeft k' ≠ some v') :
    (m.insert k v).lastKey pairs v' = m.lastKey pairs v' := by
  cases hlast : m.lastKey pairs v' with
  | none =>
    refine lastKey_eq_none_iff.2 fun pair hpair hv hleft => ?_
    exact lastKey_eq_none_iff.1 hlast pair hpair hv (getByLeft_of_insert hne hleft).2.1
  | some k' =>
    have hleft : m.getByLeft k' = some v' := (lastKey_eq_some_iff.1 hlast).1
    have hk : k' ≠ k := by
      rintro rfl
      exact hclean.overwritten v' hne hleft ((hc v' k').2 hlast)
    refine lastKey_mono hlast ?_ fun k'' hleft'' => (getByLeft_of_insert hne hleft'').2.1
    exact (getByLeft_insert_of_ne hk).2 ⟨hleft, fun hevicted => hkept k' hevicted hleft⟩

/-- A map that finds the last keys does so after an insertion if and only if it is clean. -/
theorem consistent_insert_iff (h : m.Holds limit pairs) (hc : m.Consistent pairs) (k : K) (v : V) :
    (m.insert k v).Consistent (pairs ++ [(k, v)]) ↔ m.Clean k v := by
  constructor
  · intro hcons
    constructor
    case overwritten =>
      intro v' hne hleft hright
      have hkept : ∀ k', (m.lruKeys.insertAndGetEvicted k).2.1 = some k' →
          m.getByLeft k' ≠ some v' :=
        fun k' hevicted =>
          absurd (h.isSome_getByLeft.1 (hleft ▸ rfl)) (LruCache.of_evicted hevicted).2.1
      rw [← getByRight_insert_of_kept hne hkept] at hright
      have hlast := lastKey_eq_some_iff.1 ((hcons v' k).1 hright)
      rw [getByLeft_insert_self, Option.some.injEq] at hlast
      exact hne hlast.1.symm
    case evicted =>
      intro k' hevicted v' hne hleft k'' hk'' hleft''
      have hk : k'' ≠ k := by
        rintro rfl
        exact (LruCache.of_evicted hevicted).2.1 (h.isSome_getByLeft.1 (hleft'' ▸ rfl))
      have hstays := (getByLeft_insert_of_ne hk (v := v)).2
        ⟨hleft'', fun heq => hk'' (Option.some.inj (heq.symm.trans hevicted))⟩
      obtain ⟨k₁, hlast⟩ := Option.ne_none_iff_exists'.1 (lastKey_ne_none (h.insert k v) hstays)
      have hright := (hcons v' k₁).2 hlast
      rw [getByRight_insert_of_evicted hne hevicted hleft] at hright
      cases hright
  · intro hclean v' k₁
    by_cases hv : v' = v
    · subst hv
      rw [getByRight_insert_self, lastKey_append_self (getByLeft_insert_self m k v')]
    · rw [lastKey_append_of_ne (Ne.symm hv)]
      by_cases hevicted : ∃ k', (m.lruKeys.insertAndGetEvicted k).2.1 = some k' ∧
          m.getByLeft k' = some v'
      · -- The entry of the value is removed, and no other key has it.
        obtain ⟨k', hevicted, hleft⟩ := hevicted
        have hnone : (m.insert k v).lastKey pairs v' = none := by
          refine lastKey_eq_none_iff.2 fun pair _ _ hleft' => ?_
          obtain ⟨-, hleft', hne⟩ := getByLeft_of_insert hv hleft'
          exact hclean.evicted k' hevicted v' hv hleft pair.1
            (fun heq => hne (heq ▸ hevicted)) hleft'
        rw [getByRight_insert_of_evicted hv hevicted hleft, hnone]
      · have hkept : ∀ k', (m.lruKeys.insertAndGetEvicted k).2.1 = some k' →
            m.getByLeft k' ≠ some v' :=
          fun k' hk' hleft => hevicted ⟨k', hk', hleft⟩
        rw [getByRight_insert_of_kept hv hkept, lastKey_insert_of_ne hclean hc hv hkept]
        exact hc v' k₁

/-! ## Sequences of insertions -/

/-- Every insertion of a sequence is clean, into the map of those before it. -/
def AllClean (limit : ℕ) (pairs : List (K × V)) : Prop :=
  ∀ before k v after, pairs = before ++ (k, v) :: after →
    ((new limit : LruBiMap K V).insertAll before).Clean k v

/-- All insertions are clean if those before and the last one are. -/
theorem allClean_append {limit : ℕ} {pairs : List (K × V)} {k : K} {v : V} :
    AllClean limit (pairs ++ [(k, v)]) ↔
      AllClean limit pairs ∧ ((new limit : LruBiMap K V).insertAll pairs).Clean k v := by
  constructor
  · intro h
    refine ⟨fun before k' v' after hsplit => ?_, h pairs k v [] rfl⟩
    exact h before k' v' (after ++ [(k, v)]) (by rw [hsplit]; simp)
  · rintro ⟨hpairs, hlast⟩ before k' v' after hsplit
    rcases List.eq_nil_or_concat' after with rfl | ⟨after, pair, rfl⟩
    · obtain ⟨rfl, heq⟩ := List.append_inj' hsplit rfl
      cases heq
      exact hlast
    · have hinit : pairs ++ [(k, v)] = (before ++ (k', v') :: after) ++ [pair] := by
        simpa using hsplit
      exact hpairs before k' v' after (List.append_inj' hinit rfl).1

theorem holds_insertAll (hlimit : 0 < limit) (pairs : List (K × V)) :
    ((new limit : LruBiMap K V).insertAll pairs).Holds limit pairs :=
  (holds_new hlimit).insertAll pairs

theorem insertAll_append_singleton (m : LruBiMap K V) (pairs : List (K × V)) (k : K) (v : V) :
    m.insertAll (pairs ++ [(k, v)]) = (m.insertAll pairs).insert k v := by
  rw [insertAll, List.foldl_append]
  rfl

/-- The map finds the last keys after all initial insertions of a sequence if and only if all
    insertions are clean. -/
theorem consistent_iff_allClean (hlimit : 0 < limit) (pairs : List (K × V)) :
    (∀ done, done <+: pairs → ((new limit : LruBiMap K V).insertAll done).Consistent done) ↔
      AllClean limit pairs := by
  induction pairs using List.reverseRecOn with
  | nil =>
    constructor
    · intro _ before k v after hsplit
      simp at hsplit
    · intro _ done hdone
      rw [List.prefix_nil] at hdone
      subst hdone
      intro v k
      exact ⟨nofun, nofun⟩
  | append_singleton pairs pair ih =>
    obtain ⟨k, v⟩ := pair
    simp only [List.prefix_concat_iff, or_imp, forall_and, forall_eq]
    rw [allClean_append, ← ih, and_comm]
    refine and_congr_right fun hdone => ?_
    rw [insertAll_append_singleton]
    exact consistent_insert_iff (holds_insertAll hlimit pairs) (hdone pairs List.prefix_rfl) k v

/-- Pairs in which no key has two values, and no value two keys. -/
def OneToOne (pairs : List (K × V)) : Prop :=
  ∀ pair ∈ pairs, ∀ pair' ∈ pairs, pair.1 = pair'.1 ↔ pair.2 = pair'.2

instance (pairs : List (K × V)) : Decidable (OneToOne pairs) :=
  inferInstanceAs (Decidable (∀ pair ∈ pairs, ∀ pair' ∈ pairs, pair.1 = pair'.1 ↔ pair.2 = pair'.2))

/-- Inserting pairs that are one-to-one is clean. -/
theorem allClean_of_oneToOne (hlimit : 0 < limit) (h : OneToOne pairs) : AllClean limit pairs := by
  intro before k v after hsplit
  have hholds := holds_insertAll hlimit before
  have hmem : ∀ pair ∈ before, pair ∈ pairs := fun pair hpair =>
    hsplit ▸ List.mem_append_left _ hpair
  constructor
  case overwritten =>
    intro v' hne hleft
    have hlast : (k, v) ∈ pairs := hsplit ▸ List.mem_append_right _ List.mem_cons_self
    exact absurd ((h _ (hmem _ (hholds.mem_of_getByLeft hleft)) _ hlast).1 rfl) hne
  case evicted =>
    intro k' _ v' _ hleft k'' hne hleft''
    exact hne ((h _ (hmem _ (hholds.mem_of_getByLeft hleft'')) _
      (hmem _ (hholds.mem_of_getByLeft hleft))).2 rfl)

/-! ## Sizes -/

omit [DecidableEq V] in
/-- No more keys have values than the limit allows. -/
theorem Holds.encard_left_le (h : m.Holds limit pairs) :
    {k | (m.getByLeft k).isSome}.encard ≤ limit := by
  have hkeys : {k | (m.getByLeft k).isSome} = (m.lruKeys.keys.toFinset : Set K) := by
    ext k
    rw [Set.mem_ofPred_eq, h.isSome_getByLeft, Finset.mem_coe, List.mem_toFinset]
  rw [hkeys, Set.encard_coe_eq_coe_finsetCard, Nat.cast_le]
  exact (List.toFinset_card_le _).trans h.lruKeys.length_le

omit [DecidableEq K] in
/-- A map that finds the last keys has no more entries from right to left. -/
theorem Consistent.encard_right_le (hc : m.Consistent pairs) :
    {v | (m.getByRight v).isSome}.encard ≤ {k | (m.getByLeft k).isSome}.encard := by
  have hleft : ∀ v k, m.getByRight v = some k → m.getByLeft k = some v := fun v k hright =>
    (lastKey_eq_some_iff.1 ((hc v k).1 hright)).1
  calc {v | (m.getByRight v).isSome}.encard
      ≤ (some '' {k | (m.getByLeft k).isSome}).encard := by
        refine Set.encard_le_encard_of_injOn (f := m.getByRight) ?_ ?_
        · intro v hv
          obtain ⟨k, hk⟩ := Option.isSome_iff_exists.1 hv
          exact ⟨k, by simp [hleft v k hk], hk.symm⟩
        · intro v hv v' _ heq
          obtain ⟨k, hk⟩ := Option.isSome_iff_exists.1 hv
          exact Option.some.inj ((hleft v k hk).symm.trans (hleft v' k (heq ▸ hk)))
    _ ≤ {k | (m.getByLeft k).isSome}.encard := Set.encard_image_le _ _

end LruBiMap

end Lru

namespace Nanoreth

open Lru LruBiMap

/-- The map from left to right always has the keys of the cache, and no more than the limit. The
    map from right to left has no more than the limit either, and finds the last key of each value,
    after every initial part of a sequence of insertions, if and only if all insertions are clean;
    which they are if the pairs are one-to-one. -/
theorem lruBiMap_iff {K V : Type*} [DecidableEq K] [DecidableEq V] (limit : ℕ) (hlimit : 0 < limit)
    (pairs : List (K × V)) :
    let inserted (done : List (K × V)) : LruBiMap K V := (new limit).insertAll done
    (∀ k, ((inserted pairs).getByLeft k).isSome ↔ k ∈ (inserted pairs).lruKeys.keys) ∧
    {k | ((inserted pairs).getByLeft k).isSome}.encard ≤ limit ∧
    ((∀ done, done <+: pairs → {v | ((inserted done).getByRight v).isSome}.encard ≤ limit ∧
        (inserted done).Consistent done) ↔ AllClean limit pairs) ∧
    (OneToOne pairs → AllClean limit pairs) := by
  intro inserted
  have hholds : (inserted pairs).Holds limit pairs := holds_insertAll hlimit pairs
  refine ⟨fun k => hholds.isSome_getByLeft, hholds.encard_left_le, ?_, allClean_of_oneToOne hlimit⟩
  rw [← consistent_iff_allClean hlimit]
  constructor
  · exact fun h done hdone => (h done hdone).2
  · intro h done hdone
    refine ⟨?_, h done hdone⟩
    exact (h done hdone).encard_right_le.trans (holds_insertAll hlimit done).encard_left_le

/-- A key is inserted again, and another one is evicted. -/
theorem lruBiMap_iff_evicted :
    AllClean 2 [(1, 10), (2, 20), (1, 10), (3, 30)] ∧
    ((new 2).insertAll [(1, 10), (2, 20), (1, 10), (3, 30)] : LruBiMap ℕ ℕ).Consistent
      [(1, 10), (2, 20), (1, 10), (3, 30)] := by
  obtain ⟨-, -, hiff, hclean⟩ := lruBiMap_iff 2 (by decide) [(1, 10), (2, 20), (1, 10), (3, 30)]
  have hclean := hclean (by decide)
  exact ⟨hclean, (hiff.2 hclean _ List.prefix_rfl).2⟩

/-- With a new value, a key is still found by the old one, and there are more values than the limit.
    When a key is evicted, another one with the same value is not found any more. -/
theorem lruBiMap_stale :
    let overwritten : LruBiMap ℕ ℕ := (new 1).insertAll [(1, 10), (1, 20)]
    let evicted : LruBiMap ℕ ℕ := (new 2).insertAll [(1, 10), (2, 10), (3, 30)]
    (overwritten.getByRight 10 = some 1 ∧ overwritten.getByLeft 1 = some 20 ∧
      ¬{v | (overwritten.getByRight v).isSome}.encard ≤ 1) ∧
    evicted.getByRight 10 = none ∧ evicted.lastKey [(1, 10), (2, 10), (3, 30)] 10 = some 2 := by
  intro overwritten evicted
  refine ⟨⟨by decide, by decide, ?_⟩, by decide, by decide⟩
  rw [Set.encard_le_one_iff]
  intro h
  exact absurd (h 10 20 (by decide) (by decide)) (by decide)

end Nanoreth
