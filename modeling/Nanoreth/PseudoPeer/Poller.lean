import Nanoreth.PseudoPeer.Transparency

/-!
# The block poller

The task that polls the block store and announces its blocks (`pseudo_peer/service.rs`,
`BlockPoller::task`). It waits for a signal to start, takes the number of the latest block, and
goes through the blocks from there on: a block that is fetched is sent, and the next one is the
one after it; if fetching it fails, it is fetched again. If there is a cutoff, then a number past
it is set back to it (`clamp`).

So when the cutoff has been sent, the next number is set back to it, and it is sent again, and
again: the blocks that are sent are consecutive only up to the first time it is sent
(`announced_iff`). The numbers wrap around after the last one.
-/

namespace Nanoreth

open Transition

/-- What the task of the poller is doing. -/
inductive PollerPhase
  | suspended
  | polling (nextBlockNumber : UInt64)
  | stopped
  deriving DecidableEq

/-- The poller, with the store it shares and the blocks it has sent. -/
structure BlockPoller where
  phase : PollerPhase
  store : BlockStore
  sent : List (UInt64 × BlockAndReceipts)

/-- What happens to the poller. -/
inductive PollerLabel (ε : Type)
  /-- The signal to start is there, or will never be, and the source has found the latest block or
      not. -/
  | start (signal : Bool) (latest : Option UInt64)
  /-- The next block is fetched, and sent if someone is there to receive it. -/
  | poll (source : BlockSource ε) (received : Bool)
  /-- Others use the store. -/
  | share (event : StoreEvent ε)

/-- A number, set back to the cutoff if it is past it. -/
def clamp (debugCutoffHeight : Option UInt64) (n : UInt64) : UInt64 :=
  match debugCutoffHeight with
  | some cutoff => if cutoff < n then cutoff else n
  | none => n

/-- What the task does when it is resumed. It fails without a signal, or without a block. -/
def PollerPhase.start (signal : Bool) (latest : Option UInt64) : PollerPhase :=
  match signal, latest with
  | true, some latest => .polling latest
  | _, _ => .stopped

namespace BlockPoller

variable {ε : Type} (debugCutoffHeight : Option UInt64)

/-- The poller after what happens to it, if it can. -/
def next (poller : BlockPoller) : PollerLabel ε → Option BlockPoller
  | .start signal latest =>
    match poller.phase with
    | .suspended => some { poller with phase := .start signal latest }
    | _ => none
  | .poll source received =>
    match poller.phase with
    | .polling nextBlockNumber =>
      -- The number is limited in every round, so that the block at the cutoff is sent again and
      -- again.
      let n := clamp debugCutoffHeight nextBlockNumber
      match poller.store.getByNumber source n with
      | (.ok block, store) =>
        if received then some ⟨.polling (n + 1), store, poller.sent ++ [(n, block)]⟩
        else some ⟨.stopped, store, poller.sent⟩
      | (.error _, store) => some ⟨.polling n, store, poller.sent⟩
    | _ => none
  | .share event => some { poller with store := event.apply poller.store }

/-- The task of the poller. -/
def task : System BlockPoller (PollerLabel ε) where
  init poller := poller.phase = .suspended ∧ poller.sent = []
  step poller label poller' := poller.next debugCutoffHeight label = some poller'

end BlockPoller

/-! ## The numbers that are sent -/

/-- The numbers that are sent, from the latest block on, whatever fails in between. -/
def announced (debugCutoffHeight : Option UInt64) (latest : UInt64) : ℕ → UInt64
  | 0 => clamp debugCutoffHeight latest
  | i + 1 => clamp debugCutoffHeight (announced debugCutoffHeight latest i + 1)

/-- The greatest number that may be sent. -/
def lastNumber (debugCutoffHeight : Option UInt64) : ℕ :=
  debugCutoffHeight.elim (2 ^ 64 - 1) UInt64.toNat

variable {cutoff : Option UInt64} {latest : UInt64}

theorem clamp_clamp (cutoff : Option UInt64) (n : UInt64) :
    clamp cutoff (clamp cutoff n) = clamp cutoff n := by
  cases cutoff with
  | none => rfl
  | some c =>
    simp only [clamp]
    split_ifs <;> simp_all

/-- A number is limited by the last one to announce. -/
theorem toNat_clamp (cutoff : Option UInt64) (n : UInt64) :
    (clamp cutoff n).toNat = min n.toNat (lastNumber cutoff) := by
  have hn := n.toNat_lt
  cases cutoff with
  | none =>
    rw [clamp, lastNumber, Option.elim_none]
    omega
  | some c =>
    rw [clamp, lastNumber, Option.elim_some]
    split_ifs with h
    · rw [UInt64.lt_iff_toNat_lt] at h
      omega
    · rw [UInt64.lt_iff_toNat_lt] at h
      omega

theorem lastNumber_lt (cutoff : Option UInt64) : lastNumber cutoff < 2 ^ 64 := by
  cases cutoff with
  | none => decide
  | some c => exact c.toNat_lt

theorem announced_le (cutoff : Option UInt64) (latest : UInt64) (i : ℕ) :
    (announced cutoff latest i).toNat ≤ lastNumber cutoff := by
  cases i <;> rw [announced, toNat_clamp] <;> exact min_le_right _ _

/-- Up to the last number, the numbers that are sent are consecutive. -/
theorem toNat_announced {i : ℕ}
    (h : min latest.toNat (lastNumber cutoff) + i ≤ lastNumber cutoff) :
    (announced cutoff latest i).toNat = min latest.toNat (lastNumber cutoff) + i := by
  induction i with
  | zero => exact toNat_clamp cutoff latest
  | succ i ih =>
    have hlast := lastNumber_lt cutoff
    have hsucc : (announced cutoff latest i + 1).toNat =
        (announced cutoff latest i).toNat + 1 := by
      rw [UInt64.toNat_add, UInt64.toNat_one, ih (by omega), Nat.mod_eq_of_lt (by omega)]
    rw [announced, toNat_clamp, hsucc, ih (by omega), min_eq_left (by omega)]
    omega

/-- From the cutoff on, it is sent again and again. -/
theorem announced_eq_cutoff {c : UInt64} {i : ℕ} (hc : c.toNat + 1 < 2 ^ 64)
    (h : c.toNat ≤ latest.toNat + i) : announced (some c) latest i = c := by
  have hlast : lastNumber (some c) = c.toNat := rfl
  refine UInt64.toNat_inj.1 ?_
  induction i with
  | zero =>
    rw [announced, toNat_clamp, hlast]
    exact min_eq_right h
  | succ i ih =>
    rcases Nat.lt_or_ge (latest.toNat + i) c.toNat with hlt | hge
    · rw [toNat_announced (by omega)]
      omega
    · have hsucc : (announced (some c) latest i + 1).toNat = c.toNat + 1 := by
        rw [UInt64.toNat_add, UInt64.toNat_one, ih hge, Nat.mod_eq_of_lt hc]
      rw [announced, toNat_clamp, hsucc, hlast]
      omega

/-- The first numbers that are sent are consecutive exactly when the last number is not sent before
    the end. -/
theorem announced_consecutive_iff {k : ℕ} :
    ((List.range k).map fun i => (announced cutoff latest i).toNat) =
        ((List.range k).map fun i => min latest.toNat (lastNumber cutoff) + i) ↔
      min latest.toNat (lastNumber cutoff) + k ≤ lastNumber cutoff + 1 := by
  rw [List.map_inj_left]
  constructor
  · intro h
    rcases Nat.eq_zero_or_pos k with rfl | hk
    · omega
    · have hle := announced_le cutoff latest (k - 1)
      rw [h (k - 1) (List.mem_range.2 (by omega))] at hle
      omega
  · intro h i hi
    rw [List.mem_range] at hi
    exact toNat_announced (by omega)

/-! ## Runs of the poller -/

namespace BlockPoller

variable {ε : Type} {poller poller' : BlockPoller} {label : PollerLabel ε}

/-- What can happen to the poller: it starts or stops, sends the next block, fails to fetch it, or
    the store changes. -/
theorem next_cases (h : poller.next cutoff label = some poller') :
    (∃ latest, label = .start true (some latest) ∧ poller.phase = .suspended ∧
      poller'.phase = .polling latest ∧ poller'.sent = poller.sent) ∨
    ((∀ latest, label ≠ .start true (some latest)) ∧ poller'.phase = .stopped ∧
      poller'.sent = poller.sent) ∨
    (∃ n block, (∀ latest, label ≠ .start true (some latest)) ∧ poller.phase = .polling n ∧
      poller'.phase = .polling (clamp cutoff n + 1) ∧
      poller'.sent = poller.sent ++ [(clamp cutoff n, block)]) ∨
    (∃ n, (∀ latest, label ≠ .start true (some latest)) ∧ poller.phase = .polling n ∧
      poller'.phase = .polling (clamp cutoff n) ∧ poller'.sent = poller.sent) ∨
    (∀ latest, label ≠ .start true (some latest)) ∧ poller'.phase = poller.phase ∧
      poller'.sent = poller.sent := by
  cases label with
  | start signal latest =>
    cases hphase : poller.phase with
    | suspended =>
      simp only [next, hphase, Option.some.injEq] at h
      cases h
      -- Without a signal or a latest block the task ends, with both it starts polling.
      rcases signal with _ | _
      · exact .inr (.inl ⟨by simp, rfl, rfl⟩)
      · rcases latest with _ | latest
        · exact .inr (.inl ⟨by simp, rfl, rfl⟩)
        · exact .inl ⟨latest, rfl, rfl, rfl, rfl⟩
    | polling n => simp [next, hphase] at h
    | stopped => simp [next, hphase] at h
  | poll source received =>
    cases hphase : poller.phase with
    | suspended => simp [next, hphase] at h
    | polling n =>
      -- A block that cannot be read is polled again; one that can is sent, unless nobody receives
      -- it.
      rcases hget : poller.store.getByNumber source (clamp cutoff n) with ⟨e | block, store⟩
      · simp only [next, hphase, hget, Option.some.injEq] at h
        cases h
        exact .inr (.inr (.inr (.inl ⟨n, by simp, rfl, rfl, rfl⟩)))
      · simp only [next, hphase, hget] at h
        split_ifs at h
        · cases h
          exact .inr (.inr (.inl ⟨n, block, by simp, rfl, rfl, rfl⟩))
        · cases h
          exact .inr (.inl ⟨by simp, rfl, rfl⟩)
    | stopped => simp [next, hphase] at h
  | share event =>
    cases h
    exact .inr (.inr (.inr (.inr ⟨by simp, rfl, rfl⟩)))

/-- What is known of the poller after a run: if it has not started, nothing was sent; if it has
    from the latest block, the numbers from there on were sent, and the next one is to be. -/
structure Sends (cutoff : Option UInt64) (labels : List (PollerLabel ε)) (poller : BlockPoller) :
    Prop where
  suspended : poller.phase = .suspended → poller.sent = [] ∧
    ∀ latest, PollerLabel.start true (some latest) ∉ labels
  sent : ∀ latest, PollerLabel.start true (some latest) ∈ labels →
    poller.sent.map (·.1) = (List.range poller.sent.length).map (announced cutoff latest)
  polling : ∀ latest, PollerLabel.start true (some latest) ∈ labels → ∀ n,
    poller.phase = .polling n → clamp cutoff n = announced cutoff latest poller.sent.length

/-- A step sends the next number, if any. -/
theorem Sends.next {labels : List (PollerLabel ε)} (hsends : Sends cutoff labels poller)
    (h : poller.next cutoff label = some poller') : Sends cutoff (labels ++ [label]) poller' := by
  obtain ⟨latest, rfl, hphase, hphase', hsent⟩ | ⟨hlabel, hphase', hsent⟩ |
    ⟨n, block, hlabel, hphase, hphase', hsent⟩ | ⟨n, hlabel, hphase, hphase', hsent⟩ |
    ⟨hlabel, hphase', hsent⟩ := next_cases h
  · -- It starts, and has not started before.
    obtain ⟨hnil, hnot⟩ := hsends.suspended hphase
    have hlatest : ∀ latest', PollerLabel.start true (some latest') ∈
        labels ++ [PollerLabel.start true (some latest)] → latest' = latest := by
      intro latest' hmem
      rcases List.mem_append.1 hmem with hmem | hmem
      · exact absurd hmem (hnot latest')
      · cases List.mem_singleton.1 hmem
        rfl
    refine ⟨?_, ?_, ?_⟩
    · rw [hphase']
      exact fun heq => by cases heq
    · intro latest' _
      rw [hsent, hnil]
      rfl
    · intro latest' hmem n hn
      cases hphase'.symm.trans hn
      cases hlatest latest' hmem
      rw [hsent, hnil]
      rfl
  all_goals
    have hmem : ∀ latest, PollerLabel.start true (some latest) ∈ labels ++ [label] →
        PollerLabel.start true (some latest) ∈ labels := by
      intro latest hmem
      refine (List.mem_append.1 hmem).resolve_right fun hlast => ?_
      exact hlabel latest (List.mem_singleton.1 hlast).symm
  · refine ⟨fun hn => ?_, fun latest hstart => ?_, fun latest _ n hn => ?_⟩
    · cases hphase'.symm.trans hn
    · rw [hsent]
      exact hsends.sent latest (hmem latest hstart)
    · cases hphase'.symm.trans hn
  · refine ⟨fun hn => ?_, fun latest hstart => ?_, fun latest hstart m hm => ?_⟩
    · cases hphase'.symm.trans hn
    · have hn := hsends.polling latest (hmem latest hstart) n hphase
      rw [hsent, List.map_append, List.length_append, List.length_singleton, List.range_succ,
        List.map_append, hsends.sent latest (hmem latest hstart), List.map_singleton,
        List.map_singleton, hn]
    · cases hphase'.symm.trans hm
      have hn := hsends.polling latest (hmem latest hstart) n hphase
      rw [hsent, List.length_append, List.length_singleton, announced, ← hn]
  · refine ⟨fun hn => ?_, fun latest hstart => ?_, fun latest hstart m hm => ?_⟩
    · cases hphase'.symm.trans hn
    · rw [hsent]
      exact hsends.sent latest (hmem latest hstart)
    · cases hphase'.symm.trans hm
      rw [hsent, clamp_clamp]
      exact hsends.polling latest (hmem latest hstart) n hphase
  · refine ⟨fun hn => ?_, fun latest hstart => ?_, fun latest hstart m hm => ?_⟩
    · obtain ⟨hnil, hnot⟩ := hsends.suspended (hphase'.symm.trans hn)
      exact ⟨hsent.trans hnil, fun latest hstart => hnot latest (hmem latest hstart)⟩
    · rw [hsent]
      exact hsends.sent latest (hmem latest hstart)
    · rw [hsent]
      exact hsends.polling latest (hmem latest hstart) m (hphase'.symm.trans hm)

/-- The numbers that were sent are the next ones, in order. -/
theorem sends_of_run {poller₀ : BlockPoller} {labels : List (PollerLabel ε)}
    (hinit : (task (ε := ε) cutoff).init poller₀) (h : Run (task cutoff) poller₀ labels poller) :
    Sends cutoff labels poller := by
  refine h.invariant (P := Sends cutoff) ?_ fun labels poller label poller' hsends hstep =>
    hsends.next hstep
  refine ⟨fun _ => ⟨hinit.2, fun latest => List.not_mem_nil⟩, fun latest hstart => ?_,
    fun latest hstart => ?_⟩
  · cases hstart
  · cases hstart

/-- In a run from the latest block, the numbers that are sent are consecutive from the latest block
    or the cutoff on, and not past the cutoff, exactly when they are no more than there are up to
    the last number. -/
theorem announced_iff (cutoff : Option UInt64) (poller₀ poller : BlockPoller)
    (labels : List (PollerLabel ε)) (latest : UInt64) (hinit : (task (ε := ε) cutoff).init poller₀)
    (hrun : Run (task cutoff) poller₀ labels poller)
    (hstart : PollerLabel.start true (some latest) ∈ labels) :
    let first := min latest.toNat (lastNumber cutoff)
    let heights := poller.sent.map fun entry => entry.1.toNat
    (heights = (List.range heights.length).map (first + ·) ∧
      ∀ height ∈ heights, height ≤ lastNumber cutoff) ↔
    first + heights.length ≤ lastNumber cutoff + 1 := by
  have hsent := congrArg (List.map UInt64.toNat) ((sends_of_run hinit hrun).sent latest hstart)
  rw [List.map_map, List.map_map] at hsent
  -- The numbers that were sent are those that should be announced, by index.
  have hheights : (poller.sent.map fun entry => entry.1.toNat) =
      (List.range poller.sent.length).map fun i => (announced cutoff latest i).toNat := hsent
  have hbounded : ∀ height ∈ poller.sent.map (fun entry => entry.1.toNat),
      height ≤ lastNumber cutoff := by
    intro height hheight
    rw [hheights] at hheight
    obtain ⟨i, -, rfl⟩ := List.mem_map.1 hheight
    exact announced_le cutoff latest i
  intro first heights
  refine (and_iff_left hbounded).trans ?_
  have hlength : heights.length = poller.sent.length := List.length_map _
  rw [hlength, show heights = _ from hheights]
  exact announced_consecutive_iff

/-! ### Runs to a cutoff -/

/-- A poller that has not started. -/
def suspendedPoller : BlockPoller := ⟨.suspended, .new none [] mainnetChainId, []⟩

/-- Starts the poller and polls it. -/
def pollerRun (latest : UInt64) (polls : ℕ) : List (PollerLabel Empty) :=
  .start true (some latest) :: List.replicate polls (.poll countingSource true)

/-- From block 3 on, the blocks up to the cutoff 5 are sent. -/
theorem announced_iff_cutoff : ∃ poller,
    Run (task (some 5)) suspendedPoller (pollerRun 3 3) poller ∧
      (poller.sent.map fun entry => entry.1.toNat) = [3, 4, 5] := by
  have hrun : Run (task (some 5)) suspendedPoller (pollerRun 3 3) _ :=
    .cons rfl (.cons rfl (.cons rfl (.single rfl)))
  have hheights := ((announced_iff (some 5) suspendedPoller _ (pollerRun 3 3) 3 ⟨rfl, rfl⟩ hrun
    List.mem_cons_self).2 (by decide)).1
  exact ⟨_, hrun, hheights⟩

/-- The latest block is the cutoff 5. It is sent twice. -/
theorem announced_twice : ∃ poller,
    Run (task (some 5)) suspendedPoller (pollerRun 5 2) poller ∧
      poller.sent = [(5, countingBlock 5), (5, countingBlock 5)] :=
  ⟨_, .cons rfl (.cons rfl (.single rfl)), rfl⟩

end BlockPoller

end Nanoreth
