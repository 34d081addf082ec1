import Nanoreth.Network.BlockImport
import Mathlib.Data.List.ReduceOption

/-!
# The poll of the import service

When its task is woken, the import service takes up the announced blocks, then polls its imports for
their outcomes (`network/block_import/service.rs`). The imports that can go on are in a queue, and
are taken out of the service when they are done. Some are done without an outcome: the engine is
syncing, or has failed.

The loop over the outcomes ends at the first import without an outcome, as if no import were left.
Those that are done, and come after it in the queue, stay in the service, and their outcomes are not
sent, until the task is woken again. So the service is only emptied of the imports that are done if
none but the last of them is without an outcome (`pollService_pending_iff`).
-/

namespace Nanoreth

open Transition

variable {C : Crypto} {numberOf : B256 → UInt64} {P : Type}

variable (C numberOf) in
/-- What the task is told by a poll: to wait, or that an outcome could not be sent. -/
inductive ServicePoll
  | pending
  | failed (outcome : Outcome C numberOf)

namespace ImportState

/-- Takes an import out of the service. -/
def take (s : ImportState C numberOf) (id : ℕ) : ImportState C numberOf :=
  { s with pendingImports := Function.update s.pendingImports id none }

/-- Sends an outcome to the network. -/
def send (s : ImportState C numberOf) (outcome : Outcome C numberOf) : ImportState C numberOf :=
  { s with toNetwork := s.toNetwork ++ [outcome] }

/-- Takes up the announced blocks. -/
def receive (s : ImportState C numberOf) : ImportState C numberOf :=
  s.fromNetwork.foldl (fun s (block, peer) => s.onNewBlock block peer) { s with fromNetwork := [] }

/-- Polls the imports in the order of a queue, until one is done. It is taken out, and returned with
    the rest of the queue. -/
def pollNext (providers : ℕ → Provider P) : List ℕ → ImportState C numberOf →
    Option (Option (Outcome C numberOf) × List ℕ) × ImportState C numberOf
  | [], s => (none, s)
  | id :: ready, s =>
    match s.pendingImports id with
    -- The identifier may be stale: the import was taken before.
    | none => pollNext providers ready s
    | some fut =>
      match fut.poll id (providers id) with
      | .ready outcome => (some (outcome, ready), s.take id)
      | .pending _ => pollNext providers ready (s.poll id fut (providers id))

/-- A poll that returns something uses up an import that is ready. -/
theorem length_lt_of_pollNext {providers : ℕ → Provider P} {ready rest : List ℕ}
    {s s' : ImportState C numberOf} {outcome : Option (Outcome C numberOf)}
    (h : pollNext providers ready s = (some (outcome, rest), s')) : rest.length < ready.length := by
  induction ready generalizing s with
  | nil => cases h
  | cons id ready ih =>
    rw [pollNext] at h
    split at h
    · exact (ih h).trans (Nat.lt_succ_self _)
    · split at h
      · cases h
        exact Nat.lt_succ_self _
      · exact (ih h).trans (Nat.lt_succ_self _)

/-- Sends the outcomes of the imports that are done, as long as they have one. -/
def sendOutcomes (providers : ℕ → Provider P) (isOpen : Bool) (ready : List ℕ)
    (s : ImportState C numberOf) : ServicePoll C numberOf × List ℕ × ImportState C numberOf :=
  match h : pollNext providers ready s with
  | (some (some outcome, rest), s') =>
    if isOpen then
      have := length_lt_of_pollNext h
      sendOutcomes providers isOpen rest (s'.send outcome)
    else (.failed outcome, rest, s')
  -- An import without an outcome ends the loop as if nothing was ready.
  | (some (none, rest), s') => (.pending, rest, s')
  | (none, s') => (.pending, [], s')
termination_by ready.length

/-- One round of the loop that sends outcomes. -/
theorem sendOutcomes_eq (providers : ℕ → Provider P) (isOpen : Bool) (ready : List ℕ)
    (s : ImportState C numberOf) : sendOutcomes providers isOpen ready s =
      match pollNext providers ready s with
      | (some (some outcome, rest), s') =>
        if isOpen then sendOutcomes providers isOpen rest (s'.send outcome)
        else (.failed outcome, rest, s')
      | (some (none, rest), s') => (.pending, rest, s')
      | (none, s') => (.pending, [], s') := by
  rw [sendOutcomes]
  split <;> simp only [*]

/-- A poll of the service, with the queue of imports after the announced blocks are taken up. The
    chain is read through a provider of its own by each import, and the network may have closed. -/
def pollService (s : ImportState C numberOf) (providers : ℕ → Provider P) (isOpen : Bool)
    (ready : List ℕ) : ServicePoll C numberOf × List ℕ × ImportState C numberOf :=
  sendOutcomes providers isOpen ready s.receive

/-- What an import that is done has for an outcome. -/
def output (s : ImportState C numberOf) (providers : ℕ → Provider P) (id : ℕ) :
    Option (Option (Outcome C numberOf)) :=
  (s.pendingImports id).bind fun fut =>
    match fut.poll id (providers id) with
    | .ready outcome => some outcome
    | .pending _ => none

/-- The outcomes of the imports that are done, in the order of a queue. -/
def outputs (s : ImportState C numberOf) (providers : ℕ → Provider P) (ready : List ℕ) :
    List (Option (Outcome C numberOf)) :=
  ready.filterMap (s.output providers)

/-- The queue has each import once, and all those that are done. -/
structure IsQueue (s : ImportState C numberOf) (providers : ℕ → Provider P)
    (ready : List ℕ) : Prop where
  nodup : ready.Nodup
  mem_of_done : ∀ {id}, (s.output providers id).isSome → id ∈ ready

/-- Some imports have been polled: those that were done are taken out, and the other imports of the
    service are left alone. -/
structure Polls (s : ImportState C numberOf) (providers : ℕ → Provider P) (polled : List ℕ)
    (s' : ImportState C numberOf) : Prop where
  taken : ∀ id ∈ polled, (s.output providers id).isSome → s'.pendingImports id = none
  frame : ∀ id ∉ polled, s'.pendingImports id = s.pendingImports id

variable {s s₁ s' : ImportState C numberOf} {providers : ℕ → Provider P} {ready polled : List ℕ}

namespace Polls

theorem nil : s.Polls providers [] s :=
  ⟨nofun, fun _ _ => rfl⟩

/-- The output of an import that was not polled is as before. -/
theorem output_eq (h : s.Polls providers polled s') {id : ℕ} (hid : id ∉ polled) :
    s'.output providers id = s.output providers id := by
  rw [output, output, h.frame id hid]

theorem outputs_eq (h : s.Polls providers polled s') (hdisj : polled.Disjoint ready) :
    s'.outputs providers ready = s.outputs providers ready :=
  List.filterMap_congr fun _ hid => h.output_eq fun hpolled => hdisj hpolled hid

/-- Polls can be joined. -/
theorem append {later : List ℕ} (h : s.Polls providers polled s₁)
    (h' : s₁.Polls providers later s') (hdisj : polled.Disjoint later) :
    s.Polls providers (polled ++ later) s' where
  taken id hid hdone := by
    rcases List.mem_append.1 hid with hpolled | hlater
    · rw [h'.frame id (hdisj hpolled)]
      exact h.taken id hpolled hdone
    · refine h'.taken id hlater ?_
      rwa [h.output_eq fun hpolled => hdisj hpolled hlater]
  frame id hid := by
    rw [List.mem_append, not_or] at hid
    rw [h'.frame id hid.2, h.frame id hid.1]

theorem send (h : s.Polls providers polled s') (outcome : Outcome C numberOf) :
    s.Polls providers polled (s'.send outcome) :=
  ⟨h.taken, h.frame⟩

/-- Exactly the imports that are done, and have not been polled, are still there. -/
theorem taken_iff (h : s.Polls providers polled s') {rest : List ℕ}
    (hqueue : s.IsQueue providers (polled ++ rest)) :
    (∀ id, (s.output providers id).isSome → s'.pendingImports id = none) ↔
      s.outputs providers rest = [] := by
  rw [outputs, List.filterMap_eq_nil_iff]
  constructor
  · intro htaken id hid
    have hpolled : id ∉ polled := fun h' => (List.disjoint_of_nodup_append hqueue.nodup) h' hid
    by_contra hdone
    replace hdone := Option.isSome_iff_ne_none.2 hdone
    have hnone := htaken id hdone
    rw [h.frame id hpolled] at hnone
    rw [output, hnone] at hdone
    cases hdone
  · intro hrest id hdone
    refine h.taken id ?_ hdone
    refine (List.mem_append.1 (hqueue.mem_of_done hdone)).resolve_right fun hid => ?_
    rw [hrest id hid] at hdone
    cases hdone

end Polls

/-! ## One import after another -/

/-- An import that is pending is polled on. -/
theorem polls_poll {id : ℕ} {fut : ImportFut C numberOf}
    {message : Option (EngineMessage C numberOf)} (hfut : s.pendingImports id = some fut)
    (hpoll : fut.poll id (providers id) = .pending message) :
    s.output providers id = none ∧ (s.poll id fut (providers id)).toNetwork = s.toNetwork ∧
      s.Polls providers [id] (s.poll id fut (providers id)) := by
  have houtput : s.output providers id = none := by
    rw [output, hfut, Option.bind_some, hpoll]
  refine ⟨houtput, ?_, fun _ hid hdone => ?_, fun _ hid => ?_⟩
  · rw [poll, hpoll]
    cases message <;> rfl
  · rw [List.mem_singleton.1 hid, houtput] at hdone
    cases hdone
  · rw [poll, hpoll]
    cases message with
    | none => rfl
    | some message => exact Function.update_of_ne (List.ne_of_not_mem_cons hid) _ _

/-- An import that is done is taken away. -/
theorem polls_take (id : ℕ) : s.Polls providers [id] (s.take id) where
  taken _ hid _ := by
    rw [List.mem_singleton.1 hid]
    exact Function.update_self ..
  frame _ hid := Function.update_of_ne (List.ne_of_not_mem_cons hid) _ _

theorem polls_none {id : ℕ} (h : s.pendingImports id = none) : s.Polls providers [id] s where
  taken _ hid _ := by rwa [List.mem_singleton.1 hid]
  frame _ _ := rfl

/-- What the imports of a queue are polled for: none is done, or the first that is done. -/
inductive Next (s : ImportState C numberOf) (providers : ℕ → Provider P) : List ℕ →
    Option (Option (Outcome C numberOf) × List ℕ) × ImportState C numberOf → Prop
  | nothing {ready : List ℕ} {s' : ImportState C numberOf} (polls : s.Polls providers ready s')
      (toNetwork : s'.toNetwork = s.toNetwork) (outputs : s.outputs providers ready = []) :
      Next s providers ready (none, s')
  | done {polled rest : List ℕ} {outcome : Option (Outcome C numberOf)}
      {s' : ImportState C numberOf} (polls : s.Polls providers polled s')
      (toNetwork : s'.toNetwork = s.toNetwork)
      (outputs : s.outputs providers polled = [outcome]) :
      Next s providers (polled ++ rest) (some (outcome, rest), s')

/-- An import without output is polled before the next one. -/
theorem Next.cons {id : ℕ}
    {r : Option (Option (Outcome C numberOf) × List ℕ) × ImportState C numberOf}
    (h : s₁.Next providers ready r) (houtput : s.output providers id = none)
    (htoNetwork : s₁.toNetwork = s.toNetwork) (hpolls : s.Polls providers [id] s₁)
    (hid : id ∉ ready) : s.Next providers (id :: ready) r := by
  cases h with
  | nothing hpolls' htoNetwork' houtputs =>
    have hdisj : [id].Disjoint ready := List.singleton_disjoint.2 hid
    refine .nothing (hpolls.append hpolls' hdisj) (htoNetwork'.trans htoNetwork) ?_
    rwa [hpolls.outputs_eq hdisj, outputs, ← List.filterMap_cons_none houtput] at houtputs
  | @done polled _ _ _ hpolls' htoNetwork' houtputs =>
    have hdisj : [id].Disjoint polled :=
      List.singleton_disjoint.2 fun h => hid (List.mem_append_left _ h)
    refine .done (hpolls.append hpolls' hdisj) (htoNetwork'.trans htoNetwork) ?_
    rwa [hpolls.outputs_eq hdisj, outputs, ← List.filterMap_cons_none houtput] at houtputs

/-- The poll of the set returns the output of the first import that has one. -/
theorem next_pollNext (hnodup : ready.Nodup) :
    s.Next providers ready (pollNext providers ready s) := by
  induction ready generalizing s with
  | nil => exact .nothing .nil rfl rfl
  | cons id ready ih =>
    obtain ⟨hid, hnodup⟩ := List.nodup_cons.1 hnodup
    -- An import that is gone or pending has no output, so that the next one decides.
    cases hfut : s.pendingImports id with
    | none =>
      have houtput : s.output providers id = none := by
        rw [output, hfut, Option.bind_none]
      simp only [pollNext, hfut]
      exact (ih hnodup).cons houtput rfl (polls_none hfut) hid
    | some fut =>
      cases hpoll : fut.poll id (providers id) with
      | ready outcome =>
        have houtput : s.output providers id = some outcome := by
          rw [output, hfut, Option.bind_some, hpoll]
        simp only [pollNext, hfut, hpoll]
        have houtputs : s.outputs providers [id] = [outcome] := List.filterMap_cons_some houtput
        exact .done (polls_take id) rfl houtputs
      | pending message =>
        obtain ⟨houtput, htoNetwork, hpolls⟩ := polls_poll hfut hpoll
        simp only [pollNext, hfut, hpoll]
        exact (ih hnodup).cons houtput htoNetwork hpolls hid

/-! ## The loop -/

/-- The loop sends all outcomes up to the first import without one, or the end of the queue. -/
theorem sendOutcomes_spec {isOpen : Bool} {rest : List ℕ} (hnodup : ready.Nodup)
    (h : sendOutcomes providers isOpen ready s = (.pending, rest, s')) :
    ∃ polled outcomes, ready = polled ++ rest ∧ s.Polls providers polled s' ∧
      s'.toNetwork = s.toNetwork ++ outcomes ∧
      (s.outputs providers polled = outcomes.map some ∧ rest = [] ∨
        s.outputs providers polled = outcomes.map some ++ [none]) := by
  fun_induction sendOutcomes providers isOpen ready s with
  -- An outcome was found and sent. The imports that were polled for it are not polled again, so the
  -- other ones have the outputs they had.
  | case1 ready s outcome rest₁ s₁ hnext hopen hlt ih =>
    have hfound : s.Next providers ready _ := next_pollNext hnodup
    rw [hnext] at hfound
    obtain _ | @⟨polled₁, _, _, _, hpolls₁, htoNetwork₁, houtputs₁⟩ := hfound
    have hdisj : polled₁.Disjoint rest₁ := List.disjoint_of_nodup_append hnodup
    obtain ⟨polled, outcomes, rfl, hpolls, htoNetwork, houtputs⟩ :=
      ih (List.nodup_append'.1 hnodup).2.1 h
    have hdisj' : polled₁.Disjoint polled := (List.disjoint_append_right.1 hdisj).1
    have hsent : s.Polls providers polled₁ (s₁.send outcome) := hpolls₁.send outcome
    have houtputs' : s.outputs providers (polled₁ ++ polled) =
        some outcome :: s.outputs providers polled := by
      rw [outputs, List.filterMap_append, ← outputs, houtputs₁]
      rfl
    refine ⟨polled₁ ++ polled, outcome :: outcomes, (List.append_assoc ..).symm,
      hsent.append hpolls hdisj', ?_, ?_⟩
    · rw [htoNetwork, send, htoNetwork₁, List.append_assoc, List.singleton_append]
    · rw [houtputs', List.map_cons, List.cons_append, List.cons.injEq, List.cons.injEq,
        ← hsent.outputs_eq hdisj']
      simpa only [true_and] using houtputs
  | case2 ready s outcome rest₁ s₁ hnext hopen => cases h
  -- An import ended without an outcome, which ends the loop.
  | case3 ready s rest₁ s₁ hnext =>
    cases h
    have hfound : s.Next providers ready _ := next_pollNext hnodup
    rw [hnext] at hfound
    obtain _ | ⟨hpolls, htoNetwork, houtputs⟩ := hfound
    refine ⟨_, [], rfl, hpolls, ?_, .inr houtputs⟩
    rw [htoNetwork, List.append_nil]
  | case4 ready s s₁ hnext =>
    cases h
    have hfound : s.Next providers ready _ := next_pollNext hnodup
    rw [hnext] at hfound
    obtain ⟨hpolls, htoNetwork, houtputs⟩ := hfound
    refine ⟨ready, [], (List.append_nil _).symm, hpolls, ?_, .inl ⟨houtputs, rfl⟩⟩
    rw [htoNetwork, List.append_nil]

/-! ## The poll as a run -/

/-- Polling for the next outcome, and sending it, are steps of the imports. -/
theorem run_pollNext (ready : List ℕ) (hreads : ∀ id, (providers id).Reads s.chain) :
    (pollNext providers ready s).2.chain = s.chain ∧
    ∃ ls, Run (importService C numberOf P) s ls
      { (pollNext providers ready s).2 with
        toNetwork := (pollNext providers ready s).2.toNetwork ++
          ((pollNext providers ready s).1.bind Prod.fst).toList } := by
  induction ready generalizing s with
  | nil =>
    refine ⟨rfl, [], ?_⟩
    rw [pollNext, Option.bind_none, Option.toList_none, List.append_nil]
    exact .nil
  | cons id ready ih =>
    cases hfut : s.pendingImports id with
    | none =>
      simp only [pollNext, hfut]
      exact ih hreads
    | some fut =>
      have hstep : (importService C numberOf P).step s (.poll id (providers id))
          (s.poll id fut (providers id)) := ⟨fut, hfut, hreads id, rfl⟩
      cases hpoll : fut.poll id (providers id) with
      | ready outcome =>
        simp only [pollNext, hfut, hpoll]
        refine ⟨rfl, [.poll id (providers id)], ?_⟩
        rw [poll, hpoll] at hstep
        exact .single hstep
      -- A pending import is polled on, which does not change the chain; so the providers still read
      -- it.
      | pending message =>
        simp only [pollNext, hfut, hpoll]
        have hchain : (s.poll id fut (providers id)).chain = s.chain := by
          rw [poll, hpoll]
          cases message <;> rfl
        rw [← hchain] at hreads
        obtain ⟨hchain', ls, hrun⟩ := ih hreads
        exact ⟨hchain'.trans hchain, _, .cons hstep hrun⟩

/-- Sending outcomes is a run of the import service. -/
theorem run_sendOutcomes (ready : List ℕ) (hreads : ∀ id, (providers id).Reads s.chain) :
    ∃ ls, Run (importService C numberOf P) s ls (sendOutcomes providers true ready s).2.2 := by
  fun_induction sendOutcomes providers true ready s with
  | case1 ready s outcome rest s₁ hnext _ _ ih =>
    obtain ⟨hchain, ls, hrun⟩ := run_pollNext ready hreads
    rw [hnext] at hchain hrun
    obtain ⟨ls', hrun'⟩ := ih (hchain ▸ hreads)
    exact ⟨_, hrun.trans hrun'⟩
  | case2 _ _ _ _ _ _ hopen => exact absurd rfl hopen
  | case3 ready s rest s₁ hnext =>
    obtain ⟨-, ls, hrun⟩ := run_pollNext ready hreads
    rw [hnext] at hrun
    exact ⟨ls, by simpa using hrun⟩
  | case4 ready s s₁ hnext =>
    obtain ⟨-, ls, hrun⟩ := run_pollNext ready hreads
    rw [hnext] at hrun
    exact ⟨ls, by simpa using hrun⟩

/-- Taking up the announced blocks sends nothing to the network. -/
theorem receive_spec (s : ImportState C numberOf) :
    s.receive.toNetwork = s.toNetwork ∧ s.receive.chain = s.chain ∧
    ∃ ls, Run (importService C numberOf P) s ls s.receive := by
  suffices h : ∀ blocks (s : ImportState C numberOf),
      let s' := blocks.foldl (fun s (block, peer) => s.onNewBlock block peer)
        { s with fromNetwork := [] }
      s'.toNetwork = s.toNetwork ∧ s'.chain = s.chain ∧
      ∃ ls, Run (importService C numberOf P) { s with fromNetwork := blocks } ls s' from
    h s.fromNetwork s
  intro blocks
  induction blocks with
  | nil => exact fun s => ⟨rfl, rfl, [], .nil⟩
  | cons block blocks ih =>
    intro s
    obtain ⟨htoNetwork, hchain, ls, hrun⟩ := ih (s.onNewBlock block.1 block.2)
    exact ⟨htoNetwork, hchain, .onNewBlock :: ls, .cons ⟨_, _, _, rfl, rfl⟩ hrun⟩

/-- A poll of the service is a run of its imports, as long as the network is open. -/
theorem run_pollService (s : ImportState C numberOf) (ready : List ℕ)
    (hreads : ∀ id, (providers id).Reads s.chain) :
    ∃ ls, Run (importService C numberOf P) s ls (s.pollService providers true ready).2.2 := by
  obtain ⟨-, hchain, ls, hrun⟩ := receive_spec (P := P) s
  rw [← hchain] at hreads
  obtain ⟨ls', hrun'⟩ := run_sendOutcomes ready hreads
  exact ⟨_, hrun.trans hrun'⟩

/-! ## The outcomes -/

theorem reduceOption_map_some {α : Type} (xs : List α) : (xs.map some).reduceOption = xs := by
  rw [List.reduceOption, List.filterMap_map]
  exact List.filterMap_some

/-- Only the last output may be none if none comes after the first none. -/
theorem forall_isSome_dropLast_iff {α : Type} (xs : List α) (ys : List (Option α)) :
    (∀ y ∈ (xs.map some ++ none :: ys).dropLast, y.isSome) ↔ ys = [] := by
  constructor
  · intro h
    by_contra hys
    have hmem : none ∈ (xs.map some ++ none :: ys).dropLast := by
      rw [List.dropLast_append_of_ne_nil (List.cons_ne_nil _ _), List.dropLast_cons_of_ne_nil hys]
      exact List.mem_append_right _ List.mem_cons_self
    exact absurd (h none hmem) Bool.false_ne_true
  · rintro rfl y hy
    rw [List.dropLast_concat] at hy
    obtain ⟨_, _, rfl⟩ := List.mem_map.1 hy
    rfl

/-- When a poll of the service tells the task to wait, all imports that were done have been taken
    out, and their outcomes sent, if and only if none but the last of them, in the order of the
    queue, is without an outcome. -/
theorem pollService_pending_iff (s s' : ImportState C numberOf) (providers : ℕ → Provider P)
    (isOpen : Bool) (ready rest : List ℕ) (hqueue : s.receive.IsQueue providers ready)
    (h : s.pollService providers isOpen ready = (.pending, rest, s')) :
    ((∀ id, (s.receive.output providers id).isSome → s'.pendingImports id = none) ∧
      s'.toNetwork = s.toNetwork ++ (s.receive.outputs providers ready).reduceOption) ↔
    ∀ outcome ∈ (s.receive.outputs providers ready).dropLast, outcome.isSome := by
  obtain ⟨polled, outcomes, rfl, hpolls, htoNetwork, houtputs⟩ :=
    sendOutcomes_spec hqueue.nodup h
  rw [hpolls.taken_iff hqueue, htoNetwork, (receive_spec (P := P) s).1, List.append_cancel_left_eq]
  have happend : s.receive.outputs providers (polled ++ rest) =
      s.receive.outputs providers polled ++ s.receive.outputs providers rest :=
    List.filterMap_append
  rw [happend]
  rcases houtputs with ⟨houtputs, rfl⟩ | houtputs
  · -- The end of the queue was reached.
    have hnil : s.receive.outputs providers [] = [] := rfl
    rw [houtputs, hnil, List.append_nil, reduceOption_map_some]
    refine ⟨fun _ outcome hmem => ?_, fun _ => ⟨rfl, rfl⟩⟩
    obtain ⟨_, _, rfl⟩ := List.mem_map.1 (List.dropLast_subset _ hmem)
    rfl
  · -- The loop ended at an import without an outcome.
    rw [houtputs, List.append_assoc, List.singleton_append, forall_isSome_dropLast_iff]
    refine and_iff_left_of_imp fun hrest => ?_
    rw [hrest, List.reduceOption_append, reduceOption_map_some]
    exact (List.append_nil _).symm

/-- The imports of a block, answered by the engine. -/
def answeredImports (newPayload updateForkChoice : EngineResponse) :
    ImportState importCrypto importNumber :=
  { importState5 with
    pendingImports := fun id =>
      if id = 0 then some ⟨.newPayload, block9, 0, .answered newPayload⟩
      else if id = 1 then some ⟨.updateForkChoice, block9, 0, .answered updateForkChoice⟩
      else none
    nextImport := 2 }

/-- The imports are in the queue. -/
theorem isQueue_answeredImports (newPayload updateForkChoice : EngineResponse) :
    (answeredImports newPayload updateForkChoice).receive.IsQueue (fun _ => provider5) [0, 1] where
  nodup := by decide
  mem_of_done {id} hdone := by
    by_contra hid
    rw [List.mem_cons, List.mem_singleton, not_or] at hid
    have hnone : (answeredImports newPayload updateForkChoice).receive.pendingImports id = none :=
      (if_neg hid.1).trans (if_neg hid.2)
    rw [output, hnone] at hdone
    cases hdone

/-- Both calls of the engine are answered: the network is told twice that the block is valid. -/
theorem pollService_pending_valid : ∃ s',
    (answeredImports (some .valid) (some .valid)).pollService (fun _ => provider5) true [0, 1] =
      (.pending, [], s') ∧
    s'.pendingImports 0 = none ∧ s'.pendingImports 1 = none ∧
    s'.toNetwork = [⟨0, .ok block9⟩, ⟨0, .ok block9⟩] := by
  let s₁ := ((answeredImports (some .valid) (some .valid)).receive.take 0).send ⟨0, .ok block9⟩
  let s₂ := (s₁.take 1).send ⟨0, .ok block9⟩
  have hpoll : (answeredImports (some .valid) (some .valid)).pollService
      (fun _ => provider5) true [0, 1] = (.pending, [], s₂) := by
    rw [pollService, sendOutcomes_eq]
    change sendOutcomes _ _ [1] s₁ = _
    rw [sendOutcomes_eq]
    change sendOutcomes _ _ [] s₂ = _
    rw [sendOutcomes_eq]
    rfl
  obtain ⟨htaken, hsent⟩ := (pollService_pending_iff _ _ _ _ _ _
    (isQueue_answeredImports (some .valid) (some .valid)) hpoll).2 (by
      change ∀ outcome ∈ [some (⟨0, .ok block9⟩ : Outcome importCrypto importNumber)],
        outcome.isSome
      exact fun _ h => by rw [List.mem_singleton.1 h]; rfl)
  exact ⟨s₂, hpoll, htaken 0 rfl, htaken 1 rfl, hsent⟩

/-- The engine is syncing when the block is sent to it, and then follows the block. The network is
    not told that the block is valid. -/
theorem pollService_stranded : ∃ s' fut,
    (answeredImports (some .syncing) (some .valid)).receive.IsQueue (fun _ => provider5) [0, 1] ∧
    (answeredImports (some .syncing) (some .valid)).pollService (fun _ => provider5) true [0, 1] =
      (.pending, [1], s') ∧
    s'.pendingImports 1 = some fut ∧
    fut.poll 1 provider5 = .ready (some ⟨0, .ok block9⟩) ∧ s'.toNetwork = [] := by
  refine ⟨(answeredImports (some .syncing) (some .valid)).receive.take 0, _,
    isQueue_answeredImports _ _, ?_, rfl, rfl, rfl⟩
  rw [pollService, sendOutcomes_eq]
  rfl

end ImportState

end Nanoreth
