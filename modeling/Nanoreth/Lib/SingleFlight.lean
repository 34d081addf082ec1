import Nanoreth.Lib.Transition
import Mathlib.Logic.Function.Basic

/-!
# Single flight

A cache in front of a slow source may get many calls for a key at once. With *single
flight*, the first of them becomes the leader of the key: it requests the value from the
source, while later calls wait for it. When the leader has the answer, it publishes it:
it stores a success, and takes the key out of flight. It then completes its entry, by
which the waiting calls return.

The cache may lose values, but only gets them from published answers (`Stores`). On these
assumptions, in every reachable state (`inv_of_reachable`):

* a key is in flight if and only if a leader has a request for it that is not published;
* a call that waited returned the result of its leader;
* the values in the cache, and those returned from it, were published for their key.

If no call looks up a key whose value was stored and then lost, all values returned for a
key are the same (`agree_of_guarded`).
-/

namespace SingleFlight

open Transition

variable {K V E ι : Type}

/-- Where a call got its result. -/
inductive Source (ι : Type)
  | cached
  | joined (leader : ι)
  | led
  deriving DecidableEq

/-- How far a call is. -/
inductive Phase (V E ι : Type)
  | start
  | waiting (leader : ι)
  | leading
  | answered (result : Except E V)
  | published (result : Except E V)
  | returned (source : Source ι) (result : Except E V)

/-- A call, for a key. -/
structure Call (K V E ι : Type) where
  key : K
  phase : Phase V E ι

/-- The state of the cache and the calls. Entries are told by their leaders. -/
structure State (K V E ι : Type) where
  responses : K → Option V
  inFlight : K → Option ι
  results : ι → Option (Except E V)
  calls : ι → Option (Call K V E ι)

/-- A step of a call. -/
inductive Label (K V E ι : Type)
  | invoke (id : ι) (key : K)
  | lookup (id : ι)
  | answer (id : ι) (result : Except E V)
  | publish (id : ι)
  | complete (id : ι)
  | wake (id : ι)

namespace Phase

/-- The call is the leader of its key, or was. -/
def isLeader : Phase V E ι → Bool
  | leading | answered _ | published _ | returned .led _ => true
  | _ => false

/-- The call has a request that is not published. -/
def isOutstanding : Phase V E ι → Bool
  | leading | answered _ => true
  | _ => false

/-- A call whose request is outstanding is a leader. -/
theorem isLeader_of_isOutstanding {phase : Phase V E ι} (h : phase.isOutstanding = true) :
    phase.isLeader = true := by
  cases phase with
  | leading | answered => rfl
  | start | waiting | published | returned => cases h

/-- The result published by the call. -/
def publication : Phase V E ι → Option (Except E V)
  | published result | returned .led result => some result
  | _ => none

/-- The answer the call got to its request. -/
def answer : Phase V E ι → Option (Except E V)
  | answered result | published result | returned .led result => some result
  | _ => none

/-- What is published is the answer to the request. -/
theorem answer_of_publication {phase : Phase V E ι} {result : Except E V}
    (h : phase.publication = some result) : phase.answer = some result := by
  cases phase with
  | published => exact h
  | returned source =>
    cases source with
    | led => exact h
    | cached | joined => cases h
  | start | waiting | leading | answered => cases h

end Phase

/-- Publishing a result stores a success. Other values may be lost. -/
structure Stores (responses : K → Option V) (key : K) (result : Except E V)
    (responses' : K → Option V) : Prop where
  error : ∀ e, result = .error e → responses' = responses
  ok : ∀ v, result = .ok v → responses' key = some v
  lost : ∀ k v, k ≠ key → responses' k = some v → responses k = some v

variable [DecidableEq K] [DecidableEq ι]

namespace State

/-- A call goes on to a phase. -/
def setCall (s : State K V E ι) (id : ι) (key : K) (phase : Phase V E ι) : State K V E ι :=
  { s with calls := Function.update s.calls id (some ⟨key, phase⟩) }

/-- A call published a value for a key. -/
def Published (s : State K V E ι) (key : K) (v : V) : Prop :=
  ∃ id phase, s.calls id = some ⟨key, phase⟩ ∧ phase.publication = some (.ok v)

/-- A call has a request for a key that is not published. -/
def Outstanding (s : State K V E ι) (key : K) (id : ι) : Prop :=
  ∃ phase, s.calls id = some ⟨key, phase⟩ ∧ phase.isOutstanding = true

/-- A value was stored for a key, and lost. -/
def Lost (s : State K V E ι) (key : K) : Prop :=
  s.responses key = none ∧ ∃ v, s.Published key v

end State

/-- A call takes a value from the cache, joins the leader of the key, or becomes it. -/
inductive Lookup (s : State K V E ι) (id : ι) (key : K) : State K V E ι → Prop
  | hit {v : V} (hresponse : s.responses key = some v) :
      Lookup s id key (s.setCall id key (.returned .cached (.ok v)))
  | join {leader : ι} (hresponse : s.responses key = none)
      (hflight : s.inFlight key = some leader) :
      Lookup s id key (s.setCall id key (.waiting leader))
  | lead (hresponse : s.responses key = none) (hflight : s.inFlight key = none) :
      Lookup s id key
        { s.setCall id key .leading with inFlight := Function.update s.inFlight key (some id) }

variable (K V E ι)

/-- The protocol, with any source, and any number of calls. -/
def protocol : System (State K V E ι) (Label K V E ι) where
  init s := (∀ key, s.responses key = none) ∧ (∀ key, s.inFlight key = none) ∧
    (∀ id, s.results id = none) ∧ ∀ id, s.calls id = none
  step s l s' :=
    match l with
    | .invoke id key => s.calls id = none ∧ s' = s.setCall id key .start
    | .lookup id => ∃ key, s.calls id = some ⟨key, .start⟩ ∧ Lookup s id key s'
    | .answer id result => ∃ key, s.calls id = some ⟨key, .leading⟩ ∧
        s' = s.setCall id key (.answered result)
    | .publish id => ∃ key result responses, s.calls id = some ⟨key, .answered result⟩ ∧
        Stores s.responses key result responses ∧
        s' = { s.setCall id key (.published result) with
          responses := responses
          inFlight := Function.update s.inFlight key none }
    | .complete id => ∃ key result, s.calls id = some ⟨key, .published result⟩ ∧
        s' = { s.setCall id key (.returned .led result) with
          results := Function.update s.results id (some result) }
    | .wake id => ∃ key leader result, s.calls id = some ⟨key, .waiting leader⟩ ∧
        s.results leader = some result ∧
        s' = s.setCall id key (.returned (.joined leader) result)

variable {K V E ι} {s s' : State K V E ι} {l : Label K V E ι} {id : ι} {key : K}
  {phase : Phase V E ι}

/-! ## Steps -/

/-- A step changes the phase of the call `id` from one to another. -/
structure Advances (l : Label K V E ι) (id : ι) (before after : Phase V E ι) : Prop where
  leader : before.isLeader = true → after.isLeader = true
  publication : ∀ result, before.publication = some result → after.publication = some result
  not_returned : ∀ source result, before ≠ .returned source result
  answer : ∀ result, after.answer = some result →
    before.answer = some result ∨ l = .answer id result

/-- A step starts a call, or changes its phase. -/
theorem calls_of_step (h : (protocol K V E ι).step s l s') : ∃ id key phase,
    s'.calls = Function.update s.calls id (some ⟨key, phase⟩) ∧
      (s.calls id = none ∧ l = .invoke id key ∧ phase = .start ∨
        ∃ before, s.calls id = some ⟨key, before⟩ ∧ Advances l id before phase) := by
  cases l with
  | invoke id key =>
    obtain ⟨hnone, rfl⟩ := h
    exact ⟨id, key, _, rfl, .inl ⟨hnone, rfl, rfl⟩⟩
  | lookup id =>
    obtain ⟨key, hcall, hlookup⟩ := h
    refine ⟨id, key, ?_⟩
    cases hlookup with
    | hit | join | lead => exact ⟨_, rfl, .inr ⟨_, hcall, nofun, nofun, nofun, nofun⟩⟩
  | answer id result =>
    obtain ⟨key, hcall, rfl⟩ := h
    -- The only step in which a call gets an answer.
    refine ⟨id, key, _, rfl, .inr ⟨_, hcall, fun _ => rfl, nofun, nofun, fun _ hanswer => ?_⟩⟩
    cases hanswer
    exact .inr rfl
  | publish id =>
    obtain ⟨key, result, responses, hcall, -, rfl⟩ := h
    exact ⟨id, key, _, rfl, .inr ⟨_, hcall, fun _ => rfl, nofun, nofun, fun _ => .inl⟩⟩
  | complete id =>
    obtain ⟨key, result, hcall, rfl⟩ := h
    exact ⟨id, key, _, rfl, .inr ⟨_, hcall, fun _ => rfl, fun _ h => h, nofun, fun _ => .inl⟩⟩
  | wake id =>
    obtain ⟨key, leader, result, hcall, -, rfl⟩ := h
    exact ⟨id, key, _, rfl, .inr ⟨_, hcall, nofun, nofun, nofun, nofun⟩⟩

/-- What a step does to a call. -/
theorem call_of_step (h : (protocol K V E ι).step s l s') (hcall : s.calls id = some ⟨key, phase⟩) :
    ∃ phase', s'.calls id = some ⟨key, phase'⟩ ∧
      (phase' = phase ∨ Advances l id phase phase') := by
  obtain ⟨id', key', phase', hcalls, hbefore⟩ := calls_of_step h
  rw [hcalls]
  by_cases hid : id = id'
  · subst hid
    rcases hbefore with ⟨hnone, -, -⟩ | ⟨before, hbefore, hadvances⟩
    · rw [hnone] at hcall
      cases hcall
    · rw [hbefore] at hcall
      cases hcall
      exact ⟨phase', Function.update_self .., .inr hadvances⟩
  · exact ⟨phase, by rw [Function.update_of_ne hid, hcall], .inl rfl⟩

/-- Where a call after a step comes from. -/
theorem call_before_step (h : (protocol K V E ι).step s l s')
    (hcall : s'.calls id = some ⟨key, phase⟩) :
    l = .invoke id key ∧ phase = .start ∨ ∃ before, s.calls id = some ⟨key, before⟩ ∧
      ∀ result, phase.answer = some result →
        before.answer = some result ∨ l = .answer id result := by
  obtain ⟨id', key', phase', hcalls, hbefore⟩ := calls_of_step h
  rw [hcalls] at hcall
  by_cases hid : id = id'
  · subst hid
    rw [Function.update_self, Option.some.injEq, Call.mk.injEq] at hcall
    obtain ⟨rfl, rfl⟩ := hcall
    rcases hbefore with ⟨-, hl, hphase⟩ | ⟨before, hbefore, hadvances⟩
    · exact .inl ⟨hl, hphase⟩
    · exact .inr ⟨before, hbefore, hadvances.answer⟩
  · rw [Function.update_of_ne hid] at hcall
    exact .inr ⟨phase, hcall, fun _ => .inl⟩

/-- A call that has returned stays so. -/
theorem returned_of_step (h : (protocol K V E ι).step s l s') {source : Source ι}
    {result : Except E V} (hcall : s.calls id = some ⟨key, .returned source result⟩) :
    s'.calls id = some ⟨key, .returned source result⟩ := by
  obtain ⟨phase', hcall', rfl | hadvances⟩ := call_of_step h hcall
  · exact hcall'
  · exact absurd rfl (hadvances.not_returned source result)

/-- The leader of a key. -/
def State.Leader (s : State K V E ι) (key : K) (id : ι) : Prop :=
  ∃ phase, s.calls id = some ⟨key, phase⟩ ∧ phase.isLeader = true

/-- A leader stays one. -/
theorem State.Leader.of_step (hleader : s.Leader key id) (h : (protocol K V E ι).step s l s') :
    s'.Leader key id := by
  obtain ⟨phase, hcall, hleader⟩ := hleader
  obtain ⟨phase', hcall', rfl | hadvances⟩ := call_of_step h hcall
  · exact ⟨phase', hcall', hleader⟩
  · exact ⟨phase', hcall', hadvances.leader hleader⟩

/-- What was published stays so. -/
theorem State.Published.of_step {v : V} (hpublished : s.Published key v)
    (h : (protocol K V E ι).step s l s') : s'.Published key v := by
  obtain ⟨id, phase, hcall, hpublication⟩ := hpublished
  obtain ⟨phase', hcall', rfl | hadvances⟩ := call_of_step h hcall
  · exact ⟨id, phase', hcall', hpublication⟩
  · exact ⟨id, phase', hcall', hadvances.publication _ hpublication⟩

/-! ## Invariants -/

/-- What holds in every reachable state. -/
structure Inv (s : State K V E ι) : Prop where
  inFlight_iff : ∀ key id, s.inFlight key = some id ↔ s.Outstanding key id
  waiting : ∀ id key leader, s.calls id = some ⟨key, .waiting leader⟩ → s.Leader key leader
  results : ∀ leader result, s.results leader = some result →
    ∃ key, s.calls leader = some ⟨key, .returned .led result⟩
  completed : ∀ id key result, s.calls id = some ⟨key, .returned .led result⟩ →
    s.results id = some result
  joined : ∀ id key leader result, s.calls id = some ⟨key, .returned (.joined leader) result⟩ →
    s.calls leader = some ⟨key, .returned .led result⟩
  stored : ∀ key v, s.responses key = some v → s.Published key v
  cached : ∀ id key result, s.calls id = some ⟨key, .returned .cached result⟩ →
    ∃ v, result = .ok v ∧ s.Published key v

omit [DecidableEq K] [DecidableEq ι] in
/-- Whether a call has an outstanding request is told by its phase. -/
theorem outstanding_iff (hcall : s.calls id = some ⟨key, phase⟩) (key' : K) :
    s.Outstanding key' id ↔ key' = key ∧ phase.isOutstanding = true := by
  constructor
  · rintro ⟨phase', hcall', hout⟩
    rw [hcall, Option.some.injEq, Call.mk.injEq] at hcall'
    obtain ⟨rfl, rfl⟩ := hcall'
    exact ⟨rfl, hout⟩
  · rintro ⟨rfl, hout⟩
    exact ⟨phase, hcall, hout⟩

omit [DecidableEq K] in
/-- The requests that are not published, after the phase of a call is changed. -/
theorem outstanding_update (hcalls : s'.calls = Function.update s.calls id (some ⟨key, phase⟩))
    (key' : K) (id' : ι) : s'.Outstanding key' id' ↔
      if id' = id then key' = key ∧ phase.isOutstanding = true else s.Outstanding key' id' := by
  split
  · next hid =>
    subst hid
    exact outstanding_iff (by rw [hcalls, Function.update_self]) key'
  · next hid =>
    rw [State.Outstanding, hcalls, Function.update_of_ne hid]
    rfl

omit [DecidableEq K] in
/-- A call has requests for its own key only: those for another key are as they were. -/
theorem outstanding_of_ne (hcalls : s'.calls = Function.update s.calls id (some ⟨key, phase⟩))
    {before : Phase V E ι} (hcall : s.calls id = some ⟨key, before⟩) {key' : K}
    (hkey : key' ≠ key) (id' : ι) : s'.Outstanding key' id' ↔ s.Outstanding key' id' := by
  rw [outstanding_update hcalls]
  split
  · next hid =>
    rw [hid, outstanding_iff hcall]
    exact ⟨fun h => absurd h.1 hkey, fun h => absurd h.1 hkey⟩
  · rfl

/-- What has to be shown of a step that changes the phase of a call. -/
theorem Inv.of_update (hs : Inv s) (h : (protocol K V E ι).step s l s')
    (hcalls : s'.calls = Function.update s.calls id (some ⟨key, phase⟩))
    (hflight : ∀ key id, s'.inFlight key = some id ↔ s'.Outstanding key id)
    (hwaiting : ∀ leader, phase = .waiting leader → s.Leader key leader)
    (hresults : ∀ leader result, s'.results leader = some result →
      s.results leader = some result ∨ leader = id ∧ phase = .returned .led result)
    (hcompleted : ∀ leader result, s.results leader = some result →
      s'.results leader = some result)
    (hreturned : ∀ result, phase = .returned .led result → s'.results id = some result)
    (hjoined : ∀ leader result, phase = .returned (.joined leader) result →
      s.calls leader = some ⟨key, .returned .led result⟩)
    (hstored : ∀ key v, s'.responses key = some v →
      s.responses key = some v ∨ s'.Published key v)
    (hcached : ∀ result, phase = .returned .cached result →
      ∃ v, result = .ok v ∧ s.Published key v) : Inv s' := by
  -- A call is the one whose phase is changed, or as it was.
  have hcases (id' : ι) (c : Call K V E ι) (hc : s'.calls id' = some c) :
      id' = id ∧ c = ⟨key, phase⟩ ∨ s.calls id' = some c := by
    rw [hcalls] at hc
    by_cases hid : id' = id
    · subst hid
      rw [Function.update_self, Option.some.injEq] at hc
      exact .inl ⟨rfl, hc.symm⟩
    · rw [Function.update_of_ne hid] at hc
      exact .inr hc
  constructor
  case inFlight_iff => exact hflight
  case waiting =>
    intro id' key' leader hc
    rcases hcases _ _ hc with ⟨rfl, heq⟩ | hc
    · cases heq
      exact (hwaiting leader rfl).of_step h
    · exact (hs.waiting _ _ _ hc).of_step h
  case results =>
    intro leader result hr
    rcases hresults _ _ hr with hr | ⟨rfl, rfl⟩
    · obtain ⟨key', hc⟩ := hs.results _ _ hr
      exact ⟨key', returned_of_step h hc⟩
    · exact ⟨key, by rw [hcalls, Function.update_self]⟩
  case completed =>
    intro id' key' result hc
    rcases hcases _ _ hc with ⟨rfl, heq⟩ | hc
    · cases heq
      exact hreturned result rfl
    · exact hcompleted _ _ (hs.completed _ _ _ hc)
  case joined =>
    intro id' key' leader result hc
    refine returned_of_step h ?_
    rcases hcases _ _ hc with ⟨rfl, heq⟩ | hc
    · cases heq
      exact hjoined leader result rfl
    · exact hs.joined _ _ _ _ hc
  case stored =>
    intro key' v hv
    rcases hstored _ _ hv with hv | hv
    · exact (hs.stored _ _ hv).of_step h
    · exact hv
  case cached =>
    intro id' key' result hc
    have hold : ∃ v, result = .ok v ∧ s.Published key' v := by
      rcases hcases _ _ hc with ⟨rfl, heq⟩ | hc
      · cases heq
        exact hcached result rfl
      · exact hs.cached _ _ _ hc
    obtain ⟨v, hv, hpublished⟩ := hold
    exact ⟨v, hv, hpublished.of_step h⟩

omit [DecidableEq K] in
/-- The keys in flight, after a step that leaves them and the outstanding requests alone. -/
theorem Inv.inFlight_of_same (hs : Inv s)
    (hcalls : s'.calls = Function.update s.calls id (some ⟨key, phase⟩))
    (hflight : s'.inFlight = s.inFlight) {before : Phase V E ι}
    (hcall : s.calls id = some ⟨key, before⟩)
    (hout : before.isOutstanding = phase.isOutstanding) (key' : K) (id' : ι) :
    s'.inFlight key' = some id' ↔ s'.Outstanding key' id' := by
  rw [hflight, hs.inFlight_iff, outstanding_update hcalls]
  split
  · next hid => rw [hid, outstanding_iff hcall, hout]
  · rfl

omit [DecidableEq K] in
/-- The keys in flight, after a call started. -/
theorem Inv.inFlight_of_invoke (hs : Inv s) (hnone : s.calls id = none) (key' : K) (id' : ι) :
    s.inFlight key' = some id' ↔ (s.setCall id key .start).Outstanding key' id' := by
  rw [outstanding_update (s := s) rfl, hs.inFlight_iff]
  split
  · next hid =>
    rw [hid, State.Outstanding, hnone]
    exact ⟨nofun, nofun⟩
  · rfl

/-- The keys in flight, after a call became the leader of one. -/
theorem Inv.inFlight_of_lead (hs : Inv s) (hcall : s.calls id = some ⟨key, .start⟩)
    (hflight : s.inFlight key = none) (key' : K) (id' : ι) :
    Function.update s.inFlight key (some id) key' = some id' ↔
      (s.setCall id key .leading).Outstanding key' id' := by
  by_cases hkey : key' = key
  · subst hkey
    rw [outstanding_update (s := s) rfl, Function.update_self, Option.some.injEq]
    split
    · next hid => exact ⟨fun _ => ⟨rfl, rfl⟩, fun _ => hid.symm⟩
    · -- No other call has a request for the key, which was not in flight.
      next hid =>
      rw [← hs.inFlight_iff, hflight]
      exact ⟨fun h => absurd h.symm hid, nofun⟩
  · rw [Function.update_of_ne hkey, hs.inFlight_iff]
    exact (outstanding_of_ne rfl hcall hkey id').symm

/-- The keys in flight, after the leader of one published its answer. -/
theorem Inv.inFlight_of_publish (hs : Inv s) {result : Except E V}
    (hcall : s.calls id = some ⟨key, .answered result⟩) (key' : K) (id' : ι) :
    Function.update s.inFlight key none key' = some id' ↔
      (s.setCall id key (.published result)).Outstanding key' id' := by
  have hleader : s.inFlight key = some id :=
    (hs.inFlight_iff key id).2 ((outstanding_iff hcall key).2 ⟨rfl, rfl⟩)
  by_cases hkey : key' = key
  · subst hkey
    rw [outstanding_update (s := s) rfl, Function.update_self]
    split
    · exact ⟨nofun, fun h => nomatch h.2⟩
    · -- Nor has another call a request for the key now: it had one leader.
      next hid =>
      rw [← hs.inFlight_iff, hleader, Option.some.injEq]
      exact ⟨nofun, fun h => absurd h.symm hid⟩
  · rw [Function.update_of_ne hkey, hs.inFlight_iff]
    exact (outstanding_of_ne rfl hcall hkey id').symm

/-- Every step keeps the invariant. -/
theorem Inv.step (hs : Inv s) (h : (protocol K V E ι).step s l s') : Inv s' := by
  have hstep := h
  cases l with
  | invoke id key =>
    obtain ⟨hnone, rfl⟩ := h
    exact hs.of_update hstep rfl (hs.inFlight_of_invoke hnone) nofun (fun _ _ => .inl)
      (fun _ _ h => h) nofun nofun (fun _ _ => .inl) nofun
  | lookup id =>
    obtain ⟨key, hcall, hlookup⟩ := h
    cases hlookup with
    | hit hresponse =>
      -- The value returned is in the cache, hence published.
      refine hs.of_update hstep rfl (hs.inFlight_of_same rfl rfl hcall rfl) nofun
        (fun _ _ => .inl) (fun _ _ h => h) nofun nofun (fun _ _ => .inl) fun result heq => ?_
      cases heq
      exact ⟨_, rfl, hs.stored _ _ hresponse⟩
    | join hresponse hflight =>
      -- The key is in flight: the one it is in flight for has a request, so it leads.
      refine hs.of_update hstep rfl (hs.inFlight_of_same rfl rfl hcall rfl)
        (fun leader heq => ?_) (fun _ _ => .inl) (fun _ _ h => h) nofun nofun (fun _ _ => .inl)
        nofun
      cases heq
      obtain ⟨phase, hleader, hout⟩ := (hs.inFlight_iff _ _).1 hflight
      exact ⟨phase, hleader, Phase.isLeader_of_isOutstanding hout⟩
    | lead hresponse hflight =>
      exact hs.of_update hstep rfl (hs.inFlight_of_lead hcall hflight) nofun (fun _ _ => .inl)
        (fun _ _ h => h) nofun nofun (fun _ _ => .inl) nofun
  | answer id result =>
    obtain ⟨key, hcall, rfl⟩ := h
    exact hs.of_update hstep rfl (hs.inFlight_of_same rfl rfl hcall rfl) nofun
      (fun _ _ => .inl) (fun _ _ h => h) nofun nofun (fun _ _ => .inl) nofun
  | publish id =>
    obtain ⟨key, result, responses, hcall, hstores, rfl⟩ := h
    refine hs.of_update hstep rfl (hs.inFlight_of_publish hcall) nofun (fun _ _ => .inl)
      (fun _ _ h => h) nofun nofun (fun key' v hv => ?_) nofun
    -- A value in the cache is the one just stored, or it was there before.
    cases result with
    | error e => exact .inl (hstores.error e rfl ▸ hv)
    | ok w =>
      by_cases hkey : key' = key
      · subst hkey
        have hw : responses key' = some w := hstores.ok w rfl
        obtain rfl : w = v := Option.some.inj (hw.symm.trans hv)
        exact .inr ⟨id, _, Function.update_self .., rfl⟩
      · exact .inl (hstores.lost key' v hkey hv)
  | complete id =>
    obtain ⟨key, result, hcall, rfl⟩ := h
    refine hs.of_update hstep rfl (hs.inFlight_of_same rfl rfl hcall rfl) nofun
      (fun leader result' hr => ?_) (fun leader result' hr => ?_) (fun result' heq => ?_) nofun
      (fun _ _ => .inl) nofun
    · by_cases hid : leader = id
      · subst hid
        obtain rfl : result = result' :=
          Option.some.inj ((Function.update_self leader _ s.results).symm.trans hr)
        exact .inr ⟨rfl, rfl⟩
      · exact .inl (Function.update_of_ne hid _ s.results ▸ hr)
    · -- An entry with a result is that of a call that returned, which `id` has not yet.
      have hid : leader ≠ id := by
        rintro rfl
        obtain ⟨key', hled⟩ := hs.results _ _ hr
        rw [hcall] at hled
        cases hled
      exact (Function.update_of_ne hid _ _).trans hr
    · cases heq
      exact Function.update_self ..
  | wake id =>
    obtain ⟨key, leader, result, hcall, hresult, rfl⟩ := h
    refine hs.of_update hstep rfl (hs.inFlight_of_same rfl rfl hcall rfl) nofun
      (fun _ _ => .inl) (fun _ _ h => h) nofun (fun leader' result' heq => ?_) (fun _ _ => .inl)
      nofun
    cases heq
    -- The leader is one of the same key, and it returned the result.
    obtain ⟨key', hled⟩ := hs.results _ _ hresult
    obtain ⟨phase, hleader, -⟩ := hs.waiting _ _ _ hcall
    rw [hled, Option.some.injEq, Call.mk.injEq] at hleader
    rw [hled, hleader.1]

/-- The invariant holds of all states that can be reached. -/
theorem inv_of_reachable (h : Reachable (protocol K V E ι) s) : Inv s := by
  refine h.invariant (fun s hs => ?_) fun _ _ _ hs => hs.step
  obtain ⟨hresponses, hflight, hresults, hcalls⟩ := hs
  constructor
  case inFlight_iff =>
    intro key id
    rw [hflight]
    exact ⟨nofun, fun ⟨_, hcall, _⟩ => by rw [hcalls] at hcall; cases hcall⟩
  case waiting => exact fun id _ _ hcall => by rw [hcalls] at hcall; cases hcall
  case results => exact fun leader _ hr => by rw [hresults] at hr; cases hr
  case completed => exact fun id _ _ hcall => by rw [hcalls] at hcall; cases hcall
  case joined => exact fun id _ _ _ hcall => by rw [hcalls] at hcall; cases hcall
  case stored => exact fun key _ hv => by rw [hresponses] at hv; cases hv
  case cached => exact fun id _ _ hcall => by rw [hcalls] at hcall; cases hcall

/-! ## Agreement -/

/-- No call looks up a key whose value was stored, and lost. -/
def NoneLost (s : State K V E ι) : Label K V E ι → Prop
  | .lookup id => ∀ key, s.calls id = some ⟨key, .start⟩ → ¬ s.Lost key
  | _ => True

/-- A request is only made for keys without a published value, so that there is at most one
    for each key. -/
structure Agreement (s : State K V E ι) : Prop where
  unpublished : ∀ key id, s.Outstanding key id → ∀ v, ¬ s.Published key v
  agree : ∀ key v w, s.Published key v → s.Published key w → v = w

omit [DecidableEq K] [DecidableEq ι] in
/-- A step that adds neither requests nor published answers keeps the agreement. -/
theorem Agreement.of_imp (hs : Agreement s)
    (hout : ∀ key id, s'.Outstanding key id → s.Outstanding key id)
    (hpublished : ∀ key v, s'.Published key v → s.Published key v) : Agreement s' where
  unpublished key id h v hv := hs.unpublished key id (hout key id h) v (hpublished key v hv)
  agree key v w hv hw := hs.agree key v w (hpublished key v hv) (hpublished key w hw)

omit [DecidableEq K] in
/-- The values published, after the phase of a call is changed. -/
theorem published_update (hcalls : s'.calls = Function.update s.calls id (some ⟨key, phase⟩))
    {key' : K} {v : V} (h : s'.Published key' v) :
    s.Published key' v ∨ key' = key ∧ phase.publication = some (.ok v) := by
  obtain ⟨id', phase', hcall, hpublication⟩ := h
  rw [hcalls] at hcall
  by_cases hid : id' = id
  · subst hid
    rw [Function.update_self, Option.some.injEq, Call.mk.injEq] at hcall
    obtain ⟨rfl, rfl⟩ := hcall
    exact .inr ⟨rfl, hpublication⟩
  · rw [Function.update_of_ne hid] at hcall
    exact .inl ⟨id', phase', hcall, hpublication⟩

omit [DecidableEq K] in
/-- A call whose publication and request stay as they are does not break the agreement. -/
theorem Agreement.of_update (hs : Agreement s)
    (hcalls : s'.calls = Function.update s.calls id (some ⟨key, phase⟩)) {before : Phase V E ι}
    (hcall : s.calls id = some ⟨key, before⟩)
    (hout : phase.isOutstanding = before.isOutstanding)
    (hpublication : phase.publication = before.publication) : Agreement s' := by
  refine hs.of_imp (fun key' id' h => ?_) fun key' v h => ?_
  · rw [outstanding_update hcalls] at h
    split at h
    · next hid => rwa [hid, outstanding_iff hcall, ← hout]
    · exact h
  · rcases published_update hcalls h with h | ⟨rfl, h⟩
    · exact h
    · exact ⟨id, before, hcall, hpublication ▸ h⟩

/-- A step keeps the agreement, if no response is lost with it. -/
theorem Agreement.step (hs : Agreement s) (hinv : Inv s) (hguard : NoneLost s l)
    (h : (protocol K V E ι).step s l s') : Agreement s' := by
  cases l with
  | invoke id key =>
    obtain ⟨hnone, rfl⟩ := h
    refine hs.of_imp (fun key' id' h => ?_) fun key' v h => ?_
    · rwa [← hinv.inFlight_iff, hinv.inFlight_of_invoke hnone]
    · rcases published_update rfl h with h | ⟨-, h⟩
      · exact h
      · cases h
  | lookup id =>
    obtain ⟨key, hcall, hlookup⟩ := h
    cases hlookup with
    | hit | join => exact hs.of_update rfl hcall rfl rfl
    | lead hresponse hflight =>
      have hpublished (key' : K) (v : V)
          (h : (s.setCall id key .leading).Published key' v) : s.Published key' v := by
        rcases published_update rfl h with h | ⟨-, h⟩
        · exact h
        · cases h
      refine ⟨fun key' id' h v hv => ?_, fun key' v w hv hw =>
        hs.agree key' v w (hpublished key' v hv) (hpublished key' w hw)⟩
      rw [outstanding_update (s := s) rfl] at h
      split at h
      · -- The key is looked up without a value, which was not lost.
        obtain ⟨rfl, -⟩ := h
        exact hguard key' hcall ⟨hresponse, v, hpublished key' v hv⟩
      · exact hs.unpublished key' id' h v (hpublished key' v hv)
  | answer id result =>
    obtain ⟨key, hcall, rfl⟩ := h
    exact hs.of_update rfl hcall rfl rfl
  | publish id =>
    obtain ⟨key, result, responses, hcall, -, rfl⟩ := h
    have hout : s.Outstanding key id := (outstanding_iff hcall key).2 ⟨rfl, rfl⟩
    refine ⟨fun key' id' h v hv => ?_, fun key' v w hv hw => ?_⟩
    · rw [outstanding_update (s := s) rfl] at h
      split at h
      · cases h.2
      · next hid =>
        rcases published_update (s := s) rfl hv with hv | ⟨rfl, -⟩
        · exact hs.unpublished key' id' h v hv
        · -- There is one request for the key only.
          rw [← hinv.inFlight_iff] at h hout
          exact hid (Option.some.inj (h.symm.trans hout))
    · -- The key of an outstanding request has no value yet, so that at most one is published.
      rcases published_update (s := s) rfl hv with hold | ⟨rfl, hnew⟩
      · rcases published_update (s := s) rfl hw with hold' | ⟨rfl, -⟩
        · exact hs.agree key' v w hold hold'
        · exact absurd hold (hs.unpublished _ _ hout v)
      · rcases published_update (s := s) rfl hw with hold' | ⟨-, hnew'⟩
        · exact absurd hold' (hs.unpublished _ _ hout w)
        · cases hnew.symm.trans hnew'
          rfl
  | complete id =>
    obtain ⟨key, result, hcall, rfl⟩ := h
    exact hs.of_update rfl hcall rfl rfl
  | wake id =>
    obtain ⟨key, leader, result, hcall, -, rfl⟩ := h
    exact hs.of_update rfl hcall rfl rfl

omit [DecidableEq K] [DecidableEq ι] in
/-- A value that a call returned was published for its key. -/
theorem Inv.published_of_returned (hs : Inv s) {source : Source ι} {v : V}
    (hcall : s.calls id = some ⟨key, .returned source (.ok v)⟩) : s.Published key v := by
  cases source with
  | cached =>
    obtain ⟨w, hw, hpublished⟩ := hs.cached _ _ _ hcall
    cases hw
    exact hpublished
  | joined leader => exact ⟨leader, _, hs.joined _ _ _ _ hcall, rfl⟩
  | led => exact ⟨id, _, hcall, rfl⟩

/-- If no call looks up a key whose value was stored and lost, all values returned for a key
    are the same. -/
theorem agree_of_guarded (h : Reachable ((protocol K V E ι).guarded NoneLost) s) {id' : ι}
    {source source' : Source ι} {v w : V}
    (hv : s.calls id = some ⟨key, .returned source (.ok v)⟩)
    (hw : s.calls id' = some ⟨key, .returned source' (.ok w)⟩) : v = w := by
  have hagree : Inv s ∧ Agreement s := by
    refine h.invariant (P := fun s => Inv s ∧ Agreement s)
      (fun s hs => ⟨inv_of_reachable (.init hs), ?_⟩) fun s l s' hs hstep =>
      ⟨hs.1.step hstep.2, hs.2.step hs.1 hstep.1 hstep.2⟩
    have hnone (key : K) (v : V) : ¬ s.Published key v := by
      rintro ⟨id, phase, hcall, -⟩
      rw [hs.2.2.2] at hcall
      cases hcall
    exact ⟨fun key id _ v => hnone key v, fun key v w hv => absurd hv (hnone key v)⟩
  exact hagree.2.agree key v w (hagree.1.published_of_returned hv)
    (hagree.1.published_of_returned hw)

end SingleFlight
