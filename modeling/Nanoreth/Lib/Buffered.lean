import Mathlib.Algebra.BigOperators.Group.List.Basic
import Nanoreth.Lib.Transition

/-!
# Concurrent tasks

Tasks that run at the same time complete in any order (`Tasks`). Their results can be put in
the order of the tasks again, by waiting for the first one before looking at the next:

* a *buffered* stream (`Buffered.system`) has a queue of at most `n` tasks. It starts tasks as
  long as there is room in the queue, and yields the result of the first task of the
  queue once it has completed;
* a *batched* loop (`Batched.system`) starts `n` tasks at once and waits for each of them in
  turn, before it starts the next ones. It returns the first error.

Both end with the results of the tasks in order, whichever order they complete in
(`Buffered.ends`, `Batched.ends`).
-/

open Transition

variable {α β ε : Type}

/-- Tasks that are running or have completed, with their inputs. -/
abbrev Tasks (α : Type) := List (α × Bool)

namespace Tasks

/-- Starts a task for each input. -/
def spawn (xs : List α) : Tasks α := xs.map (·, false)

/-- A running task completes. -/
def complete (tasks : Tasks α) (i : ℕ) : Option (Tasks α) :=
  match tasks[i]? with
  | some (x, false) => some (tasks.set i (x, true))
  | _ => none

/-- The inputs of the tasks. -/
def inputs (tasks : Tasks α) : List α := tasks.map (·.1)

/-- What is left to do: to complete a task, and to look at its result. -/
def work (tasks : Tasks α) : ℕ := tasks.countP (!·.2) + tasks.length

@[simp]
theorem work_nil : work ([] : Tasks α) = 0 := rfl

@[simp]
theorem work_running (x : α) (tasks : Tasks α) : work ((x, false) :: tasks) = work tasks + 2 := by
  have hcount : List.countP (!·.2) ((x, false) :: tasks) = List.countP (!·.2) tasks + 1 := by
    simp
  rw [work, hcount, work, List.length_cons]
  omega

@[simp]
theorem work_completed (x : α) (tasks : Tasks α) : work ((x, true) :: tasks) = work tasks + 1 := by
  simp [work, Nat.add_assoc]

/-- The work of tasks adds up. -/
@[simp]
theorem work_append (tasks tasks' : Tasks α) :
    work (tasks ++ tasks') = work tasks + work tasks' := by
  simp only [work, List.countP_append, List.length_append]
  omega

/-- Completing a task changes that task only. -/
theorem complete_eq_some {tasks tasks' : Tasks α} {i : ℕ} (h : tasks.complete i = some tasks') :
    ∃ before x after, tasks = before ++ (x, false) :: after ∧
      tasks' = before ++ (x, true) :: after := by
  unfold complete at h
  split at h
  · rename_i x hx
    obtain ⟨hi, hx⟩ := List.getElem?_eq_some_iff.1 hx
    refine ⟨tasks.take i, x, tasks.drop (i + 1), ?_, ?_⟩
    · rw [← hx, List.getElem_cons_drop, List.take_append_drop]
    · rw [← Option.some.inj h, List.set_eq_take_append_cons_drop, if_pos hi]
  · cases h

/-- Completing a task is progress, and keeps the tasks. -/
theorem progress_of_complete {tasks tasks' : Tasks α} {i : ℕ} (h : tasks.complete i = some tasks') :
    tasks'.inputs = tasks.inputs ∧ tasks'.length = tasks.length ∧ tasks'.work < tasks.work := by
  obtain ⟨before, x, after, rfl, rfl⟩ := complete_eq_some h
  simp [inputs]

/-- A task that was just started has two units of work left. -/
@[simp]
theorem work_spawn (xs : List α) : (spawn xs).work = xs.length * 2 := by
  simp [work, spawn, List.countP_map, Function.comp_def, Nat.mul_two]

end Tasks

/-! ## Buffered streams -/

namespace Buffered

/-- The inputs of the tasks that are not started, the tasks in the queue, and the results
    that the stream has yielded. -/
structure State (α β : Type) where
  waiting : List α
  queue : Tasks α
  output : List β

/-- A step of the stream or of its tasks. -/
inductive Label
  | start
  | complete (i : ℕ)
  | yield
  deriving DecidableEq

/-- A step of the stream whose tasks compute `f`. -/
def next (n : ℕ) (f : α → β) (s : State α β) : Label → Option (State α β)
  | .start =>
    match s.waiting with
    | x :: waiting =>
      if s.queue.length < n then some ⟨waiting, s.queue ++ [(x, false)], s.output⟩ else none
    | [] => none
  | .complete i => (s.queue.complete i).map fun queue => { s with queue := queue }
  | .yield =>
    match s.queue with
    | (x, true) :: queue => some ⟨s.waiting, queue, s.output ++ [f x]⟩
    | _ => none

/-- The stream of the results of `f` for the inputs `xs`, with a queue of `n` tasks. -/
def system (n : ℕ) (f : α → β) (xs : List α) : System (State α β) Label where
  init s := s = ⟨xs, [], []⟩
  step s l s' := next n f s l = some s'

variable {n : ℕ} {f : α → β} {xs : List α} {s s' : State α β} {l : Label}

/-- What a step of the stream does. -/
theorem next_cases (h : next n f s l = some s') :
    (∃ x, s.waiting = x :: s'.waiting ∧ s'.queue = s.queue ++ [(x, false)] ∧
      s'.output = s.output) ∨
    (∃ i, s.queue.complete i = some s'.queue ∧ s'.waiting = s.waiting ∧ s'.output = s.output) ∨
    ∃ x, s.queue = (x, true) :: s'.queue ∧ s'.waiting = s.waiting ∧
      s'.output = s.output ++ [f x] := by
  unfold next at h
  split at h
  · split at h
    · split_ifs at h
      cases h
      exact .inl ⟨_, ‹_›, rfl, rfl⟩
    · cases h
  · obtain ⟨queue, hqueue, rfl⟩ := Option.map_eq_some_iff.1 h
    exact .inr (.inl ⟨_, hqueue, rfl, rfl⟩)
  · split at h
    · cases h
      exact .inr (.inr ⟨_, ‹_›, rfl, rfl⟩)
    · cases h

/-- The results yielded, in the queue and waiting are those of all inputs. -/
def Ordered (f : α → β) (xs : List α) (s : State α β) : Prop :=
  s.output ++ (s.queue.inputs ++ s.waiting).map f = xs.map f

/-- A step keeps the order of the results, and leaves less work. -/
theorem ordered_next (hs : Ordered f xs s) (h : next n f s l = some s') :
    Ordered f xs s' ∧
      s'.waiting.length * 3 + s'.queue.work < s.waiting.length * 3 + s.queue.work := by
  unfold Ordered at hs ⊢
  obtain ⟨x, hwaiting, hqueue, houtput⟩ | ⟨i, hqueue, hwaiting, houtput⟩ |
    ⟨x, hqueue, hwaiting, houtput⟩ := next_cases h
  · rw [← hs, hqueue, houtput, hwaiting]
    refine ⟨by simp [Tasks.inputs], ?_⟩
    simp only [Tasks.work_append, Tasks.work_running, Tasks.work_nil, List.length_cons]
    omega
  · obtain ⟨hinputs, -, hwork⟩ := Tasks.progress_of_complete hqueue
    rw [hinputs, hwaiting, houtput]
    exact ⟨hs, by omega⟩
  · rw [← hs, hqueue, houtput, hwaiting]
    exact ⟨by simp [Tasks.inputs], by simp⟩

/-- A stream whose queue has room for a task ends with the results of all inputs, in order. -/
theorem ends (hn : 0 < n) :
    (system n f xs).Ends fun s => s.waiting = [] ∧ s.queue = [] ∧ s.output = xs.map f := by
  refine System.ends_of_measure (Ordered f xs) (fun s => s.waiting.length * 3 + s.queue.work)
    ?_ (fun _ _ _ hs h => ordered_next hs h) ?_
  · rintro s rfl
    exact rfl
  · rintro ⟨waiting, queue, output⟩ hs hend
    rcases queue with _ | ⟨⟨x, _ | _⟩, queue⟩
    · rcases waiting with _ | ⟨x, waiting⟩
      · exact ⟨rfl, rfl, by simpa [Ordered, Tasks.inputs] using hs⟩
      · exact absurd (if_pos hn) (hend .start _)
    · exact absurd rfl (hend (.complete 0) _)
    · exact absurd rfl (hend .yield _)

end Buffered

/-! ## Batched loops -/

namespace Batched

/-- The inputs of the tasks that are not started, the tasks of the batch that are waited for,
    their results so far, and what the loop has returned. -/
structure State (α β ε : Type) where
  waiting : List α
  batch : Tasks α
  results : List β
  returned : Option (Except ε (List β))

/-- A step of the loop or of its tasks. -/
inductive Label
  | spawn
  | complete (i : ℕ)
  | await
  | finish
  deriving DecidableEq

/-- A step of the loop whose tasks compute `f`. Tasks go on after it has returned an error. -/
def next (n : ℕ) (f : α → Except ε β) (s : State α β ε) : Label → Option (State α β ε)
  | .spawn =>
    if s.returned.isNone ∧ s.batch = [] ∧ s.waiting ≠ [] then
      some { s with waiting := s.waiting.drop n, batch := Tasks.spawn (s.waiting.take n) }
    else none
  | .complete i => (s.batch.complete i).map fun batch => { s with batch := batch }
  | .await =>
    match s.returned, s.batch with
    | none, (x, true) :: batch =>
      match f x with
      | .ok result => some { s with batch := batch, results := s.results ++ [result] }
      | .error error => some { s with batch := batch, returned := some (.error error) }
    | _, _ => none
  | .finish =>
    if s.returned.isNone ∧ s.batch = [] ∧ s.waiting = [] then
      some { s with returned := some (.ok s.results) }
    else none

/-- The loop over the inputs `xs`, with batches of `n` tasks. -/
def system (n : ℕ) (f : α → Except ε β) (xs : List α) : System (State α β ε) Label where
  init s := s = ⟨xs, [], [], none⟩
  step s l s' := next n f s l = some s'

variable {n : ℕ} {f : α → Except ε β} {xs : List α} {s s' : State α β ε} {l : Label}

/-- What a step of the loop does. -/
theorem next_cases (h : next n f s l = some s') :
    (s.returned = none ∧ s.batch = [] ∧ s.waiting ≠ [] ∧
      s' = { s with waiting := s.waiting.drop n, batch := Tasks.spawn (s.waiting.take n) }) ∨
    (∃ i batch, s.batch.complete i = some batch ∧ s' = { s with batch := batch }) ∨
    (∃ x batch result, s.returned = none ∧ s.batch = (x, true) :: batch ∧ f x = .ok result ∧
      s' = { s with batch := batch, results := s.results ++ [result] }) ∨
    (∃ x batch error, s.returned = none ∧ s.batch = (x, true) :: batch ∧ f x = .error error ∧
      s' = { s with batch := batch, returned := some (.error error) }) ∨
    (s.returned = none ∧ s.batch = [] ∧ s.waiting = [] ∧
      s' = { s with returned := some (.ok s.results) }) := by
  unfold next at h
  -- One case per label.
  split at h
  · split_ifs at h with hspawn
    cases h
    exact .inl ⟨Option.isNone_iff_eq_none.1 hspawn.1, hspawn.2.1, hspawn.2.2, rfl⟩
  · obtain ⟨batch, hbatch, rfl⟩ := Option.map_eq_some_iff.1 h
    exact .inr (.inl ⟨_, batch, hbatch, rfl⟩)
  · split at h
    · rename_i hreturned hbatch
      split at h
      · cases h
        exact .inr (.inr (.inl ⟨_, _, _, hreturned, hbatch, ‹_›, rfl⟩))
      · cases h
        exact .inr (.inr (.inr (.inl ⟨_, _, _, hreturned, hbatch, ‹_›, rfl⟩)))
    · cases h
  · split_ifs at h with hfinish
    cases h
    exact .inr (.inr (.inr (.inr
      ⟨Option.isNone_iff_eq_none.1 hfinish.1, hfinish.2.1, hfinish.2.2, rfl⟩)))

/-- What is left to be returned, or was, is the results of all inputs, or the first error. -/
def Ordered (f : α → Except ε β) (xs : List α) (s : State α β ε) : Prop :=
  s.returned.getD ((s.results ++ ·) <$> (s.batch.inputs ++ s.waiting).mapM f) = xs.mapM f

/-- The work left: starting tasks, completing and awaiting them, and returning. -/
def work (s : State α β ε) : ℕ :=
  s.waiting.length * 3 + s.batch.work + if s.returned.isNone then 1 else 0

/-- A step keeps the order of the results, and leaves less work. -/
theorem ordered_next (hn : 0 < n) (hs : Ordered f xs s) (h : next n f s l = some s') :
    Ordered f xs s' ∧ work s' < work s := by
  obtain ⟨waiting, batch, results, returned⟩ := s
  unfold Ordered at hs ⊢
  obtain ⟨hreturned, hbatch, hwaiting, rfl⟩ | ⟨i, batch', hcomplete, rfl⟩ |
    ⟨x, batch', result, hreturned, hbatch, hx, rfl⟩ |
    ⟨x, batch', error, hreturned, hbatch, hx, rfl⟩ | ⟨hreturned, hbatch, hwaiting, rfl⟩ :=
    next_cases h
  -- The next batch is spawned: its tasks leave the list of those that wait.
  · simp only at hreturned hbatch hwaiting
    subst hreturned hbatch
    have hpos := List.length_pos_iff.2 hwaiting
    refine ⟨?_, ?_⟩
    · rw [← hs]
      simp [Tasks.inputs, Tasks.spawn, Function.comp_def]
    · simp only [work, Tasks.work_spawn, List.length_drop, List.length_take]
      omega
  · obtain ⟨hinputs, -, hwork⟩ := Tasks.progress_of_complete hcomplete
    simp only [hinputs, work] at *
    exact ⟨hs, by omega⟩
  -- The first task succeeded: its result is appended to those before.
  · simp only at hreturned hbatch
    subst hreturned hbatch
    refine ⟨?_, by simp [work]⟩
    rw [← hs]
    simp only [Tasks.inputs, List.map_cons, List.cons_append, List.mapM_cons, hx, Option.getD_none]
    cases (batch'.map (·.1) ++ waiting).mapM f with
    | error e => rfl
    | ok rest => exact congrArg Except.ok (List.append_assoc _ _ _)
  -- It failed: the error is what the loop returns, whatever the other tasks return.
  · simp only at hreturned hbatch
    subst hreturned hbatch
    refine ⟨?_, ?_⟩
    · rw [← hs]
      simp only [Tasks.inputs, List.map_cons, List.cons_append, List.mapM_cons, hx]
      rfl
    · simp only [work, Tasks.work_completed, Option.isNone_some, Option.isNone_none,
        Bool.false_eq_true, if_true, if_false]
      omega
  -- Nothing is left.
  · simp only at hreturned hbatch hwaiting
    subst hreturned hbatch hwaiting
    refine ⟨?_, by simp [work]⟩
    rw [← hs]
    exact congrArg Except.ok (List.append_nil _).symm

/-- A loop whose batches are not empty returns the results of all inputs, in order, or the
    first error. -/
theorem ends (hn : 0 < n) :
    (system n f xs).Ends fun s => s.returned = some (xs.mapM f) := by
  refine System.ends_of_measure (Ordered f xs) work ?_ (fun _ _ _ hs h => ordered_next hn hs h) ?_
  · rintro s rfl
    change (fun rest => [] ++ rest) <$> xs.mapM f = xs.mapM f
    cases xs.mapM f <;> rfl
  · rintro ⟨waiting, batch, results, returned⟩ hs hend
    rcases returned with _ | returned
    · -- A loop that has not returned takes a step.
      exfalso
      rcases batch with _ | ⟨⟨x, _ | _⟩, batch⟩
      · by_cases hwaiting : waiting = []
        · exact hend .finish _ (if_pos ⟨rfl, rfl, hwaiting⟩)
        · exact hend .spawn _ (if_pos ⟨rfl, rfl, hwaiting⟩)
      · exact hend (.complete 0) _ rfl
      · cases hx : f x with
        | ok result =>
          exact hend .await ⟨waiting, batch, results ++ [result], none⟩
            (by simp only [system, next, hx])
        | error error =>
          exact hend .await ⟨waiting, batch, results, some (.error error)⟩
            (by simp only [system, next, hx])
    · exact congrArg some hs

end Batched
