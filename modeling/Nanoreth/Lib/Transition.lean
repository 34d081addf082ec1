import Mathlib.Data.List.Basic

/-!
# Transition systems

A transition system starts in one of its initial states and takes labelled steps
(`System`). Its runs are recorded by the labels of their steps (`Run`), and its
reachable states are those at which a run from an initial state ends
(`Reachable`).

* A relation between the labels of a run and its last state holds of all runs if
  every step extends it (`Run.invariant`).
* A property of states that holds initially and is preserved by every step holds of
  all reachable states (`Reachable.invariant`).
* A system may be restricted to the steps that meet a condition on the state they
  are taken from (`System.guarded`). If exactly these steps preserve a property, it
  holds after the runs of the restricted system only (`System.run_guarded_iff`).
* What is reachable in a system is reachable, seen through a function, in the systems it
  refines (`Refines`).
* Whichever steps a system takes, it ends, with a property (`System.Ends`), if a measure
  decreases with every step and the property holds where no step is left
  (`System.ends_of_measure`).
-/

namespace Transition

variable {S L : Type*}

/-- A transition system with states `S` and labels `L`. -/
structure System (S L : Type*) where
  /-- The initial states. -/
  init : S → Prop
  /-- The steps from a state, with their labels. -/
  step : S → L → S → Prop

/-- A run of a system, from a state to another one, and its labels in order. -/
inductive Run (T : System S L) (s₀ : S) : List L → S → Prop
  | nil : Run T s₀ [] s₀
  | snoc {ls : List L} {s : S} {l : L} {s' : S} :
      Run T s₀ ls s → T.step s l s' → Run T s₀ (ls ++ [l]) s'

/-- The states at which a run from an initial state ends. -/
def Reachable (T : System S L) (s : S) : Prop :=
  ∃ s₀ ls, T.init s₀ ∧ Run T s₀ ls s

variable {T : System S L} {s₀ s s' : S} {ls : List L} {l : L}

/-- What holds of the empty run, and is extended by every step, holds of a run. -/
theorem Run.invariant {P : List L → S → Prop} (h : Run T s₀ ls s) (hnil : P [] s₀)
    (hsnoc : ∀ ls s l s', P ls s → T.step s l s' → P (ls ++ [l]) s') : P ls s := by
  induction h with
  | nil => exact hnil
  | snoc _ hstep ih => exact hsnoc _ _ _ _ ih hstep

/-- Runs can be joined. -/
theorem Run.trans {ls' : List L} (h : Run T s₀ ls s) (h' : Run T s ls' s') :
    Run T s₀ (ls ++ ls') s' := by
  induction h' with
  | nil => rwa [List.append_nil]
  | snoc _ hstep ih =>
    rw [← List.append_assoc]
    exact ih.snoc hstep

theorem Run.single (h : T.step s l s') : Run T s [l] s' :=
  Run.nil.snoc h

theorem Run.cons (h : T.step s₀ l s) (h' : Run T s ls s') : Run T s₀ (l :: ls) s' :=
  (Run.single h).trans h'

theorem Reachable.init (h : T.init s) : Reachable T s :=
  ⟨s, [], h, .nil⟩

/-- A step from a state that is reached reaches another one. -/
theorem Reachable.step (h : Reachable T s) (hstep : T.step s l s') : Reachable T s' := by
  obtain ⟨s₀, ls, hinit, hrun⟩ := h
  exact ⟨s₀, ls ++ [l], hinit, hrun.snoc hstep⟩

theorem Reachable.run (h : Reachable T s) (hrun : Run T s ls s') : Reachable T s' := by
  obtain ⟨s₀, ls₀, hinit, hrun₀⟩ := h
  exact ⟨s₀, ls₀ ++ ls, hinit, hrun₀.trans hrun⟩

/-- What holds initially, and is preserved by every step, holds of every reachable
    state. -/
theorem Reachable.invariant {P : S → Prop} (h : Reachable T s) (hinit : ∀ s, T.init s → P s)
    (hstep : ∀ s l s', P s → T.step s l s' → P s') : P s := by
  obtain ⟨s₀, ls, hs₀, hrun⟩ := h
  exact hrun.invariant (P := fun _ s => P s) (hinit s₀ hs₀) fun _ s l s' => hstep s l s'

namespace System

variable (T)

/-- The system restricted to the steps that meet a condition, on the state they are
    taken from and their label. -/
def guarded (G : S → L → Prop) : System S L where
  init := T.init
  step s l s' := G s l ∧ T.step s l s'

variable {T}

/-- If a step preserves a property exactly when it meets a condition, and no step recovers
    the property, then the property holds after a run exactly when all steps meet the
    condition. -/
theorem run_guarded_iff {G : S → L → Prop} {P : S → Prop} (h : Run T s₀ ls s) (h₀ : P s₀)
    (hstep : ∀ s l s', T.step s l s' → (P s' ↔ P s ∧ G s l)) :
    P s ↔ Run (T.guarded G) s₀ ls s := by
  constructor
  · intro hs
    induction h with
    | nil => exact .nil
    | snoc _ hlast ih =>
      obtain ⟨hs, hG⟩ := (hstep _ _ _ hlast).1 hs
      exact (ih hs).snoc ⟨hG, hlast⟩
  · intro hrun
    exact hrun.invariant (P := fun _ s => P s) h₀ fun _ _ _ _ hs hlast =>
      (hstep _ _ _ hlast.2).2 ⟨hs, hlast.1⟩

end System

/-! ## Termination -/

namespace System

/-- The runs of the system cannot go on for ever, and the property holds where they end. -/
def Ends (T : System S L) (P : S → Prop) : Prop :=
  ∀ s₀, T.init s₀ → ∃ bound, ∀ ls s, Run T s₀ ls s →
    ls.length ≤ bound ∧ ((∀ l s', ¬T.step s l s') → P s)

/-- A measure that decreases with every step bounds the length of runs. -/
theorem ends_of_measure {P : S → Prop} (I : S → Prop) (μ : S → ℕ) (hinit : ∀ s, T.init s → I s)
    (hstep : ∀ s l s', I s → T.step s l s' → I s' ∧ μ s' < μ s)
    (hend : ∀ s, I s → (∀ l s', ¬T.step s l s') → P s) : T.Ends P := by
  intro s₀ hs₀
  refine ⟨μ s₀, fun ls s hrun => ?_⟩
  have h : I s ∧ ls.length + μ s ≤ μ s₀ := by
    refine hrun.invariant (P := fun ls s => I s ∧ ls.length + μ s ≤ μ s₀)
      ⟨hinit s₀ hs₀, by simp⟩ ?_
    rintro ls s l s' ⟨hI, hle⟩ hlast
    obtain ⟨hI', hlt⟩ := hstep s l s' hI hlast
    refine ⟨hI', ?_⟩
    rw [List.length_append, List.length_singleton]
    omega
  exact ⟨by omega, hend s h.1⟩

/-- What holds at the end may be weakened. -/
theorem Ends.mono {P Q : S → Prop} (h : T.Ends P) (hPQ : ∀ s, P s → Q s) : T.Ends Q := by
  intro s₀ hs₀
  obtain ⟨bound, hbound⟩ := h s₀ hs₀
  refine ⟨bound, fun ls s hrun => ?_⟩
  obtain ⟨hle, hend⟩ := hbound ls s hrun
  exact ⟨hle, fun hstuck => hPQ s (hend hstuck)⟩

end System

/-! ## Refinement -/

variable {S' L' : Type*} {T' : System S' L'} {f : S → S'} {g : L → L'}

/-- A system refines another one if its steps are steps of the other one, as seen through
    `f` and `g`. -/
structure Refines (T : System S L) (T' : System S' L') (f : S → S') (g : L → L') : Prop where
  init : ∀ s, T.init s → T'.init (f s)
  step : ∀ s l s', T.step s l s' → T'.step (f s) (g l) (f s')

theorem Refines.reachable (h : Refines T T' f g) (hs : Reachable T s) : Reachable T' (f s) :=
  hs.invariant (P := fun s => Reachable T' (f s)) (fun s hinit => .init (h.init s hinit))
    fun s l s' hs hstep => hs.step (h.step s l s' hstep)

/-- A refinement of guarded systems. -/
theorem Refines.guarded (h : Refines T T' f g) {G : S → L → Prop} {G' : S' → L' → Prop}
    (hG : ∀ s l, G s l → G' (f s) (g l)) : Refines (T.guarded G) (T'.guarded G') f g where
  init := h.init
  step s l s' hstep := ⟨hG s l hstep.1, h.step s l s' hstep.2⟩

end Transition
