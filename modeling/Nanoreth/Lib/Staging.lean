import Mathlib.Data.List.Nodup
import Mathlib.Logic.Function.Basic

/-!
# Replacing files through a staging directory

The files of a *live* directory are replaced by files of the same names, which are first
written to a *staging* directory and then moved: a file is removed from the live directory, and
the staged one renamed to it. A run is the list of its operations; when it is interrupted, it
has performed a prefix of them.

* `live_run`, `staging_run`: an operation concerns the files of one name, and no others;
* `Replaces target dirs ops`: after every prefix of `ops`, a live file is the one it was, is
  missing, or is its target, and which of them is determined by the operations of the prefix.

The rules for `Replaces` follow the parts of such a run: `Replaces.append`, `replaces_links`,
`replaces_writes` and `replaces_moves`.
-/

namespace Staging

variable {N C : Type*}

/-- An entry of a directory. A symbolic link of the staging directory is one to the live file
    of the same name. -/
inductive Entry (C : Type*)
  | file (content : C)
  | symlink
  deriving DecidableEq

/-- The two directories, by the names of files. -/
structure Dirs (N C : Type*) where
  live : N → Option (Entry C)
  staging : N → Option (Entry C)

/-- A step on the directories. -/
inductive Op (N C : Type*)
  /-- Removes an entry of the staging directory, and not what it links to. -/
  | unstage (name : N)
  /-- Writes a file of the staging directory. -/
  | write (name : N) (content : C)
  /-- Links a name of the staging directory to the live file. -/
  | link (name : N)
  /-- Removes a live file. -/
  | remove (name : N)
  /-- Renames an entry of the staging directory to the live one. -/
  | rename (name : N)
  deriving DecidableEq

/-- The entry that a step is about. -/
def Op.name : Op N C → N
  | .unstage name | .write name _ | .link name | .remove name | .rename name => name

variable [DecidableEq N]

/-- What a step does. Writing a link that is staged overwrites what it links to. -/
def Op.apply (dirs : Dirs N C) : Op N C → Dirs N C
  | .unstage name => { dirs with staging := Function.update dirs.staging name none }
  | .write name content =>
    match dirs.staging name with
    -- The link is followed.
    | some .symlink => { dirs with live := Function.update dirs.live name (some (.file content)) }
    | _ => { dirs with staging := Function.update dirs.staging name (some (.file content)) }
  | .link name => { dirs with staging := Function.update dirs.staging name (some .symlink) }
  | .remove name => { dirs with live := Function.update dirs.live name none }
  | .rename name =>
    { live := Function.update dirs.live name (dirs.staging name)
      staging := Function.update dirs.staging name none }

/-- The directories after a list of operations. -/
def run (ops : List (Op N C)) (dirs : Dirs N C) : Dirs N C :=
  ops.foldl Op.apply dirs

@[simp]
theorem run_nil (dirs : Dirs N C) : run [] dirs = dirs := rfl

@[simp]
theorem run_cons (op : Op N C) (ops : List (Op N C)) (dirs : Dirs N C) :
    run (op :: ops) dirs = run ops (op.apply dirs) := rfl

theorem run_append (ops ops' : List (Op N C)) (dirs : Dirs N C) :
    run (ops ++ ops') dirs = run ops' (run ops dirs) :=
  List.foldl_append

/-! ## Frames -/

/-- What is written is staged, unless there is a link. -/
theorem apply_write {dirs : Dirs N C} {name : N} (h : dirs.staging name ≠ some .symlink)
    (content : C) : (Op.write name content).apply dirs =
      { dirs with staging := Function.update dirs.staging name (some (.file content)) } := by
  rcases hentry : dirs.staging name with _ | _ | _ <;> simp_all [Op.apply]

/-- A live entry is not changed by what is about other entries or about staging. -/
theorem live_apply {op : Op N C} {name : N} {dirs : Dirs N C}
    (h : op.name = name → op = .unstage name ∨ op = .link name) :
    (op.apply dirs).live name = dirs.live name := by
  cases op with
  | unstage _ => rfl
  | link _ => rfl
  | write other content =>
    have hne : name ≠ other := by rintro rfl; simpa using h rfl
    simp only [Op.apply]
    split
    · exact Function.update_of_ne hne ..
    · rfl
  | remove other | rename other =>
    have hne : name ≠ other := by rintro rfl; simpa using h rfl
    exact Function.update_of_ne hne ..

/-- A staged entry is not changed by what is about other entries. -/
theorem staging_apply {op : Op N C} {name : N} {dirs : Dirs N C} (h : op.name ≠ name) :
    (op.apply dirs).staging name = dirs.staging name := by
  cases op with
  | remove _ => rfl
  | write other content =>
    simp only [Op.apply]
    split
    · rfl
    · exact Function.update_of_ne h.symm ..
  | unstage other | link other | rename other => exact Function.update_of_ne h.symm ..

/-- A live file is kept by what only concerns other files, or its name in the staging
    directory. -/
theorem live_run {ops : List (Op N C)} {name : N} {dirs : Dirs N C}
    (h : ∀ op ∈ ops, op.name = name → op = .unstage name ∨ op = .link name) :
    (run ops dirs).live name = dirs.live name := by
  induction ops generalizing dirs with
  | nil => rfl
  | cons op ops ih =>
    rw [run_cons, ih fun op hop => h op (List.mem_cons_of_mem _ hop),
      live_apply (h op List.mem_cons_self)]

/-- A staged entry is not changed by any operations about other entries. -/
theorem staging_run {ops : List (Op N C)} {name : N} {dirs : Dirs N C}
    (h : ∀ op ∈ ops, op.name ≠ name) : (run ops dirs).staging name = dirs.staging name := by
  induction ops generalizing dirs with
  | nil => rfl
  | cons op ops ih =>
    rw [run_cons, ih fun op hop => h op (List.mem_cons_of_mem _ hop),
      staging_apply (h op List.mem_cons_self)]

/-! ## Clearing and writing the staging directory -/

/-- Entries that are unstaged are gone. -/
theorem staging_unstage {names : List N} {name : N} (dirs : Dirs N C) (h : name ∈ names) :
    (run (names.map .unstage) dirs).staging name = none := by
  induction names generalizing dirs with
  | nil => simp at h
  | cons first names ih =>
    rw [List.map_cons, run_cons]
    by_cases hmem : name ∈ names
    · exact ih _ hmem
    · obtain rfl : name = first := by simpa [hmem] using h
      rw [staging_run]
      · simp [Op.apply]
      · simp only [List.mem_map]
        rintro _ ⟨other, hother, rfl⟩ rfl
        exact hmem hother

/-- Entries that are written are staged with their contents. -/
theorem staging_write {names : List N} {name : N} {content : N → C} {dirs : Dirs N C}
    (hlink : ∀ name ∈ names, dirs.staging name ≠ some .symlink) (h : name ∈ names) :
    (run (names.map fun name => .write name (content name)) dirs).staging name =
      some (.file (content name)) := by
  induction names generalizing dirs with
  | nil => simp at h
  | cons first names ih =>
    rw [List.map_cons, run_cons, apply_write (hlink first List.mem_cons_self)]
    by_cases hmem : name ∈ names
    · refine ih (fun other hother => ?_) hmem
      by_cases heq : other = first
      · simp [heq]
      · simpa [heq] using hlink other (List.mem_cons_of_mem _ hother)
    · obtain rfl : name = first := by simpa [hmem] using h
      rw [staging_run]
      · simp
      · simp only [List.mem_map]
        rintro _ ⟨other, hother, rfl⟩ rfl
        exact hmem hother

/-- Writing makes no links. -/
theorem staging_run_ne_symlink {ops : List (Op N C)} {name : N} {dirs : Dirs N C}
    (h : ∀ op ∈ ops, ∃ other content, op = .write other content)
    (hlink : dirs.staging name ≠ some .symlink) :
    (run ops dirs).staging name ≠ some .symlink := by
  induction ops generalizing dirs with
  | nil => exact hlink
  | cons op ops ih =>
    rw [run_cons]
    refine ih (fun op hop => h op (List.mem_cons_of_mem _ hop)) ?_
    obtain ⟨other, content, rfl⟩ := h op List.mem_cons_self
    by_cases heq : other = name
    · subst heq
      simp [apply_write hlink]
    · have hname : (Op.write other content).name ≠ name := heq
      rwa [staging_apply hname]

/-! ## Replacing files -/

variable [DecidableEq C]

/-- What the operations `done` make of a live file that is replaced by its target. -/
def replaced (target : N → C) (done : List (Op N C)) (name : N) (entry : Option (Entry C)) :
    Option (Entry C) :=
  if .rename name ∈ done then some (.file (target name))
  else if .remove name ∈ done then none
  else entry

/-- The operations do nothing to live files but replace them by their targets: each is removed
    before it is renamed to, and what they make of it does not depend on what else they do. -/
structure Replaces (target : N → C) (dirs : Dirs N C) (ops : List (Op N C)) : Prop where
  live_run : ∀ done, done <+: ops → ∀ name,
    (run done dirs).live name = replaced target done name (dirs.live name)
  remove_mem : ∀ done, done <+: ops → ∀ name, .rename name ∈ done → .remove name ∈ done

variable {target : N → C} {dirs : Dirs N C} {ops ops' : List (Op N C)}

/-- In the end, an entry is what it was, or replaced. -/
theorem Replaces.live (h : Replaces target dirs ops) (name : N) :
    (run ops dirs).live name = replaced target ops name (dirs.live name) :=
  h.live_run ops (List.prefix_refl _) name

theorem Replaces.rename_notMem (h : Replaces target dirs ops) {name : N}
    (hname : .remove name ∉ ops) : .rename name ∉ ops :=
  fun hmem => hname (h.remove_mem ops (List.prefix_refl _) name hmem)

/-- A prefix of two lists in a row is one of the first, or the first and one of the second. -/
theorem prefix_append_cases {α : Type*} {done l l' : List α} (h : done <+: l ++ l') :
    done <+: l ∨ ∃ done', done' <+: l' ∧ done = l ++ done' := by
  obtain ⟨rest, hrest⟩ := h
  obtain ⟨mid, hl, -⟩ | ⟨done', hdone, hl'⟩ := List.append_eq_append_iff.1 hrest
  · exact .inl ⟨mid, hl.symm⟩
  · exact .inr ⟨done', ⟨rest, hl'.symm⟩, hdone⟩

theorem prefix_pair {α : Type*} {done : List α} {a b : α} (h : done <+: [a, b]) :
    done = [] ∨ done = [a] ∨ done = [a, b] := by
  obtain rfl | ⟨done, rfl, hdone⟩ := List.prefix_cons_iff.1 h
  · exact .inl rfl
  · obtain rfl | ⟨done, rfl, hnil⟩ := List.prefix_cons_iff.1 hdone
    · exact .inr (.inl rfl)
    · rw [List.prefix_nil.1 hnil]
      exact .inr (.inr rfl)

/-- Operations in turn replace entries, if no entry is removed by both. -/
theorem Replaces.append (h : Replaces target dirs ops) (h' : Replaces target (run ops dirs) ops')
    (hdisjoint : ∀ name, .remove name ∈ ops → .remove name ∉ ops') :
    Replaces target dirs (ops ++ ops') where
  live_run done hdone name := by
    obtain hfirst | ⟨done, hrest, rfl⟩ := prefix_append_cases hdone
    · exact h.live_run done hfirst name
    · rw [run_append, h'.live_run done hrest, h.live]
      by_cases hmem : .remove name ∈ ops
      · have hremove : .remove name ∉ done := fun hin => hdisjoint name hmem (hrest.subset hin)
        have hrename : .rename name ∉ done := fun hin => hremove (h'.remove_mem done hrest name hin)
        simp [replaced, hremove, hrename]
      · have hrename := h.rename_notMem hmem
        simp [replaced, hmem, hrename]
  remove_mem done hdone name hname := by
    obtain hfirst | ⟨done, hrest, rfl⟩ := prefix_append_cases hdone
    · exact h.remove_mem done hfirst name hname
    · rw [List.mem_append] at hname ⊢
      exact hname.imp (h.remove_mem ops (List.prefix_refl _) name) (h'.remove_mem done hrest name)

/-- Without operations, nothing is replaced. -/
theorem replaces_nil : Replaces target dirs [] where
  live_run done hdone name := by simp [List.prefix_nil.1 hdone, replaced]
  remove_mem done hdone name := by simp [List.prefix_nil.1 hdone]

/-- An operation that keeps the live files replaces none. -/
theorem replaces_cons {op : Op N C} (hop : ∀ name, op ≠ .remove name ∧ op ≠ .rename name)
    (hlive : (op.apply dirs).live = dirs.live) (h : Replaces target (op.apply dirs) ops) :
    Replaces target dirs (op :: ops) where
  live_run done hdone name := by
    obtain rfl | ⟨done, rfl, hrest⟩ := List.prefix_cons_iff.1 hdone
    · simp [replaced]
    · rw [run_cons, h.live_run done hrest, hlive]
      simp [replaced, (hop name).1.symm, (hop name).2.symm]
  remove_mem done hdone name hname := by
    obtain rfl | ⟨done, rfl, hrest⟩ := List.prefix_cons_iff.1 hdone
    · simp at hname
    · have hmem : .rename name ∈ done := by simpa [(hop name).2.symm] using hname
      exact List.mem_cons_of_mem _ (h.remove_mem done hrest name hmem)

/-- Staging links replaces nothing. -/
theorem replaces_links (h : ∀ op ∈ ops, op = .unstage op.name ∨ op = .link op.name) :
    Replaces target dirs ops := by
  induction ops generalizing dirs with
  | nil => exact replaces_nil
  | cons op ops ih =>
    have hrest : Replaces target (op.apply dirs) ops :=
      ih fun op hop => h op (List.mem_cons_of_mem _ hop)
    obtain hop | hop := h op List.mem_cons_self
    all_goals
      rw [hop] at hrest ⊢
      exact replaces_cons (by simp) rfl hrest

/-- Staging files replaces nothing, if there are no links. -/
theorem replaces_writes (h : ∀ op ∈ ops, ∃ name content, op = .write name content ∧
    dirs.staging name ≠ some .symlink) : Replaces target dirs ops := by
  induction ops generalizing dirs with
  | nil => exact replaces_nil
  | cons op ops ih =>
    obtain ⟨name, content, rfl, hlink⟩ := h op List.mem_cons_self
    refine replaces_cons (by simp) (by rw [apply_write hlink]) (ih fun op hop => ?_)
    obtain ⟨other, content', rfl, hlink'⟩ := h op (List.mem_cons_of_mem _ hop)
    refine ⟨other, content', rfl, ?_⟩
    rw [apply_write hlink]
    by_cases heq : other = name
    · simp [heq]
    · simpa [heq] using hlink'

/-- The operations that move files, one after the other. -/
def moves (names : List N) : List (Op N C) :=
  names.flatMap fun name => [.remove name, .rename name]

omit [DecidableEq N] [DecidableEq C] in
theorem rename_mem_moves {names : List N} {name : N} :
    .rename name ∈ (moves names : List (Op N C)) ↔ name ∈ names := by
  simp [moves]

/-- Moving a staged file replaces the live one. -/
theorem replaces_move {name : N} (h : dirs.staging name = some (.file (target name))) :
    Replaces target dirs [.remove name, .rename name] where
  live_run done hdone other := by
    by_cases heq : other = name
    · subst heq
      obtain rfl | rfl | rfl := prefix_pair hdone <;> simp [replaced, Op.apply, h]
    · obtain rfl | rfl | rfl := prefix_pair hdone <;> simp [replaced, Op.apply, heq]
  remove_mem done hdone other hother := by
    obtain rfl | rfl | rfl := prefix_pair hdone <;> simp_all

/-- Moving staged files in turn replaces the live ones. -/
theorem replaces_moves {names : List N} (hnodup : names.Nodup)
    (h : ∀ name ∈ names, dirs.staging name = some (.file (target name))) :
    Replaces target dirs (moves names) := by
  induction names generalizing dirs with
  | nil => exact replaces_nil
  | cons name names ih =>
    obtain ⟨hname, hnodup⟩ := List.nodup_cons.1 hnodup
    refine (replaces_move (h name List.mem_cons_self)).append (ih hnodup fun other hother => ?_)
      fun other hother => ?_
    · have hne : name ≠ other := fun heq => hname (heq ▸ hother)
      rw [staging_run (by simp [Op.name, hne]), h other (List.mem_cons_of_mem _ hother)]
    · obtain rfl : other = name := by simpa using hother
      simpa [moves] using hname

end Staging
