import Nanoreth.Lib.Partial
import Nanoreth.Lib.Staging

/-!
# Migration of static files

How the node rewrites the headers of a database of the old format (`node/migrate.rs`). The
headers are in static files, several for each segment of blocks. A segment of the old format is
written in the new one to a temporary directory, and its files are then moved to the directory
of static files, one after the other; for the other segments, and for those that were moved,
the temporary directory has links.

A run of `migrate_static_files` is modelled by the list of what it does to the two directories
(`migrateStaticFiles`), and a crash by a prefix of it. What a run does is determined by the
directories and by a `MigrationRun`: the orders in which directories are listed, and what is
read from files that do not belong together and written for them. That a directory exists is not
modelled: one that does not has no entries.

* `migrates_migrateStaticFiles`: a run from complete segments replaces files of the old format
  by those of the new one, a segment at a time;
* `Migrates.isComplete_iff`: after a prefix of it, a segment is complete unless the prefix ends
  between the first of its files that is moved and the last;
* `isComplete_migrateStaticFiles_iff`: a run from any files leaves a segment complete if it is, and
  makes none complete, except by what it writes for files that do not belong together;
* `live_restart_eq_none`: a file that is missing when the node is restarted stays missing, as the
  first that a run does is to clear the temporary directory.
-/

namespace Nanoreth

open Staging Partial

/-- The blocks whose headers are in the same static files. -/
structure HeaderSegment where
  start : ℕ
  last : ℕ
  start_le_last : start ≤ last
  deriving DecidableEq

/-- The static files of a segment. -/
inductive FileKind
  | data
  | offsets
  | config
  deriving DecidableEq

/-- The files of a static file. -/
def FileKind.all : List FileKind := [.data, .offsets, .config]

theorem FileKind.mem_all (kind : FileKind) : kind ∈ FileKind.all := by
  cases kind <;> simp [FileKind.all]

instance (p : FileKind → Prop) [DecidablePred p] : Decidable (∀ kind, p kind) :=
  decidable_of_iff (∀ kind ∈ FileKind.all, p kind)
    ⟨fun h kind => h kind kind.mem_all, fun h kind _ => h kind⟩

/-- What is in a static file: its part of a segment of the old format, its part of the headers
    of a segment up to some block in the new format, or what comes of converting files that do
    not belong together. -/
inductive FileContent
  | old
  | migrated (upTo : ℕ)
  | mixed
  deriving DecidableEq

/-- The name of a static file. -/
abbrev FileName := HeaderSegment × FileKind

/-- The directory of static files (`live`), and `conversion_tmp_dir` (`staging`). -/
abbrev StaticDirs := Dirs FileName FileContent

/-- What is done to a file. -/
abbrev FsStep := Op FileName FileContent

/-- Why a migration fails. -/
inductive MigrateError
  /-- A file of a static file cannot be opened. -/
  | unreadable (segment : HeaderSegment)
  | disabled (message : String)
  /-- The headers that are read are not valid. -/
  | invalidHeader
  deriving DecidableEq

/-- What a run of the migration depends on, apart from the directories. -/
structure MigrationRun (segments : List HeaderSegment) where
  /-- Whether `EXPERIMENTAL_MIGRATE_DB` is set. -/
  experimentalMigrateDb : Bool
  /-- The order in which `remove_dir_all` removes the entries of the temporary directory. -/
  tmpOrder : List FileName
  mem_tmpOrder : ∀ segment ∈ segments, ∀ kind, (segment, kind) ∈ tmpOrder
  /-- The order in which the migrated files of a segment are listed. -/
  moveOrder : HeaderSegment → List FileKind
  moveOrder_perm : ∀ segment, (moveOrder segment).Perm FileKind.all
  /-- The static files that are found, by their names, to be those of a block range. -/
  placeholderOrder : HeaderSegment → List FileKind
  /-- Whether the headers of a segment whose files do not belong together seem to be old. -/
  readMixed : HeaderSegment → Except MigrateError Bool
  /-- What is written for the headers of such a segment, up to a block, if they do. -/
  writeMixed : HeaderSegment → ℕ → FileContent

/-! ## What is read -/

/-- Whether an entry is a file, and not a link. -/
def isFile : Option (Entry FileContent) → Bool
  | some (.file _) => true
  | _ => false

/-- All files of a segment are there, in the old format. -/
def IsOld (dirs : StaticDirs) (segment : HeaderSegment) : Prop :=
  ∀ kind, dirs.live (segment, kind) = some (.file .old)

/-- All files of a segment are there, in the new format and with all headers. -/
def IsNew (dirs : StaticDirs) (segment : HeaderSegment) : Prop :=
  ∀ kind, dirs.live (segment, kind) = some (.file (.migrated segment.last))

instance (dirs : StaticDirs) (segment : HeaderSegment) : Decidable (IsOld dirs segment) :=
  inferInstanceAs (Decidable (∀ _ : FileKind, _))

instance (dirs : StaticDirs) (segment : HeaderSegment) : Decidable (IsNew dirs segment) :=
  inferInstanceAs (Decidable (∀ _ : FileKind, _))

/-- The segments found in the directory of static files: those with a data file, whose
    configuration is then loaded. -/
def iterStaticFiles (segments : List HeaderSegment) (dirs : StaticDirs) :
    Except MigrateError (List HeaderSegment) :=
  let listed := segments.filter fun segment => isFile (dirs.live (segment, .data))
  match listed.find? fun segment => !isFile (dirs.live (segment, .config)) with
  | some segment => .error (.unreadable segment)
  | none => .ok listed

variable {segments : List HeaderSegment}

/-- Whether the first or the last header of a segment is of the old format. -/
def migrationNeeded (env : MigrationRun segments) (dirs : StaticDirs) (segment : HeaderSegment) :
    Except MigrateError Bool :=
  if ∀ kind, isFile (dirs.live (segment, kind)) then
    -- All headers of a complete segment are of the same format, its first and last among them.
    if IsOld dirs segment then .ok true
    else if IsNew dirs segment then .ok false
    else env.readMixed segment
  else .error (.unreadable segment)

/-- A migration has to be enabled. -/
def checkIfMigrationEnabled (env : MigrationRun segments) : Except MigrateError Unit :=
  if env.experimentalMigrateDb then .ok ()
  else .error (.disabled ("Detected an old database format but experimental database " ++
    "migration is currently disabled. To enable migration, set EXPERIMENTAL_MIGRATE_DB=1, " ++
    "or alternatively, resync your node (safest option)."))

/-! ## What is done -/

/-- `remove_dir_all` of the temporary directory. -/
def removeDirAll (order : List FileName) (dirs : StaticDirs) : List FsStep :=
  (order.filter fun name => (dirs.staging name).isSome).map .unstage

/-- How many headers are migrated at once. -/
def chunkSize : ℕ := 50000

/-- The last blocks of the chunks in which a segment is written. -/
def chunkEnds (segment : HeaderSegment) : List ℕ :=
  (List.range ((segment.last - segment.start) / chunkSize + 1)).map fun i =>
    min (segment.start + chunkSize * i + chunkSize - 1) segment.last

/-- What is written to a file of a segment when the headers up to a block are committed. -/
def converted (env : MigrationRun segments) (dirs : StaticDirs) (segment : HeaderSegment)
    (upTo : ℕ) : FileContent :=
  if IsOld dirs segment then .migrated upTo else env.writeMixed segment upTo

/-- Writes the headers of a segment to the temporary directory, and commits every chunk. -/
def migrateSingleStaticFile (env : MigrationRun segments) (dirs : StaticDirs)
    (segment : HeaderSegment) : List FsStep :=
  (chunkEnds segment).flatMap fun upTo =>
    (FileKind.all.map (segment, ·)).map fun name => .write name (converted env dirs segment upTo)

/-- Stages links to the files of a segment, in place of what is staged. -/
def createPlaceholder (order : List FileKind) (dirs : StaticDirs) (segment : HeaderSegment) :
    List FsStep :=
  order.flatMap fun kind =>
    -- What is linked exists, so that a link that is there already is found to exist.
    (if (dirs.staging (segment, kind)).isSome then [.unstage (segment, kind)] else []) ++
      [.link (segment, kind)]

/-- Moves the staged files of a segment over the live ones, and stages links to them. -/
def moveStaticFilesForSegment (env : MigrationRun segments) (dirs : StaticDirs)
    (segment : HeaderSegment) : List FsStep :=
  let moved := moves ((env.moveOrder segment).map (segment, ·))
  moved ++ createPlaceholder (env.placeholderOrder segment) (run moved dirs) segment

/-- One round of the loop of `migrateStaticFiles`: what is done for a segment, and whether no
    segment has been migrated since. -/
def migrateSegment (env : MigrationRun segments) (dirs : StaticDirs) (first : Bool)
    (segment : HeaderSegment) : Except MigrateError (List FsStep × Bool) := do
  if ← migrationNeeded env dirs segment then
    -- The flag is checked once, before the first segment is changed.
    if first then checkIfMigrationEnabled env
    let written := migrateSingleStaticFile env dirs segment
    return (written ++ moveStaticFilesForSegment env (run written dirs) segment, false)
  else
    -- A segment that is not migrated is linked to instead.
    return (createPlaceholder (env.placeholderOrder segment) dirs segment, first)

/-- The loop of `migrateStaticFiles`. An error ends it. -/
def migrateSegments (env : MigrationRun segments) (dirs : StaticDirs) (first : Bool) :
    List HeaderSegment → List FsStep × Except MigrateError Bool
  | [] => ([], .ok (!first))
  | segment :: rest =>
    match migrateSegment env dirs first segment with
    | .error e => ([], .error e)
    | .ok (steps, first) =>
      -- Later segments see what earlier ones have left.
      let result := migrateSegments env (run steps dirs) first rest
      (steps ++ result.1, result.2)

/-- What a run does, and whether it has migrated a segment. -/
def migrateStaticFiles (env : MigrationRun segments) (dirs : StaticDirs) :
    List FsStep × Except MigrateError Bool :=
  let cleared := removeDirAll env.tmpOrder dirs
  match iterStaticFiles segments (run cleared dirs) with
  | .error e => (cleared, .error e)
  | .ok listed =>
    let result := migrateSegments env (run cleared dirs) true listed
    (cleared ++ result.1, result.2)

/-! ## The steps for a segment -/

/-- The files that replace those of the old format. -/
def migratedFile (name : FileName) : FileContent := .migrated name.1.last

/-- Steps that migrate segments of the old format, and replace all files of each. -/
structure Migrates (dirs : StaticDirs) (steps : List FsStep) : Prop where
  replaces : Replaces migratedFile dirs steps
  isOld : ∀ name, .remove name ∈ steps → IsOld dirs name.1
  rename_mem : ∀ name, .remove name ∈ steps → ∀ kind, .rename (name.1, kind) ∈ steps

/-- Nothing of a segment is in the temporary directory. -/
def Cleared (dirs : StaticDirs) (segment : HeaderSegment) : Prop :=
  ∀ kind, dirs.staging (segment, kind) = none

/-- The last chunk ends with the segment. -/
theorem chunkEnds_eq (segment : HeaderSegment) :
    ∃ before, chunkEnds segment = before ++ [segment.last] := by
  have hlast : segment.last ≤ segment.start +
      chunkSize * ((segment.last - segment.start) / chunkSize) + chunkSize - 1 := by
    unfold chunkSize
    omega
  rw [chunkEnds, List.range_succ, List.map_append, List.map_singleton, Nat.min_eq_right hlast]
  exact ⟨_, rfl⟩

/-- A placeholder is made of links. -/
theorem createPlaceholder_links {order : List FileKind} {dirs : StaticDirs}
    {segment : HeaderSegment} {step : FsStep} (h : step ∈ createPlaceholder order dirs segment) :
    step.name.1 = segment ∧ (step = .unstage step.name ∨ step = .link step.name) := by
  simp only [createPlaceholder, List.mem_flatMap, List.mem_append, List.mem_ite_nil_right,
    List.mem_singleton] at h
  obtain ⟨kind, -, ⟨-, rfl⟩ | rfl⟩ := h
  · exact ⟨rfl, .inl rfl⟩
  · exact ⟨rfl, .inr rfl⟩

/-- The migration of a segment only stages files. -/
theorem mem_migrateSingleStaticFile {env : MigrationRun segments} {dirs : StaticDirs}
    {segment : HeaderSegment} {step : FsStep}
    (h : step ∈ migrateSingleStaticFile env dirs segment) :
    ∃ kind content, step = .write (segment, kind) content := by
  simp only [migrateSingleStaticFile, List.mem_flatMap, List.mem_map] at h
  obtain ⟨upTo, -, _, ⟨kind, -, rfl⟩, rfl⟩ := h
  exact ⟨kind, _, rfl⟩

/-- The files of a segment in the temporary directory, when all of its headers are written. -/
theorem staging_migrateSingleStaticFile {env : MigrationRun segments} {dirs : StaticDirs}
    {segment : HeaderSegment} (hcleared : Cleared dirs segment) (kind : FileKind) :
    (run (migrateSingleStaticFile env dirs segment) dirs).staging (segment, kind) =
      some (.file (converted env dirs segment segment.last)) := by
  obtain ⟨before, hends⟩ := chunkEnds_eq segment
  rw [migrateSingleStaticFile, hends, List.flatMap_append, List.flatMap_singleton, run_append,
    staging_write ?_ (List.mem_map_of_mem kind.mem_all)]
  · simp only [List.mem_map]
    rintro _ ⟨other, -, rfl⟩
    refine staging_run_ne_symlink (fun step hstep => ?_) (by simp [hcleared other])
    simp only [List.mem_flatMap, List.mem_map] at hstep
    obtain ⟨upTo, -, name, -, rfl⟩ := hstep
    exact ⟨name, _, rfl⟩

theorem not_isOld_of_isNew {dirs : StaticDirs} {segment : HeaderSegment}
    (h : IsNew dirs segment) : ¬ IsOld dirs segment := by
  intro hold
  simpa [h .data] using hold .data

/-- The check reads all files of the segment, and finds new ones migrated. -/
theorem migrationNeeded_eq_ok {env : MigrationRun segments} {dirs : StaticDirs}
    {segment : HeaderSegment} {needed : Bool}
    (h : migrationNeeded env dirs segment = .ok needed) :
    (∀ kind, isFile (dirs.live (segment, kind))) ∧ (IsNew dirs segment → needed = false) := by
  unfold migrationNeeded at h
  split at h
  · rename_i hfiles
    refine ⟨hfiles, fun hnew => ?_⟩
    simpa [not_isOld_of_isNew hnew, hnew] using h.symm
  · simp at h

/-- What is done for a segment: its files are migrated and moved, or only linked. -/
theorem migrateSegment_cases {env : MigrationRun segments} {dirs : StaticDirs} {first first' : Bool}
    {segment : HeaderSegment} {steps : List FsStep}
    (h : migrateSegment env dirs first segment = .ok (steps, first')) :
    (∀ kind, isFile (dirs.live (segment, kind))) ∧
      (steps = createPlaceholder (env.placeholderOrder segment) dirs segment ∨
        ¬ IsNew dirs segment ∧
          steps = migrateSingleStaticFile env dirs segment ++ moveStaticFilesForSegment env
            (run (migrateSingleStaticFile env dirs segment) dirs) segment) := by
  obtain ⟨needed, hneeded, h⟩ := except_bind_eq_ok.1 h
  obtain ⟨hfiles, hnew⟩ := migrationNeeded_eq_ok hneeded
  refine ⟨hfiles, ?_⟩
  cases needed with
  | false => exact .inl (congrArg Prod.fst (Except.ok.inj h)).symm
  | true =>
    refine .inr ⟨by simpa using hnew, ?_⟩
    cases first with
    | false => exact (congrArg Prod.fst (Except.ok.inj h)).symm
    | true =>
      obtain ⟨_, -, h⟩ := except_bind_eq_ok.1 h
      exact (congrArg Prod.fst (Except.ok.inj h)).symm

/-- Only files of the segment are moved. -/
theorem name_moveStaticFilesForSegment {env : MigrationRun segments} {dirs : StaticDirs}
    {segment : HeaderSegment} {step : FsStep}
    (h : step ∈ moveStaticFilesForSegment env dirs segment) : step.name.1 = segment := by
  obtain h | h := List.mem_append.1 h
  · simp only [moves, List.mem_flatMap, List.mem_map, List.mem_cons, List.not_mem_nil,
      or_false] at h
    obtain ⟨_, ⟨kind, -, rfl⟩, rfl | rfl⟩ := h <;> rfl
  · exact (createPlaceholder_links h).1

/-- The steps of a segment are about its files. -/
theorem name_migrateSegment {env : MigrationRun segments} {dirs : StaticDirs}
    {first first' : Bool} {segment : HeaderSegment} {steps : List FsStep}
    (h : migrateSegment env dirs first segment = .ok (steps, first')) :
    ∀ step ∈ steps, step.name.1 = segment := by
  intro step hstep
  obtain ⟨-, rfl | ⟨-, rfl⟩⟩ := migrateSegment_cases h
  · exact (createPlaceholder_links hstep).1
  · obtain hstep | hstep := List.mem_append.1 hstep
    · obtain ⟨kind, content, rfl⟩ := mem_migrateSingleStaticFile hstep
      rfl
    · exact name_moveStaticFilesForSegment hstep

/-- All files of the segment are moved. -/
theorem rename_mem_moveStaticFilesForSegment {env : MigrationRun segments} {dirs : StaticDirs}
    {segment : HeaderSegment} (kind : FileKind) :
    .rename (segment, kind) ∈ moveStaticFilesForSegment env dirs segment := by
  refine List.mem_append_left _ (rename_mem_moves.2 (List.mem_map_of_mem ?_))
  exact (env.moveOrder_perm segment).mem_iff.2 kind.mem_all

/-- The files of a segment are moved when all of them are written. -/
theorem replaces_moveStaticFilesForSegment {env : MigrationRun segments} {dirs : StaticDirs}
    {segment : HeaderSegment} {target : FileName → FileContent} (h : ∀ kind,
      dirs.staging (segment, kind) = some (.file (target (segment, kind)))) :
    Replaces target dirs (moveStaticFilesForSegment env dirs segment) := by
  refine (replaces_moves ?_ ?_).append
    (replaces_links fun _ hstep => (createPlaceholder_links hstep).2)
    fun name _ hmem => by simpa using (createPlaceholder_links hmem).2
  · have hnodup := (env.moveOrder_perm segment).nodup_iff.2 (by decide)
    exact hnodup.map fun _ _ heq => (Prod.mk.inj heq).2
  · simp only [List.mem_map]
    rintro _ ⟨kind, -, rfl⟩
    exact h kind

/-- A segment of which nothing is in the temporary directory has its files replaced by what is
    written there. -/
theorem replaces_migrateSegment {env : MigrationRun segments} {dirs : StaticDirs}
    {segment : HeaderSegment} {target : FileName → FileContent} (hcleared : Cleared dirs segment)
    (htarget : ∀ kind, target (segment, kind) = converted env dirs segment segment.last) :
    Replaces target dirs (migrateSingleStaticFile env dirs segment ++
      moveStaticFilesForSegment env (run (migrateSingleStaticFile env dirs segment) dirs)
        segment) := by
  refine Replaces.append (replaces_writes fun step hstep => ?_)
    (replaces_moveStaticFilesForSegment fun kind => ?_) fun name hmem => ?_
  · obtain ⟨kind, content, rfl⟩ := mem_migrateSingleStaticFile hstep
    exact ⟨_, _, rfl, by simp [hcleared kind]⟩
  · rw [htarget, staging_migrateSingleStaticFile hcleared]
  · obtain ⟨kind, content, heq⟩ := mem_migrateSingleStaticFile hmem
    cases heq

/-- Steps that only concern the temporary directory migrate nothing. -/
theorem migrates_of_links {dirs : StaticDirs} {steps : List FsStep}
    (h : ∀ step ∈ steps, step = .unstage step.name ∨ step = .link step.name) :
    Migrates dirs steps where
  replaces := replaces_links h
  isOld name hmem := by simpa using h _ hmem
  rename_mem name hmem := by simpa using h _ hmem

/-- What is done for a complete segment, of which nothing is in the temporary directory. -/
theorem migrates_migrateSegment {env : MigrationRun segments} {dirs : StaticDirs}
    {first first' : Bool} {segment : HeaderSegment} {steps : List FsStep}
    (h : migrateSegment env dirs first segment = .ok (steps, first'))
    (hsegment : IsOld dirs segment ∨ IsNew dirs segment) (hcleared : Cleared dirs segment) :
    Migrates dirs steps := by
  have hname := name_migrateSegment h
  obtain ⟨-, rfl | ⟨hnew, rfl⟩⟩ := migrateSegment_cases h
  · exact migrates_of_links fun _ hstep => (createPlaceholder_links hstep).2
  · have hold := hsegment.resolve_right hnew
    refine ⟨replaces_migrateSegment hcleared fun kind => ?_, fun name hmem => ?_,
      fun name hmem kind => ?_⟩
    · rw [converted, if_pos hold, migratedFile]
    · rwa [show name.1 = segment from hname _ hmem]
    · rw [show name.1 = segment from hname _ hmem]
      exact List.mem_append_right _ (rename_mem_moveStaticFilesForSegment kind)

/-! ## Runs -/

/-- A segment stays cleared by steps of others. -/
theorem Cleared.run {dirs : StaticDirs} {segment : HeaderSegment} {steps : List FsStep}
    (h : Cleared dirs segment) (hsteps : ∀ step ∈ steps, step.name.1 ≠ segment) :
    Cleared (run steps dirs) segment := by
  intro kind
  rw [staging_run, h kind]
  rintro step hstep heq
  exact hsteps step hstep (by rw [heq])

/-- The files of a segment are not touched by steps of others. -/
theorem live_run_of_ne {dirs : StaticDirs} {segment : HeaderSegment} {steps : List FsStep}
    (hsteps : ∀ step ∈ steps, step.name.1 ≠ segment) (kind : FileKind) :
    (run steps dirs).live (segment, kind) = dirs.live (segment, kind) :=
  live_run fun step hstep heq => absurd (by rw [heq]) (hsteps step hstep)

/-- Steps may be migrated in turn, if no file is removed by both. -/
theorem Migrates.append {dirs : StaticDirs} {steps steps' : List FsStep}
    (h : Migrates dirs steps) (h' : Migrates (run steps dirs) steps')
    (hdisjoint : ∀ name, .remove name ∈ steps → .remove name ∉ steps')
    (hlive : ∀ name, .remove name ∈ steps' → ∀ kind,
      (run steps dirs).live (name.1, kind) = dirs.live (name.1, kind)) :
    Migrates dirs (steps ++ steps') where
  replaces := h.replaces.append h'.replaces hdisjoint
  isOld name hmem := by
    obtain hmem | hmem := List.mem_append.1 hmem
    · exact h.isOld name hmem
    · intro kind
      rw [← hlive name hmem kind, h'.isOld name hmem kind]
  rename_mem name hmem kind := by
    rw [List.mem_append] at hmem ⊢
    exact hmem.imp (h.rename_mem name · kind) (h'.rename_mem name · kind)

/-- A segment is complete, in one of the formats. -/
def IsComplete (dirs : StaticDirs) (segment : HeaderSegment) : Prop :=
  IsOld dirs segment ∨ IsNew dirs segment

/-- Every segment is complete, in one of the formats. -/
def Intact (dirs : StaticDirs) (segments : List HeaderSegment) : Prop :=
  ∀ segment ∈ segments, IsOld dirs segment ∨ IsNew dirs segment

instance (dirs : StaticDirs) (segments : List HeaderSegment) : Decidable (Intact dirs segments) :=
  inferInstanceAs (Decidable (∀ segment ∈ segments, _))

/-- The steps are about the segments that are listed. -/
theorem name_migrateSegments (env : MigrationRun segments) (dirs : StaticDirs) (first : Bool)
    (active : List HeaderSegment) :
    ∀ step ∈ (migrateSegments env dirs first active).1, step.name.1 ∈ active := by
  induction active generalizing dirs first with
  | nil => simp [migrateSegments]
  | cons segment rest ih =>
    intro step hstep
    rw [migrateSegments] at hstep
    split at hstep
    · simp at hstep
    · rename_i steps first' hsteps
      obtain hstep | hstep := List.mem_append.1 hstep
      · exact name_migrateSegment hsteps step hstep ▸ List.mem_cons_self
      · exact List.mem_cons_of_mem _ (ih _ _ step hstep)

/-- The loop over segments that are complete, of which nothing is in the temporary directory. -/
theorem migrates_migrateSegments (env : MigrationRun segments) {dirs : StaticDirs} (first : Bool)
    {active : List HeaderSegment} (hnodup : active.Nodup) (hintact : Intact dirs active)
    (hcleared : ∀ segment ∈ active, Cleared dirs segment) :
    Migrates dirs (migrateSegments env dirs first active).1 := by
  induction active generalizing dirs first with
  | nil => exact migrates_of_links (by simp [migrateSegments])
  | cons segment rest ih =>
    obtain ⟨hnotMem, hnodup⟩ := List.nodup_cons.1 hnodup
    rw [migrateSegments]
    split
    · exact migrates_of_links (by simp)
    · rename_i steps first' hsteps
      -- What is done for a segment leaves the others as they were.
      have hne : ∀ other ∈ rest, ∀ step ∈ steps, step.name.1 ≠ other := by
        rintro other hother step hstep rfl
        exact hnotMem (name_migrateSegment hsteps step hstep ▸ hother)
      have hnames := name_migrateSegments env (run steps dirs) first' rest
      have hfirst := migrates_migrateSegment hsteps (hintact _ List.mem_cons_self)
        (hcleared _ List.mem_cons_self)
      refine hfirst.append (ih first' hnodup (fun other hother => ?_) fun other hother => ?_)
        (fun name hmem hmem' => hne _ (hnames _ hmem') _ hmem rfl)
        (fun name hmem => live_run_of_ne (hne _ (hnames _ hmem)))
      · simp only [IsOld, IsNew, live_run_of_ne (hne other hother)]
        exact hintact other (List.mem_cons_of_mem _ hother)
      · exact (hcleared other (List.mem_cons_of_mem _ hother)).run (hne other hother)

/-- Removing the directory touches staged entries only. -/
theorem removeDirAll_links {order : List FileName} {dirs : StaticDirs} {step : FsStep}
    (h : step ∈ removeDirAll order dirs) : step = .unstage step.name := by
  obtain ⟨name, -, rfl⟩ := List.mem_map.1 h
  rfl

/-- Removing the temporary directory keeps the files that are linked from it. -/
theorem live_removeDirAll (order : List FileName) (dirs : StaticDirs) (name : FileName) :
    (run (removeDirAll order dirs) dirs).live name = dirs.live name :=
  live_run fun _ hstep hname => .inl (hname ▸ removeDirAll_links hstep)

/-- After it was removed, nothing is staged. -/
theorem cleared_removeDirAll (env : MigrationRun segments) (dirs : StaticDirs)
    {segment : HeaderSegment} (hsegment : segment ∈ segments) :
    Cleared (run (removeDirAll env.tmpOrder dirs) dirs) segment := by
  intro kind
  by_cases hentry : (dirs.staging (segment, kind)).isSome
  · refine staging_unstage _ (List.mem_filter.2 ⟨?_, hentry⟩)
    exact env.mem_tmpOrder segment hsegment kind
  · rw [removeDirAll, staging_run]
    · simpa using hentry
    · simp only [List.mem_map, List.mem_filter]
      rintro _ ⟨name, ⟨-, hname⟩, rfl⟩ rfl
      exact hentry hname

/-- The listed segments are some of all, in their order. -/
theorem mem_iterStaticFiles {dirs : StaticDirs} {listed : List HeaderSegment}
    (h : iterStaticFiles segments dirs = .ok listed) : listed.Sublist segments := by
  simp only [iterStaticFiles] at h
  split at h
  · simp at h
  · cases h
    exact List.filter_sublist

/-- A run from complete segments. -/
theorem migrates_migrateStaticFiles (env : MigrationRun segments) (hnodup : segments.Nodup)
    {dirs : StaticDirs} (hintact : Intact dirs segments) :
    Migrates dirs (migrateStaticFiles env dirs).1 := by
  have hcleared : Migrates dirs (removeDirAll env.tmpOrder dirs) :=
    migrates_of_links fun _ hstep => .inl (removeDirAll_links hstep)
  rw [migrateStaticFiles]
  split
  · exact hcleared
  · rename_i listed hlisted
    have hsub := mem_iterStaticFiles hlisted
    refine hcleared.append (migrates_migrateSegments env true (hnodup.sublist hsub)
      (fun segment hsegment => ?_) fun segment hsegment => ?_) (fun name hmem => ?_)
      fun name _ kind => live_removeDirAll _ _ _
    · simp only [IsOld, IsNew, live_removeDirAll]
      exact hintact segment (hsub.subset hsegment)
    · exact cleared_removeDirAll env dirs (hsub.subset hsegment)
    · cases removeDirAll_links hmem

/-! ## Crashes -/

/-- Of a segment, no file has been removed, or all have been moved. -/
def IsMovedWhole (done : List FsStep) (segment : HeaderSegment) : Prop :=
  (∀ kind, .remove (segment, kind) ∉ done) ∨ ∀ kind, .rename (segment, kind) ∈ done

/-- Of every segment, no file has been removed, or all have been moved. -/
def BetweenMoves (segments : List HeaderSegment) (done : List FsStep) : Prop :=
  ∀ segment ∈ segments, IsMovedWhole done segment

instance (done : List FsStep) (segment : HeaderSegment) : Decidable (IsMovedWhole done segment) :=
  inferInstanceAs (Decidable (_ ∨ _))

instance (segments : List HeaderSegment) (done : List FsStep) :
    Decidable (BetweenMoves segments done) :=
  inferInstanceAs (Decidable (∀ segment ∈ segments, _))

/-- After a crash, a segment is complete unless the crash is between moves of its files. -/
theorem Migrates.isComplete_iff {dirs : StaticDirs} {steps done : List FsStep}
    {segment : HeaderSegment} (h : Migrates dirs steps) (hsegment : IsComplete dirs segment)
    (hdone : done <+: steps) :
    IsComplete (run done dirs) segment ↔ IsMovedWhole done segment := by
  have hlive := h.replaces.live_run done hdone
  have hremove := h.replaces.remove_mem done hdone
  constructor
  · intro hafter
    rw [IsMovedWhole]
    -- Some file is removed, and another one not moved: neither format is complete.
    by_contra! hbetween
    obtain ⟨⟨removed, hremoved⟩, kept, hkept⟩ := hbetween
    obtain hold | hnew := hafter
    · have hlost := hold removed
      rw [hlive, replaced, if_pos hremoved] at hlost
      split at hlost <;> simp [migratedFile] at hlost
    · have hstill := hnew kept
      rw [hlive, replaced, if_neg hkept, h.isOld _ (hdone.subset hremoved) kept] at hstill
      split at hstill <;> simp at hstill
  · rintro (hnone | hall)
    · have hsame : ∀ kind, (run done dirs).live (segment, kind) = dirs.live (segment, kind) := by
        intro kind
        have hrename : .rename (segment, kind) ∉ done := fun hmem =>
          hnone kind (hremove _ hmem)
        rw [hlive, replaced, if_neg hrename, if_neg (hnone kind)]
      simp only [IsComplete, IsOld, IsNew, hsame]
      exact hsegment
    · exact .inr fun kind => by rw [hlive, replaced, if_pos (hall kind), migratedFile]

/-! ## Restarts -/

/-- What steps do to the files of one segment: these stay as they are, or all of them are moved
    from the temporary directory. -/
def Treats (env : MigrationRun segments) (dirs : StaticDirs) (steps : List FsStep)
    (segment : HeaderSegment) : Prop :=
  (∀ kind, .rename (segment, kind) ∉ steps ∧
    (run steps dirs).live (segment, kind) = dirs.live (segment, kind)) ∨
  ¬ IsNew dirs segment ∧ ∀ kind, .rename (segment, kind) ∈ steps ∧
    (run steps dirs).live (segment, kind) =
      some (.file (converted env dirs segment segment.last))

theorem treats_of_ne {env : MigrationRun segments} {dirs : StaticDirs} {steps : List FsStep}
    {segment : HeaderSegment} (h : ∀ step ∈ steps, step.name.1 ≠ segment) :
    Treats env dirs steps segment :=
  .inl fun kind => ⟨fun hmem => h _ hmem rfl, live_run_of_ne h kind⟩

/-- What is done for a segment of which nothing is in the temporary directory. -/
theorem treats_migrateSegment {env : MigrationRun segments} {dirs : StaticDirs}
    {first first' : Bool} {segment : HeaderSegment} {steps : List FsStep}
    (h : migrateSegment env dirs first segment = .ok (steps, first'))
    (hcleared : Cleared dirs segment) : Treats env dirs steps segment := by
  obtain ⟨-, rfl | ⟨hnew, rfl⟩⟩ := migrateSegment_cases h
  · refine .inl fun kind => ⟨fun hmem => ?_, live_run fun step hstep hname => ?_⟩
    · simpa using (createPlaceholder_links hmem).2
    · exact hname ▸ (createPlaceholder_links hstep).2
  · refine .inr ⟨hnew, fun kind => ?_⟩
    have hreplaces : Replaces (fun _ => converted env dirs segment segment.last) dirs _ :=
      replaces_migrateSegment hcleared fun _ => rfl
    have hmem : .rename (segment, kind) ∈ migrateSingleStaticFile env dirs segment ++
        moveStaticFilesForSegment env (run (migrateSingleStaticFile env dirs segment) dirs)
          segment :=
      List.mem_append_right _ (rename_mem_moveStaticFilesForSegment kind)
    exact ⟨hmem, by rw [hreplaces.live, replaced, if_pos hmem]⟩

/-- Steps that concern other segments come before or after. -/
theorem Treats.append_right {env : MigrationRun segments} {dirs : StaticDirs}
    {steps steps' : List FsStep} {segment : HeaderSegment} (h : Treats env dirs steps segment)
    (hne : ∀ step ∈ steps', step.name.1 ≠ segment) :
    Treats env dirs (steps ++ steps') segment := by
  have hmem : ∀ kind, .rename (segment, kind) ∈ steps ++ steps' ↔
      .rename (segment, kind) ∈ steps := fun kind =>
    List.mem_append.trans (or_iff_left fun hmem => hne _ hmem rfl)
  simp only [Treats, hmem, run_append, live_run_of_ne hne]
  exact h

/-- Steps that leave a segment as it is may come first. -/
theorem Treats.append_left {env : MigrationRun segments} {dirs : StaticDirs}
    {steps steps' : List FsStep} {segment : HeaderSegment}
    (hlive : ∀ kind, (run steps dirs).live (segment, kind) = dirs.live (segment, kind))
    (hrename : ∀ kind, .rename (segment, kind) ∉ steps)
    (h : Treats env (run steps dirs) steps' segment) :
    Treats env dirs (steps ++ steps') segment := by
  have hmem : ∀ kind, .rename (segment, kind) ∈ steps ++ steps' ↔
      .rename (segment, kind) ∈ steps' := fun kind =>
    List.mem_append.trans (or_iff_right (hrename kind))
  have hold : IsOld (run steps dirs) segment ↔ IsOld dirs segment := by simp only [IsOld, hlive]
  have hnew : IsNew (run steps dirs) segment ↔ IsNew dirs segment := by simp only [IsNew, hlive]
  have hconverted : converted env (run steps dirs) segment = converted env dirs segment := by
    funext upTo
    simp only [converted, hold]
  simp only [Treats, hnew, hconverted, hlive] at h
  simp only [Treats, hmem, run_append]
  exact h

/-- The loop treats each segment once. -/
theorem treats_migrateSegments (env : MigrationRun segments) {dirs : StaticDirs} (first : Bool)
    {active : List HeaderSegment} (hnodup : active.Nodup) {segment : HeaderSegment}
    (hcleared : Cleared dirs segment) :
    Treats env dirs (migrateSegments env dirs first active).1 segment := by
  induction active generalizing dirs first with
  | nil => exact treats_of_ne (by simp [migrateSegments])
  | cons other rest ih =>
    obtain ⟨hnotMem, hnodup⟩ := List.nodup_cons.1 hnodup
    rw [migrateSegments]
    split
    · exact treats_of_ne (by simp)
    · rename_i steps first' hsteps
      by_cases heq : other = segment
      · subst heq
        refine (treats_migrateSegment hsteps hcleared).append_right fun step hstep hname => ?_
        exact hnotMem (hname ▸ name_migrateSegments env _ _ rest step hstep)
      · have hne : ∀ step ∈ steps, step.name.1 ≠ segment := fun step hstep =>
          name_migrateSegment hsteps step hstep ▸ heq
        exact Treats.append_left (live_run_of_ne hne) (fun kind hmem => hne _ hmem rfl)
          (ih first' hnodup (hcleared.run hne))

/-- The migration treats every segment. -/
theorem treats_migrateStaticFiles (env : MigrationRun segments) (hnodup : segments.Nodup)
    (dirs : StaticDirs) {segment : HeaderSegment} (hsegment : segment ∈ segments) :
    Treats env dirs (migrateStaticFiles env dirs).1 segment := by
  have hlive := fun kind => live_removeDirAll env.tmpOrder dirs (segment, kind)
  have hrename : ∀ kind, .rename (segment, kind) ∉ removeDirAll env.tmpOrder dirs :=
    fun kind hmem => by cases removeDirAll_links hmem
  rw [migrateStaticFiles]
  split
  · exact .inl fun kind => ⟨hrename kind, hlive kind⟩
  · rename_i listed hlisted
    exact Treats.append_left hlive hrename (treats_migrateSegments env true
      (hnodup.sublist (mem_iterStaticFiles hlisted)) (cleared_removeDirAll env dirs hsegment))

/-- A run moves files to the segment, and what it writes for files that do not belong together is
    complete after all. -/
def Repairs (env : MigrationRun segments) (dirs : StaticDirs) (segment : HeaderSegment) : Prop :=
  (∃ kind, .rename (segment, kind) ∈ (migrateStaticFiles env dirs).1) ∧
    (env.writeMixed segment segment.last = .old ∨
      env.writeMixed segment segment.last = .migrated segment.last)

/-- A run from any files: a segment is complete after it if it was complete before it, or if what
    is written for files that do not belong together is complete. -/
theorem isComplete_migrateStaticFiles_iff (env : MigrationRun segments) (hnodup : segments.Nodup)
    (dirs : StaticDirs) {segment : HeaderSegment} (hsegment : segment ∈ segments) :
    IsComplete (run (migrateStaticFiles env dirs).1 dirs) segment ↔
      IsComplete dirs segment ∨ Repairs env dirs segment := by
  obtain hstays | ⟨hnew, hmoved⟩ := treats_migrateStaticFiles env hnodup dirs hsegment
  · have hrepairs : ¬ Repairs env dirs segment := fun ⟨⟨kind, hmem⟩, _⟩ => (hstays kind).1 hmem
    simp only [IsComplete, IsOld, IsNew, hstays, or_iff_left hrepairs]
  · have hrename : ∃ kind, .rename (segment, kind) ∈ (migrateStaticFiles env dirs).1 :=
      ⟨.data, (hmoved .data).1⟩
    by_cases hold : IsOld dirs segment
    · refine iff_of_true (.inr fun kind => ?_) (.inl (.inl hold))
      rw [(hmoved kind).2, converted, if_pos hold]
    · have hbefore : ¬ IsComplete dirs segment := not_or.2 ⟨hold, hnew⟩
      have hwritten : ∀ kind, (run (migrateStaticFiles env dirs).1 dirs).live (segment, kind) =
          some (.file (env.writeMixed segment segment.last)) := fun kind => by
        rw [(hmoved kind).2, converted, if_neg hold]
      have hkind : Nonempty FileKind := ⟨.data⟩
      rw [or_iff_right hbefore, Repairs, and_iff_right hrename]
      simp only [IsComplete, IsOld, IsNew, hwritten, Option.some.injEq, Entry.file.injEq,
        forall_const]

/-- Nothing is done for a segment that cannot be read. -/
theorem name_migrateSegments_ne (env : MigrationRun segments) {dirs : StaticDirs} (first : Bool)
    {name : FileName} (hname : dirs.live name = none) (active : List HeaderSegment) :
    ∀ step ∈ (migrateSegments env dirs first active).1, step.name.1 ≠ name.1 := by
  induction active generalizing dirs first with
  | nil => simp [migrateSegments]
  | cons segment rest ih =>
    rw [migrateSegments]
    split
    · simp
    · rename_i steps first' hsteps
      have hne : segment ≠ name.1 := by
        rintro rfl
        have hfile := (migrateSegment_cases hsteps).1 name.2
        simp [hname, isFile] at hfile
      have hfirst : ∀ step ∈ steps, step.name.1 ≠ name.1 := fun step hstep =>
        name_migrateSegment hsteps step hstep ▸ hne
      intro step hstep
      obtain hstep | hstep := List.mem_append.1 hstep
      · exact hfirst step hstep
      · exact ih first' ((live_run_of_ne hfirst name.2).trans hname) step hstep

/-- A file that is missing when a run begins is missing when it ends: what there is of it in
    the temporary directory is removed. -/
theorem live_restart_eq_none (env : MigrationRun segments) {dirs : StaticDirs} {name : FileName}
    (hname : dirs.live name = none) :
    (run (migrateStaticFiles env dirs).1 dirs).live name = none := by
  rw [migrateStaticFiles]
  split
  · rw [live_removeDirAll, hname]
  · rename_i listed hlisted
    have hcleared := live_removeDirAll env.tmpOrder dirs name
    rw [run_append, live_run, hcleared, hname]
    exact fun step hstep heq => absurd (by rw [heq])
      (name_migrateSegments_ne env true (hcleared.trans hname) listed step hstep)

/-- A run from complete segments that crashes, and a restart. The segments are complete after
    the crash if and only if it is not between moves of the files of a segment. They are complete
    after the restart if and only if each was not between moves, or is repaired by what the
    restart writes for files that do not belong together; so if that is never complete, if and only
    if the crash was not between moves. A file that had been removed when the run crashed, and
    not been renamed to, is lost with the restart. -/
theorem migration_interrupted (hnodup : segments.Nodup) (env : MigrationRun segments)
    (dirs : StaticDirs) (hintact : Intact dirs segments) (done : List FsStep)
    (hdone : done <+: (migrateStaticFiles env dirs).1) (restart : MigrationRun segments) :
    (Intact (run done dirs) segments ↔ BetweenMoves segments done) ∧
      (Intact (run (migrateStaticFiles restart (run done dirs)).1 (run done dirs)) segments ↔
        ∀ segment ∈ segments,
          IsMovedWhole done segment ∨ Repairs restart (run done dirs) segment) ∧
      ((∀ segment, restart.writeMixed segment segment.last = .mixed) →
        (Intact (run (migrateStaticFiles restart (run done dirs)).1 (run done dirs)) segments ↔
          BetweenMoves segments done)) ∧
      ∀ name, .remove name ∈ done → .rename name ∉ done →
        (run (migrateStaticFiles restart (run done dirs)).1 (run done dirs)).live name = none := by
  have hmigrates := migrates_migrateStaticFiles env hnodup hintact
  -- After the crash, a segment is complete if all or none of its files were moved.
  have hcrashed : ∀ segment ∈ segments,
      (IsComplete (run done dirs) segment ↔ IsMovedWhole done segment) := fun segment hsegment =>
    hmigrates.isComplete_iff (hintact segment hsegment) hdone
  have hrestarted : Intact (run (migrateStaticFiles restart (run done dirs)).1 (run done dirs))
      segments ↔ ∀ segment ∈ segments,
        IsMovedWhole done segment ∨ Repairs restart (run done dirs) segment := by
    refine forall₂_congr fun segment hsegment => ?_
    rw [← hcrashed segment hsegment]
    exact isComplete_migrateStaticFiles_iff restart hnodup (run done dirs) hsegment
  refine ⟨forall₂_congr hcrashed, hrestarted, fun hmixed => ?_, fun name hremove hrename => ?_⟩
  -- If converting a mixed segment does not give new files, the restart repairs nothing.
  · rw [hrestarted]
    refine forall₂_congr fun segment hsegment => or_iff_left fun hrepairs => ?_
    simpa [hmixed segment] using hrepairs.2
  · refine live_restart_eq_none restart ?_
    rw [hmigrates.replaces.live_run done hdone, replaced, if_neg hrename, if_pos hremove]

/-- A segment of one block. -/
def genesisSegment : HeaderSegment := ⟨0, 0, Nat.le_refl 0⟩

/-- A migration that is enabled, with a single segment. -/
def genesisRun : MigrationRun [genesisSegment] where
  experimentalMigrateDb := true
  tmpOrder := FileKind.all.map (genesisSegment, ·)
  mem_tmpOrder segment hsegment kind := by
    rw [List.mem_singleton.1 hsegment]
    exact List.mem_map_of_mem kind.mem_all
  moveOrder _ := FileKind.all
  moveOrder_perm _ := .refl _
  placeholderOrder _ := FileKind.all
  readMixed _ := .error .invalidHeader
  writeMixed _ _ := .mixed

/-- The files of a database of the old format. -/
def genesisDirs : StaticDirs where
  live name := if name.1 = genesisSegment then some (.file .old) else none
  staging _ := none

/-- The files are written, and none is moved yet: nothing is lost. The data file is moved, and the
    others not yet: the restart does not find the segment complete. -/
theorem migration_interrupted_written :
    let written := migrateSingleStaticFile genesisRun genesisDirs genesisSegment
    let moved : List FsStep :=
      written ++ [.remove (genesisSegment, .data), .rename (genesisSegment, .data)]
    Intact (run (migrateStaticFiles genesisRun (run written genesisDirs)).1
        (run written genesisDirs)) [genesisSegment] ∧
      ¬ Intact (run (migrateStaticFiles genesisRun (run moved genesisDirs)).1
        (run moved genesisDirs)) [genesisSegment] := by
  have hinterrupted := fun done hdone => (migration_interrupted (by simp) genesisRun genesisDirs
    (by decide) done hdone genesisRun).2.2.1 fun _ => rfl
  exact ⟨(hinterrupted _ (by decide)).2 (by decide),
    (hinterrupted _ (by decide)).not.2 (by decide)⟩

/-- The node stops between removing the old data file and renaming the new one to it: the
    restart removes the new one, and no longer finds the segment. -/
theorem headers_lost :
    ∃ done, done <+: (migrateStaticFiles genesisRun genesisDirs).1 ∧
      Intact genesisDirs [genesisSegment] ∧
      ¬ Intact (run (migrateStaticFiles genesisRun (run done genesisDirs)).1
        (run done genesisDirs)) [genesisSegment] ∧
      (run (migrateStaticFiles genesisRun (run done genesisDirs)).1
        (run done genesisDirs)).live (genesisSegment, .data) = none ∧
      (migrateStaticFiles genesisRun (run done genesisDirs)).2 = .ok false :=
  ⟨migrateSingleStaticFile genesisRun genesisDirs genesisSegment ++
      [.remove (genesisSegment, .data)],
    by decide, by decide, by decide, by decide, by decide⟩

end Nanoreth
