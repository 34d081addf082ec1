import Nanoreth.HlNodeSource.LocalCache

/-!
# From one hourly file to the next

The ingest loop reads the file of an hour, `dt`, and goes on to the next hour when that has begun
and its file has blocks (`start_local_ingest_loop`, in `sources/hl_node/mod.rs`). One iteration
scans what has been written to the current file and makes this check (`iteration`).

As it is only the next hour that is checked, the loop goes on exactly through the hours that
follow without a gap (`rotation_iff`). If there is no block in the file of the next
hour, the loop stays where it is, also when there are blocks in a later one.

Hours are counted from an arbitrary midnight on, and days are 24 hours. The time is in
nanoseconds. How the date of a day is written is a parameter, `date`
(`TimeUtils::date_from_datetime`), as is the parser of the lines.
-/

namespace Nanoreth

open Partial Scanner

/-- The nanoseconds of an hour. -/
@[irreducible]
def nanosPerHour : ℕ := 60 * 60 * 1000000000

/-- The file of an hour, with the number of its lines that have been read once it is open. -/
structure CurrentFile where
  path : String
  lineStream : Option ℕ

/-- The variables of the loop. -/
structure LoopState where
  dt : ℕ
  currentFile : CurrentFile
  nextHeight : UInt64
  cache : LocalBlocksCache

section

variable (fromStr : String → Option LocalBlockAndReceipts) (date : ℕ → String) (root : String)
  (files : String → Option (List String))

/-- The file of an hour, which is not opened yet. -/
def CurrentFile.fromDatetime (dt : ℕ) : CurrentFile where
  path := root ++ "/hourly/" ++ date (dt / 24) ++ "/" ++ toString (dt % 24)
  lineStream := none

/-- Opens the file, if it is not open yet and there is one. -/
def CurrentFile.openFile (f : CurrentFile) : CurrentFile :=
  match f.lineStream with
  | some _ => f
  | none =>
    match files f.path with
    | some _ => { f with lineStream := some 0 }
    | none => f

/-- Whether a scan of a file finds a block. -/
def fileHasBlocks (path : String) : Bool :=
  match files path with
  | some lines => !(scanHourFile fromStr path lines ⟨0, true⟩).newBlockRanges.isEmpty
  | none => false

/-- Scans the lines of the current file that have not been read, if it is open. -/
def scanCurrentFile (s : LoopState) : Except Halt LoopState :=
  match s.currentFile.lineStream with
  | none => return s
  | some read => do
    let lines := (files s.currentFile.path).getD []
    let scanResult :=
      -- Lines that were read before are not read again.
      scanHourFile fromStr s.currentFile.path (lines.drop read) ⟨s.nextHeight, false⟩
    let cache ← s.cache.loadScanResult scanResult
    return { s with
      currentFile := { s.currentFile with lineStream := some lines.length }
      nextHeight := scanResult.nextExpectedHeight
      cache := cache }

/-- Goes on to the file of the next hour, if that has begun and its file has blocks, after a last
    scan of the current one. -/
def checkNextFile (now : ℕ) (s : LoopState) : Except Halt LoopState :=
  -- No hour after the next one is looked at.
  let nextDt := s.dt + 1
  if nextDt * nanosPerHour < now then
    let nextFile := CurrentFile.fromDatetime date root nextDt
    if fileHasBlocks fromStr files nextFile.path then do
      let s ← scanCurrentFile fromStr files s
      return { s with dt := nextDt, currentFile := nextFile }
    else return s
  else return s

/-- An iteration of the loop, at the time `now`. -/
def iteration (now : ℕ) (s : LoopState) : Except Halt LoopState := do
  let s ← scanCurrentFile fromStr files { s with currentFile := s.currentFile.openFile files }
  checkNextFile fromStr date root files now s

/-- Iterations of the loop, one for each time. -/
def iterations (nows : List ℕ) (s : LoopState) : Except Halt LoopState :=
  nows.foldlM (fun s now => iteration fromStr date root files now s) s

/-- The file of an hour has a block. -/
def HasBlocks (dt : ℕ) : Prop :=
  ∃ content, files (CurrentFile.fromDatetime date root dt).path = some content ∧
    blocksOf fromStr content ≠ []

/-- A file is in an order that the ranges can follow. -/
def FileUnwrapped (path : String) : Prop :=
  ∀ content, files path = some content → Unwrapped (blocksOf fromStr content)

/-- The files that the loop may scan from now on are in order: the current one, and those of the
    hours with blocks that follow without a gap. -/
structure Scannable (s : LoopState) : Prop where
  current : FileUnwrapped fromStr files s.currentFile.path
  later : ∀ hour, s.dt < hour →
    (∀ between, s.dt < between → between ≤ hour → HasBlocks fromStr date root files between) →
    FileUnwrapped fromStr files (CurrentFile.fromDatetime date root hour).path

/-- The earliest hour after `dt` whose file has blocks, if it has begun. -/
structure IsNextHour (dt now later : ℕ) : Prop where
  lt : dt < later
  begun : later * nanosPerHour < now
  hasBlocks : HasBlocks fromStr date root files later
  earliest : ∀ hour, dt < hour → hour < later → ¬ HasBlocks fromStr date root files hour

end

section

variable {fromStr : String → Option LocalBlockAndReceipts} {date : ℕ → String} {root : String}
  {files : String → Option (List String)} {s s' : LoopState} {now dt : ℕ}

/-- A scan finds ranges if there is a block. -/
theorem isEmpty_newBlockRanges (path : String) (lines : List String) (options : ScanOptions) :
    (scanHourFile fromStr path lines options).newBlockRanges.isEmpty =
      (blocksOf fromStr lines).isEmpty := by
  rw [scanHourFile, foldl_scanLine]
  cases hblocks : blocksOf fromStr lines with
  | nil => rfl
  | cons b blocks =>
    have hsome :
        ((b :: blocks).foldl (scanBlock options) (initial options)).currentRange.isSome := by
      rw [isSome_currentRange_foldl]
      exact Bool.or_true _
    obtain ⟨range, hrange⟩ := Option.isSome_iff_exists.1 hsome
    simp only [hrange, Option.toList_some, List.isEmpty_cons]
    simp

/-- The check for blocks in a file is right. -/
theorem fileHasBlocks_iff :
    fileHasBlocks fromStr files (CurrentFile.fromDatetime date root dt).path ↔
      HasBlocks fromStr date root files dt := by
  unfold fileHasBlocks HasBlocks
  cases files (CurrentFile.fromDatetime date root dt).path with
  | none => simp
  | some content => simp [isEmpty_newBlockRanges]

/-- A scan of the current file leaves the hour and the file as they are. -/
theorem scanCurrentFile_eq_ok {s : LoopState}
    (hfile : FileUnwrapped fromStr files s.currentFile.path) :
    ∃ s', scanCurrentFile fromStr files s = .ok s' ∧ s'.dt = s.dt ∧
      s'.currentFile.path = s.currentFile.path := by
  unfold scanCurrentFile
  split
  · exact ⟨s, rfl, rfl, rfl⟩
  · rename_i read hread
    have hunwrapped : Unwrapped (blocksOf fromStr
        (((files s.currentFile.path).getD []).drop read)) := by
      cases hcontent : files s.currentFile.path with
      | none => simp [Unwrapped]
      | some content =>
        exact unwrapped_of_isInfix (blocksOf_isInfix (List.drop_suffix read content).isInfix)
          (hfile content hcontent)
    obtain ⟨c, hload, -⟩ := s.cache.loadScanResult_eq_ok s.currentFile.path
      ⟨s.nextHeight, false⟩ hunwrapped
    exact ⟨_, except_bind_eq_ok.2 ⟨c, hload, rfl⟩, rfl, rfl⟩

theorem path_openFile (f : CurrentFile) : (f.openFile files).path = f.path := by
  unfold CurrentFile.openFile
  split
  · rfl
  · split <;> rfl

/-- What may be scanned depends on the hour and the file only. -/
theorem Scannable.congr (hs : Scannable fromStr date root files s) (hdt : s'.dt = s.dt)
    (hpath : s'.currentFile.path = s.currentFile.path) :
    Scannable fromStr date root files s' where
  current := hpath ▸ hs.current
  later := hdt ▸ hs.later

/-- The first scan of an iteration. -/
theorem exists_scanned (hs : Scannable fromStr date root files s) :
    ∃ s₁, scanCurrentFile fromStr files { s with currentFile := s.currentFile.openFile files } =
      .ok s₁ ∧ s₁.dt = s.dt ∧ Scannable fromStr date root files s₁ := by
  have hopened : FileUnwrapped fromStr files (s.currentFile.openFile files).path := by
    rw [path_openFile]
    exact hs.current
  obtain ⟨s₁, hscan, hdt, hpath⟩ := scanCurrentFile_eq_ok
    (s := { s with currentFile := s.currentFile.openFile files }) hopened
  exact ⟨s₁, hscan, hdt, hs.congr hdt (hpath.trans (path_openFile _))⟩

/-- The next hour has begun, and its file has blocks. -/
def CanMove (fromStr : String → Option LocalBlockAndReceipts) (date : ℕ → String) (root : String)
    (files : String → Option (List String)) (now dt : ℕ) : Prop :=
  (dt + 1) * nanosPerHour < now ∧ HasBlocks fromStr date root files (dt + 1)

/-- If there is a later hour to move to, the check moves by one. -/
theorem checkNextFile_of_canMove (hs : Scannable fromStr date root files s)
    (h : CanMove fromStr date root files now s.dt) :
    ∃ s', checkNextFile fromStr date root files now s = .ok s' ∧ s'.dt = s.dt + 1 ∧
      Scannable fromStr date root files s' := by
  obtain ⟨s₁, hscan, -⟩ := scanCurrentFile_eq_ok hs.current
  simp only [checkNextFile, if_pos h.1, fileHasBlocks_iff.2 h.2, if_true, hscan]
  have hnext : ∀ hour, s.dt < hour → hour ≤ s.dt + 1 → HasBlocks fromStr date root files hour := by
    intro hour hlt hle
    obtain rfl : hour = s.dt + 1 := by omega
    exact h.2
  refine ⟨_, rfl, rfl, hs.later _ (Nat.lt_succ_self _) hnext, fun hour hlt hbetween => ?_⟩
  refine hs.later hour (Nat.lt_of_succ_lt hlt) fun between hlt' hle => ?_
  obtain hle' | hlt' := Nat.lt_or_ge (s.dt + 1) between
  · exact hbetween between hle' hle
  · exact hnext between (by omega) hlt'

/-- If there is no later hour to move to, the check changes nothing. -/
theorem checkNextFile_of_not_canMove (h : ¬ CanMove fromStr date root files now s.dt) :
    checkNextFile fromStr date root files now s = .ok s := by
  unfold checkNextFile
  dsimp only
  split
  · split
    · exact absurd ⟨by assumption, fileHasBlocks_iff.1 (by assumption)⟩ h
    · rfl
  · rfl

/-- The loop moves by an hour in an iteration. -/
theorem iteration_of_canMove (hs : Scannable fromStr date root files s)
    (h : CanMove fromStr date root files now s.dt) :
    ∃ s', iteration fromStr date root files now s = .ok s' ∧ s'.dt = s.dt + 1 ∧
      Scannable fromStr date root files s' := by
  obtain ⟨s₁, hscan, hdt, hs₁⟩ := exists_scanned hs
  rw [← hdt] at h
  obtain ⟨s₂, hcheck, hdt₂, hs₂⟩ := checkNextFile_of_canMove hs₁ h
  exact ⟨s₂, except_bind_eq_ok.2 ⟨s₁, hscan, hcheck⟩, hdt₂.trans (congrArg (· + 1) hdt), hs₂⟩

/-- The loop stays at its hour while there is none to move to. -/
theorem iteration_of_not_canMove (hs : Scannable fromStr date root files s)
    (h : ¬ CanMove fromStr date root files now s.dt) :
    ∃ s', iteration fromStr date root files now s = .ok s' ∧ s'.dt = s.dt ∧
      Scannable fromStr date root files s' := by
  obtain ⟨s₁, hscan, hdt, hs₁⟩ := exists_scanned hs
  rw [← hdt] at h
  exact ⟨s₁, except_bind_eq_ok.2 ⟨s₁, hscan, checkNextFile_of_not_canMove h⟩, hdt, hs₁⟩

/-! ## Runs of the loop -/

/-- Iterations go on from where the first one ended. -/
theorem iterations_cons {nows : List ℕ}
    (hfirst : iteration fromStr date root files now s = .ok s') :
    iterations fromStr date root files (now :: nows) s =
      iterations fromStr date root files nows s' := by
  rw [iterations, List.foldlM_cons, hfirst]
  rfl

/-- The loop goes through hours whose files have blocks, without leaving one out. -/
theorem iterations_eq_ok (hs : Scannable fromStr date root files s) (nows : List ℕ) :
    ∃ s', iterations fromStr date root files nows s = .ok s' ∧ s.dt ≤ s'.dt ∧
      ∀ hour, s.dt < hour → hour ≤ s'.dt → HasBlocks fromStr date root files hour := by
  induction nows generalizing s with
  | nil => exact ⟨s, rfl, le_rfl, fun hour hlt hle => absurd hle (Nat.not_le.2 hlt)⟩
  | cons now nows ih =>
    by_cases h : CanMove fromStr date root files now s.dt
    · obtain ⟨s₁, hfirst, hdt, hs₁⟩ := iteration_of_canMove hs h
      obtain ⟨s', hrest, hle, hblocks⟩ := ih hs₁
      refine ⟨s', (iterations_cons hfirst).trans hrest, by omega, fun hour hlt hle' => ?_⟩
      -- The hour is the one this iteration moves to, or is passed later.
      obtain rfl | hlt' := Nat.eq_or_lt_of_le (Nat.succ_le_of_lt hlt)
      · exact h.2
      · exact hblocks hour (by omega) hle'
    · obtain ⟨s₁, hfirst, hdt, hs₁⟩ := iteration_of_not_canMove hs h
      obtain ⟨s', hrest, hle, hblocks⟩ := ih hs₁
      rw [hdt] at hle hblocks
      exact ⟨s', (iterations_cons hfirst).trans hrest, hle, hblocks⟩

/-- Without blocks in the file of the next hour, the loop stays where it is. -/
theorem iterations_stay (hs : Scannable fromStr date root files s) (nows : List ℕ)
    (h : ¬ HasBlocks fromStr date root files (s.dt + 1)) :
    ∃ s', iterations fromStr date root files nows s = .ok s' ∧ s'.dt = s.dt := by
  obtain ⟨s', hrun, hle, hblocks⟩ := iterations_eq_ok hs nows
  refine ⟨s', hrun, Nat.le_antisymm (Nat.not_lt.1 fun hlt => h ?_) hle⟩
  exact hblocks _ (Nat.lt_succ_self _) hlt

/-- The loop goes through hours that follow each other, one in each iteration. -/
theorem iterations_move (hs : Scannable fromStr date root files s) {m : ℕ}
    (hnow : (s.dt + m) * nanosPerHour < now)
    (h : ∀ hour, s.dt < hour → hour ≤ s.dt + m → HasBlocks fromStr date root files hour) :
    ∃ s', iterations fromStr date root files (List.replicate m now) s = .ok s' ∧
      s'.dt = s.dt + m := by
  induction m generalizing s with
  | zero => exact ⟨s, rfl, rfl⟩
  | succ m ih =>
    have hmove : CanMove fromStr date root files now s.dt := by
      exact ⟨Nat.lt_of_le_of_lt (Nat.mul_le_mul_right _ (by omega)) hnow,
        h _ (by omega) (by omega)⟩
    obtain ⟨s₁, hfirst, hdt, hs₁⟩ := iteration_of_canMove hs hmove
    obtain ⟨s', hrest, hdt'⟩ := ih hs₁ (by rwa [hdt, Nat.add_assoc, Nat.add_comm 1])
      fun hour hlt hle => h hour (by omega) (by omega)
    exact ⟨s', (iterations_cons hfirst).trans hrest, by omega⟩

/-- The ingest loop, from any state in which the files that it may scan are in order. When there is
    a later hour with blocks that has begun, an iteration goes on to the earliest one if and only
    if it is the next hour, and stays where it is otherwise. In a run of the loop, no hour with
    blocks is left out. As long as the hours with blocks follow each other, there is one of them in
    each iteration. From an hour that is followed by one without blocks, the loop never goes on. -/
theorem rotation_iff (hs : Scannable fromStr date root files s) :
    (∀ now later, IsNextHour fromStr date root files s.dt now later →
      ∃ s', iteration fromStr date root files now s = .ok s' ∧
        (s'.dt = later ↔ later = s.dt + 1) ∧ (later ≠ s.dt + 1 → s'.dt = s.dt)) ∧
    (∀ nows, ∃ s', iterations fromStr date root files nows s = .ok s' ∧ s.dt ≤ s'.dt ∧
      ∀ hour, s.dt < hour → hour ≤ s'.dt → HasBlocks fromStr date root files hour) ∧
    (∀ now m, (s.dt + m) * nanosPerHour < now →
      (∀ hour, s.dt < hour → hour ≤ s.dt + m → HasBlocks fromStr date root files hour) →
      ∃ s', iterations fromStr date root files (List.replicate m now) s = .ok s' ∧
        s'.dt = s.dt + m) ∧
    (¬ HasBlocks fromStr date root files (s.dt + 1) → ∀ nows,
      ∃ s', iterations fromStr date root files nows s = .ok s' ∧ s'.dt = s.dt) := by
  refine ⟨fun now later hlater => ?_, fun nows => iterations_eq_ok hs nows,
    fun now m hnow h => iterations_move hs hnow h, fun h nows => iterations_stay hs nows h⟩
  have hlt := hlater.lt
  by_cases hnext : later = s.dt + 1
  · have hmove : CanMove fromStr date root files now s.dt :=
      ⟨hnext ▸ hlater.begun, hnext ▸ hlater.hasBlocks⟩
    obtain ⟨s', hs', hdt, -⟩ := iteration_of_canMove hs hmove
    exact ⟨s', hs', iff_of_true (hdt.trans hnext.symm) hnext, fun hne => absurd hnext hne⟩
  · -- The next hour comes before the earliest one with blocks, so it has none.
    have hmove : ¬ CanMove fromStr date root files now s.dt :=
      fun hmove => hlater.earliest (s.dt + 1) (by omega) (by omega) hmove.2
    obtain ⟨s', hs', hdt, -⟩ := iteration_of_not_canMove hs hmove
    exact ⟨s', hs', iff_of_false (by omega) hnext, fun _ => hdt⟩

end

/-! ## A file at midnight -/

/-- The dates of 31 July and 1 August 2025, the days 20300 and 20301 from the start of 1970 on. -/
def midnightDate (day : ℕ) : String := if day = 20300 then "20250731" else "20250801"

/-- The hour from midnight on. -/
def midnight : ℕ := 20301 * 24

/-- The file of that hour, with one block, is the only one. -/
def midnightFiles (path : String) : Option (List String) :=
  if path = "/data/hourly/20250801/0" then some [zeroLine "0xa"] else none

theorem blocksOf_midnight : blocksOf parseZeroLine [zeroLine "0xa"] = [zeroBlock 10] := by
  rw [blocksOf_cons_some parseZeroLine_ten, blocksOf_nil]

theorem unwrapped_midnightFiles (path : String) :
    FileUnwrapped parseZeroLine midnightFiles path := by
  intro content hfile
  obtain ⟨-, heq⟩ := Option.ite_none_right_eq_some.1 hfile
  rw [← Option.some.inj heq, blocksOf_midnight]
  exact List.isChain_singleton _

theorem scannable_midnightFiles (s : LoopState) :
    Scannable parseZeroLine midnightDate "/data" midnightFiles s where
  current := unwrapped_midnightFiles _
  later _ _ _ := unwrapped_midnightFiles _

/-- There is a single file with blocks. -/
theorem hasBlocks_midnight_iff {hour : ℕ} :
    HasBlocks parseZeroLine midnightDate "/data" midnightFiles hour ↔
      (CurrentFile.fromDatetime midnightDate "/data" hour).path = "/data/hourly/20250801/0" := by
  constructor
  · rintro ⟨content, hfile, -⟩
    exact (Option.ite_none_right_eq_some.1 hfile).1
  · intro hpath
    refine ⟨[zeroLine "0xa"], if_pos hpath, ?_⟩
    rw [blocksOf_midnight]
    exact List.cons_ne_nil _ _

/-- The hour of that file is the next one. -/
theorem isNextHour_midnight {dt : ℕ} (hlt : dt < midnight)
    (h : ∀ hour, dt < hour → hour < midnight →
      (CurrentFile.fromDatetime midnightDate "/data" hour).path ≠ "/data/hourly/20250801/0") :
    IsNextHour parseZeroLine midnightDate "/data" midnightFiles dt
      ((midnight + 1) * nanosPerHour) midnight where
  lt := hlt
  begun := by
    have hpos : 0 < nanosPerHour := by
      unfold nanosPerHour
      decide
    exact Nat.mul_lt_mul_of_pos_right (Nat.lt_succ_self _) hpos
  hasBlocks := hasBlocks_midnight_iff.2 (by decide)
  earliest hour hgt hlt' := fun hblocks => h hour hgt hlt' (hasBlocks_midnight_iff.1 hblocks)

/-- The loop at an hour of the days around midnight, before it has read anything. -/
def midnightState (dt : ℕ) : LoopState where
  dt := dt
  currentFile := CurrentFile.fromDatetime midnightDate "/data" dt
  nextHeight := 0
  cache := .new cacheSize

/-- From the hour before, the loop goes on to the file at midnight. -/
theorem rotation_iff_midnight :
    Scannable parseZeroLine midnightDate "/data" midnightFiles (midnightState (midnight - 1)) ∧
      ∃ s', iteration parseZeroLine midnightDate "/data" midnightFiles
        ((midnight + 1) * nanosPerHour) (midnightState (midnight - 1)) = .ok s' ∧
        s'.dt = midnight := by
  have hnext : IsNextHour parseZeroLine midnightDate "/data" midnightFiles (midnight - 1)
      ((midnight + 1) * nanosPerHour) midnight :=
    isNextHour_midnight (by decide) fun hour hgt hlt => absurd hlt (by omega)
  have hscannable := scannable_midnightFiles (midnightState (midnight - 1))
  obtain ⟨s', hs', hiff, -⟩ := (rotation_iff hscannable).1 _ _ hnext
  exact ⟨hscannable, s', hs', hiff.2 (by decide)⟩

/-- From two hours before, with no file in between, it does not. -/
theorem rotation_stuck :
    IsNextHour parseZeroLine midnightDate "/data" midnightFiles (midnight - 2)
      ((midnight + 1) * nanosPerHour) midnight ∧
    ∀ nows, ∃ s', iterations parseZeroLine midnightDate "/data" midnightFiles nows
      (midnightState (midnight - 2)) = .ok s' ∧ s'.dt = midnight - 2 := by
  have hgap : (CurrentFile.fromDatetime midnightDate "/data" (midnight - 1)).path ≠
      "/data/hourly/20250801/0" := by
    decide
  refine ⟨isNextHour_midnight (by decide) fun hour hgt hlt => ?_, fun nows => ?_⟩
  · obtain rfl : hour = midnight - 1 := by omega
    exact hgap
  · exact iterations_stay (scannable_midnightFiles _) nows fun hblocks =>
      hgap (hasBlocks_midnight_iff.1 hblocks)

end Nanoreth
