import Mathlib.Data.Char
import Mathlib.Data.List.Lex
import Mathlib.Data.Prod.Lex
import Mathlib.Data.List.Sort
import Nanoreth.HlNodeSource.Rotation
import Nanoreth.Lib.Decimal
import Nanoreth.PseudoPeer.LatestBlock

/-!
# The hourly files of a local node

A local node writes the blocks of an hour to a file that is named by the hour, in a directory
that is named by the day. When the node starts, all such files are listed, in the order of their
times (`FileOperations::all_hourly_files`), and the ingest loop starts at the latest one. From
then on it makes the names of the files itself (`CurrentFile::from_datetime`).

The two ways do not quite agree. The names made by the loop are read back to the time they
were made for (`datetimeFromPath_ofDatetime`). But there are names with the same time that the loop
does not make, such as an hour with a leading zero or with a sign (`parseU8_iff`). A file of such a
name is listed and never opened by the loop (`currentFile_iff`).

Times are hours, counted from the first day there is, as in the loop. How a day is read and written
and which numbers are hours is up to the crate `time`, a parameter (`TimeCrate`). It is assumed
that the name it gives a day is read as that day (`TimeCrate.IsCalendar`).
-/

namespace Nanoreth

open Decimal Partial

/-! ## Times -/

/-- What is used of the crate `time`. Days are numbered from the first one there is. -/
structure TimeCrate where
  /-- The day of a text in the format `[year][month][day]`. -/
  parse : Text → Option ℕ
  /-- The text of a day in this format. -/
  format : ℕ → Text
  /-- The hour of a day, by its number. -/
  fromHms : ℕ → Option ℕ

/-- What is assumed of the crate `time`, with a number of days that there are: a day is read from
    the text that is made for it, texts of days have no separator, and days have 24 hours. -/
structure TimeCrate.IsCalendar (time : TimeCrate) (days : ℕ) : Prop where
  parse_format : ∀ day < days, time.parse (time.format day) = some day
  lt_of_parse : ∀ text day, time.parse text = some day → day < days
  sep_notMem : ∀ text day, time.parse text = some day → '/' ∉ text
  fromHms_iff : ∀ n hour, time.fromHms n = some hour ↔ n < 24 ∧ n = hour

/-! ## The files -/

/-- The names of a file and of the directory it is in. -/
@[ext]
structure HourlyFile where
  day : Text
  hour : Text
  deriving DecidableEq

/-- The number of 8 bits that a text is in decimal. -/
def parseU8 (text : Text) : Option ℕ :=
  match parseU64 text with
  | some n => if n.toNat < 256 then some n.toNat else none
  | none => none

/-- An entry of the directory `hourly`: its name, if it is text, and the names of its own entries if
    it is a directory that can be read. Of these, one that cannot be read or whose name is no text
    is `none`. -/
structure DayEntry where
  name : Option Text
  subentries : Option (List (Option Text))

section

variable (time : TimeCrate)

namespace HourlyFile

/-- Where a file is, below the root. -/
def path (root : String) (f : HourlyFile) : String :=
  root ++ "/hourly/" ++ String.ofList f.day ++ "/" ++ String.ofList f.hour

/-- The time of a file, in hours. -/
def datetimeFromPath (f : HourlyFile) : Option ℕ := do
  let date ← time.parse f.day
  let hour ← time.fromHms (← parseU8 f.hour)
  return 24 * date + hour

/-- The names made for a time. -/
def ofDatetime (dt : ℕ) : HourlyFile where
  day := time.format (dt / 24)
  hour := Nat.toDigits 10 (dt % 24)

/-- The order of the files: by time, and those of one time by name. -/
def key (entry : ℕ × HourlyFile) : ℕ ×ₗ Text ×ₗ Text :=
  toLex (entry.1, toLex (entry.2.day, entry.2.hour))

end HourlyFile

/-- How the loop writes the day of a time. -/
def TimeUtils.dateFromDatetime (day : ℕ) : String := String.ofList (time.format day)

/-- The hourly files of a day. -/
def DayEntry.files (entry : DayEntry) : List (ℕ × HourlyFile) :=
  match entry.name, entry.subentries with
  | some day, some subentries =>
    (subentries.filterMap id).filterMap fun hour =>
      (HourlyFile.datetimeFromPath time ⟨day, hour⟩).map (·, ⟨day, hour⟩)
  | _, _ => []

namespace FileOperations

/-- The hourly files, `hourly` being the entries of the directory, if it can be read. None are
    listed if one of the entries cannot be read. -/
def allHourlyFiles (hourly : Option (List (Option DayEntry))) : Option (List HourlyFile) := do
  let entries ← (← hourly).mapM id
  let files := entries.flatMap (DayEntry.files time)
  return (files.insertionSort fun a b => HourlyFile.key a ≤ HourlyFile.key b).map (·.2)

/-- The last one of the hourly files. -/
def findLatestHourlyFile (hourly : Option (List (Option DayEntry))) : Option HourlyFile := do
  (← allHourlyFiles time hourly).getLast?

end FileOperations

/-- The time at which the loop starts, once there is a file. -/
def startDatetime (hourly : Option (List (Option DayEntry))) : Option (Except Halt ℕ) :=
  (FileOperations.findLatestHourlyFile time hourly).map fun f => unwrap (f.datetimeFromPath time)

end

/-! ## The names of an hour -/

/-- The names that are read as a number: its digits, after any zeros, which may come after a plus
    sign. -/
inductive IsHourName (n : ℕ) : Text → Prop
  | digits (zeros : ℕ) : IsHourName n (List.replicate zeros '0' ++ Nat.toDigits 10 n)
  | plus (zeros : ℕ) : IsHourName n ('+' :: (List.replicate zeros '0' ++ Nat.toDigits 10 n))

section

variable {text : Text} {n : ℕ}

/-- Digits are read, with or without a sign, if the number fits. -/
theorem parseU64_eq_some (digits : Text) (hdigits : digits.all Char.isDigit = true)
    (hne : digits ≠ []) (hlt : Nat.ofDigitChars 10 digits 0 < 2 ^ 64) :
    parseU64 digits = some (.ofNat (Nat.ofDigitChars 10 digits 0)) ∧
      parseU64 ('+' :: digits) = some (.ofNat (Nat.ofDigitChars 10 digits 0)) := by
  have hplus : ∀ rest, digits = '+' :: rest → False := by
    rintro rest rfl
    cases hdigits
  refine ⟨?_, ?_⟩
  · rw [parseU64, if_pos ⟨hne, hdigits, hlt⟩]
    exact hplus
  · rw [parseU64, if_pos ⟨hne, hdigits, hlt⟩]

/-- What is read are digits. -/
theorem exists_digits_of_parseU64 {k : UInt64} (h : parseU64 text = some k) :
    ∃ digits, (text = digits ∨ text = '+' :: digits) ∧ digits ≠ [] ∧
      digits.all Char.isDigit = true ∧ k.toNat = Nat.ofDigitChars 10 digits 0 := by
  have hsign : ∃ digits, (text = digits ∨ text = '+' :: digits) ∧
      parseU64 text = if digits ≠ [] ∧ digits.all Char.isDigit ∧
        Nat.ofDigitChars 10 digits 0 < 2 ^ 64 then
        some (.ofNat (Nat.ofDigitChars 10 digits 0)) else none := by
    by_cases hplus : ∃ digits, text = '+' :: digits
    · obtain ⟨digits, rfl⟩ := hplus
      exact ⟨digits, .inr rfl, rfl⟩
    · refine ⟨text, .inl rfl, ?_⟩
      rw [parseU64]
      exact fun digits heq => hplus ⟨digits, heq⟩
  obtain ⟨digits, htext, hparse⟩ := hsign
  rw [hparse] at h
  split_ifs at h with hdigits
  obtain ⟨hne, hall, hlt⟩ := hdigits
  cases h
  exact ⟨digits, htext, hne, hall, UInt64.toNat_ofNat_of_lt' hlt⟩

/-- A small number is read as a large one that fits. -/
theorem parseU8_eq_some_iff :
    parseU8 text = some n ↔ ∃ k, parseU64 text = some k ∧ k.toNat = n ∧ n < 256 := by
  rw [parseU8]
  cases parseU64 text with
  | none => simp
  | some k =>
    simp only [Option.some.injEq, exists_eq_left']
    constructor
    · intro h
      split_ifs at h with hlt
      cases h
      exact ⟨rfl, hlt⟩
    · rintro ⟨rfl, hlt⟩
      exact if_pos hlt

/-- Exactly the names of a number are read as that number. -/
theorem parseU8_iff (hn : n < 256) : parseU8 text = some n ↔ IsHourName n text := by
  rw [parseU8_eq_some_iff]
  constructor
  · rintro ⟨k, hk, hkn, -⟩
    obtain ⟨digits, htext, hne, hall, hvalue⟩ := exists_digits_of_parseU64 hk
    have hzeros := eq_zeros_append hall hne
    rw [← hvalue, hkn] at hzeros
    obtain rfl | rfl := htext
    · rw [hzeros]
      exact .digits _
    · rw [hzeros]
      exact .plus _
  -- Any number of zeros may come first, and a sign before them.
  · intro h
    have hparse : ∀ zeros, parseU64 (List.replicate zeros '0' ++ Nat.toDigits 10 n) =
        some (.ofNat n) ∧
        parseU64 ('+' :: (List.replicate zeros '0' ++ Nat.toDigits 10 n)) = some (.ofNat n) := by
      intro zeros
      have hvalue := ofDigitChars_zeros_append zeros n
      have heq := parseU64_eq_some (List.replicate zeros '0' ++ Nat.toDigits 10 n)
        (by rw [List.all_append, all_isDigit_replicate, all_isDigit_toDigits, Bool.and_true])
        (List.append_ne_nil_of_right_ne_nil _ Nat.toDigits_ne_nil)
        (by rw [hvalue]; omega)
      rwa [hvalue] at heq
    have htoNat : (UInt64.ofNat n).toNat = n := by
      have hsize : UInt64.size = 2 ^ 64 := rfl
      exact UInt64.toNat_ofNat_of_lt' (by omega)
    cases h with
    | digits zeros => exact ⟨_, (hparse zeros).1, htoNat, hn⟩
    | plus zeros => exact ⟨_, (hparse zeros).2, htoNat, hn⟩

end

/-! ## The names of a time -/

section Names

variable {time : TimeCrate} {days dt dt' : ℕ} {f : HourlyFile} {root : String}

theorem sep_notMem_of_isDigit {text : Text} (h : text.all Char.isDigit = true) :
    '/' ∉ text := by
  intro hmem
  have hdigit := List.all_eq_true.1 h '/' hmem
  cases hdigit

theorem IsHourName.sep_notMem {n : ℕ} {text : Text} (h : IsHourName n text) : '/' ∉ text := by
  have hdigits : ∀ zeros, '/' ∉ List.replicate zeros '0' ++ Nat.toDigits 10 n :=
    fun zeros => sep_notMem_of_isDigit
      (by rw [List.all_append, all_isDigit_replicate, all_isDigit_toDigits, Bool.and_true])
  cases h with
  | digits zeros => exact hdigits zeros
  | plus zeros => exact List.not_mem_cons_of_ne_of_not_mem (by decide) (hdigits zeros)

namespace HourlyFile

/-- The time of a file is read from its names: that of a day, and that of an hour. -/
theorem datetimeFromPath_iff (htime : time.IsCalendar days) :
    f.datetimeFromPath time = some dt ↔
      time.parse f.day = some (dt / 24) ∧ IsHourName (dt % 24) f.hour := by
  have hlt : dt % 24 < 24 := Nat.mod_lt dt (by decide)
  rw [← parseU8_iff (Nat.lt_trans hlt (by decide))]
  simp only [datetimeFromPath, Option.bind_eq_bind, Option.bind_eq_some_iff, Option.pure_def,
    Option.some.injEq, htime.fromHms_iff]
  constructor
  · rintro ⟨date, hdate, n, hn, hour, ⟨hhour, rfl⟩, rfl⟩
    have hdiv : (24 * date + n) / 24 = date := by omega
    have hmod : (24 * date + n) % 24 = n := by omega
    rw [hdiv, hmod]
    exact ⟨hdate, hn⟩
  · rintro ⟨hdate, hhour⟩
    exact ⟨dt / 24, hdate, dt % 24, hhour, dt % 24, ⟨hlt, rfl⟩, Nat.div_add_mod dt 24⟩

theorem lt_of_datetimeFromPath (htime : time.IsCalendar days)
    (h : f.datetimeFromPath time = some dt) : dt < 24 * days := by
  have hday := htime.lt_of_parse _ _ ((datetimeFromPath_iff htime).1 h).1
  omega

/-- The names made for a time are read as that time. -/
theorem datetimeFromPath_ofDatetime (htime : time.IsCalendar days) (hdt : dt < 24 * days) :
    (ofDatetime time dt).datetimeFromPath time = some dt :=
  (datetimeFromPath_iff htime).2 ⟨htime.parse_format _ (by omega), .digits 0⟩

/-- Files whose names have times are different if their names are. -/
theorem path_inj {f' : HourlyFile} (htime : time.IsCalendar days)
    (h : f.datetimeFromPath time = some dt) (h' : f'.datetimeFromPath time = some dt') :
    f.path root = f'.path root ↔ f = f' := by
  refine ⟨fun hpath => ?_, fun heq => heq ▸ rfl⟩
  have hsep := htime.sep_notMem _ _ ((datetimeFromPath_iff htime).1 h).1
  have hsep' := htime.sep_notMem _ _ ((datetimeFromPath_iff htime).1 h').1
  have hslash : "/".toList = ['/'] := rfl
  simp only [path, String.append_assoc, String.append_right_inj] at hpath
  have hlist := congrArg String.toList hpath
  simp only [String.toList_append, String.toList_ofList, hslash, List.singleton_append] at hlist
  have hsplit := congrArg (List.splitOn '/') hlist
  rw [Lines.splitOn_append_cons hsep, Lines.splitOn_append_cons hsep'] at hsplit
  have hday : f.day = f'.day := (List.cons.inj hsplit).1
  rw [hday] at hlist
  exact HourlyFile.ext hday (List.cons.inj (List.append_cancel_left hlist)).2

end HourlyFile

/-- The path of the current file is that of the hourly file. -/
theorem path_fromDatetime (time : TimeCrate) (root : String) (hour : ℕ) :
    (CurrentFile.fromDatetime (TimeUtils.dateFromDatetime time) root hour).path =
      (HourlyFile.ofDatetime time hour).path root := by
  simp only [CurrentFile.fromDatetime, TimeUtils.dateFromDatetime, HourlyFile.path,
    HourlyFile.ofDatetime, Nat.toString_eq_ofList_toDigits]

/-- An hour of the loop opens a file that has a time only if the hour is that time and the names
    are those made for it. -/
theorem currentFile_iff (htime : time.IsCalendar days) (h : f.datetimeFromPath time = some dt)
    (root : String) {hour : ℕ} (hhour : hour < 24 * days) :
    (CurrentFile.fromDatetime (TimeUtils.dateFromDatetime time) root hour).path = f.path root ↔
      hour = dt ∧ f = .ofDatetime time dt := by
  have hread := HourlyFile.datetimeFromPath_ofDatetime htime hhour
  rw [path_fromDatetime, HourlyFile.path_inj htime hread h]
  constructor
  · rintro rfl
    obtain rfl : hour = dt := Option.some.inj (hread.symm.trans h)
    exact ⟨rfl, rfl⟩
  · rintro ⟨rfl, rfl⟩
    rfl

end Names

/-! ## The list of the files -/

/-- A file that is among the entries of the directories. -/
def HourlyFile.IsEntry (f : HourlyFile) (hourly : Option (List (Option DayEntry))) : Prop :=
  ∃ entries entry subentries, hourly = some entries ∧ some entry ∈ entries ∧
    entry.name = some f.day ∧ entry.subentries = some subentries ∧ some f.hour ∈ subentries

section List

variable {time : TimeCrate} {days dt : ℕ} {hourly : Option (List (Option DayEntry))}
  {files : List HourlyFile} {f : HourlyFile}

/-- The files of a day are those of its hours with a date. -/
theorem DayEntry.mem_files {entry : DayEntry} :
    (dt, f) ∈ entry.files time ↔ (∃ subentries, entry.name = some f.day ∧
      entry.subentries = some subentries ∧ some f.hour ∈ subentries) ∧
      f.datetimeFromPath time = some dt := by
  obtain ⟨name, subentries⟩ := entry
  cases name with
  | none => simp [files]
  | some day =>
    cases subentries with
    | none => simp [files]
    | some subentries =>
      simp only [files, List.mem_filterMap, id, Option.map_eq_some_iff, Prod.mk.injEq,
        Option.some.injEq, exists_eq_right]
      constructor
      · rintro ⟨hour, hmem, dt', htime, rfl, rfl⟩
        exact ⟨⟨subentries, rfl, rfl, hmem⟩, htime⟩
      · rintro ⟨⟨_, rfl, rfl, hmem⟩, htime⟩
        exact ⟨f.hour, hmem, dt, htime, rfl, rfl⟩

namespace FileOperations

/-- All entries can be read if none fails. -/
theorem mapM_id_eq_some_iff {α : Type} {xs : List (Option α)} {ys : List α} :
    xs.mapM id = some ys ↔ xs = ys.map some := by
  induction xs generalizing ys with
  | nil => cases ys <;> simp
  | cons x xs ih =>
    cases x with
    | none => cases ys <;> simp
    | some x =>
      cases ys with
      | nil => simp [Option.bind_eq_some_iff]
      | cons y ys => simp [Option.bind_eq_some_iff, ih, and_comm]

/-- The files with their times, in their order. -/
theorem exists_of_allHourlyFiles (h : allHourlyFiles time hourly = some files) :
    ∃ timed : List (ℕ × HourlyFile), files = timed.map (·.2) ∧
      timed.Pairwise (fun a b => HourlyFile.key a ≤ HourlyFile.key b) ∧
      ∀ dt f, (dt, f) ∈ timed ↔ f.IsEntry hourly ∧ f.datetimeFromPath time = some dt := by
  simp only [allHourlyFiles, Option.bind_eq_bind, Option.bind_eq_some_iff, Option.pure_def,
    Option.some.injEq] at h
  obtain ⟨listed, rfl, entries, hentries, rfl⟩ := h
  rw [mapM_id_eq_some_iff] at hentries
  refine ⟨_, rfl, ?_, fun dt f => ?_⟩
  · have htotal : Std.Total fun a b : ℕ × HourlyFile =>
        HourlyFile.key a ≤ HourlyFile.key b := ⟨fun a b => le_total _ _⟩
    have htrans : IsTrans (ℕ × HourlyFile) fun a b =>
        HourlyFile.key a ≤ HourlyFile.key b := ⟨fun a b c => le_trans⟩
    exact List.pairwise_insertionSort _ _
  · rw [(List.perm_insertionSort _ _).mem_iff, List.mem_flatMap]
    simp only [DayEntry.mem_files, HourlyFile.IsEntry, Option.some.injEq, hentries]
    constructor
    · rintro ⟨entry, hentry, ⟨subentries, hname, hsub, hmem⟩, htime⟩
      exact ⟨⟨_, entry, subentries, rfl, List.mem_map_of_mem hentry, hname, hsub, hmem⟩, htime⟩
    · rintro ⟨⟨_, entry, subentries, rfl, hentry, hname, hsub, hmem⟩, htime⟩
      have hentry' : entry ∈ entries := by simpa using hentry
      exact ⟨entry, hentry', ⟨subentries, hname, hsub, hmem⟩, htime⟩

end FileOperations

theorem HourlyFile.le_of_key_le {a b : ℕ × HourlyFile} (h : key a ≤ key b) : a.1 ≤ b.1 := by
  obtain hlt | ⟨heq, -⟩ := Prod.Lex.le_iff.1 h
  · exact Nat.le_of_lt hlt
  · exact Nat.le_of_eq heq

/-- The time of the last file is that of the start, and no file has a later one. -/
theorem startDatetime_eq_some (htime : time.IsCalendar days) {timed : List (ℕ × HourlyFile)}
    (hlatest : FileOperations.findLatestHourlyFile time hourly = (timed.map (·.2)).getLast?)
    (hsorted : timed.Pairwise fun a b => HourlyFile.key a ≤ HourlyFile.key b)
    (htimes : ∀ entry ∈ timed, entry.2.datetimeFromPath time = some entry.1)
    {start : Except Halt ℕ} (hstart : startDatetime time hourly = some start) :
    ∃ dt, start = .ok dt ∧ dt < 24 * days ∧
      (∃ f ∈ timed.map (·.2), f.datetimeFromPath time = some dt) ∧
      ∀ f ∈ timed.map (·.2), ∀ dt' ∈ f.datetimeFromPath time, dt' ≤ dt := by
  rw [startDatetime, hlatest, List.getLast?_map, Option.map_map, Option.map_eq_some_iff] at hstart
  obtain ⟨last, hlast, rfl⟩ := hstart
  obtain ⟨before, rfl⟩ := List.getLast?_eq_some_iff.1 hlast
  have hlastMem : last ∈ before ++ [last] := List.mem_append_right _ List.mem_cons_self
  have hdt := htimes last hlastMem
  refine ⟨last.1, ?_, HourlyFile.lt_of_datetimeFromPath htime hdt,
    ⟨last.2, List.mem_map_of_mem hlastMem, hdt⟩, fun f hf dt' hdt' => ?_⟩
  · rw [Function.comp_apply, hdt]
    rfl
  · obtain ⟨entry, hentry, rfl⟩ := List.mem_map.1 hf
    rw [htimes entry hentry] at hdt'
    cases hdt'
    obtain hentry | hentry := List.mem_append.1 hentry
    · exact HourlyFile.le_of_key_le
        ((List.pairwise_append.1 hsorted).2.2 entry hentry last List.mem_cons_self)
    · rw [List.mem_singleton.1 hentry]

/-- **The hourly files**: the files that are listed are those whose names have a time, in the order
    of their times. If there are any, the loop starts at the latest of these times. The file that
    the loop opens at an hour is the one with the names made for it, and no other file of that
    time is ever opened by it. -/
theorem hourlyFiles_spec (htime : time.IsCalendar days)
    (hfiles : FileOperations.allHourlyFiles time hourly = some files) (root : String) :
    (∀ f, f ∈ files ↔ f.IsEntry hourly ∧ (f.datetimeFromPath time).isSome) ∧
    (files.Pairwise fun f f' => ∀ dt ∈ f.datetimeFromPath time,
      ∀ dt' ∈ f'.datetimeFromPath time, dt ≤ dt') ∧
    (startDatetime time hourly = none ↔ files = []) ∧
    (∀ start, startDatetime time hourly = some start → ∃ dt, start = .ok dt ∧ dt < 24 * days ∧
      (∃ f ∈ files, f.datetimeFromPath time = some dt) ∧
      ∀ f ∈ files, ∀ dt' ∈ f.datetimeFromPath time, dt' ≤ dt) ∧
    ∀ hour < 24 * days, (HourlyFile.ofDatetime time hour).datetimeFromPath time = some hour ∧
      ∀ (f : HourlyFile) dt, f.datetimeFromPath time = some dt →
        ((CurrentFile.fromDatetime (TimeUtils.dateFromDatetime time) root hour).path = f.path root ↔
          hour = dt ∧ f = .ofDatetime time dt) := by
  obtain ⟨timed, rfl, hsorted, hmem⟩ := FileOperations.exists_of_allHourlyFiles hfiles
  have htimes : ∀ entry ∈ timed, entry.2.datetimeFromPath time = some entry.1 :=
    fun entry hentry => ((hmem entry.1 entry.2).1 hentry).2
  have hlatest : FileOperations.findLatestHourlyFile time hourly = (timed.map (·.2)).getLast? := by
    rw [FileOperations.findLatestHourlyFile, hfiles]
    rfl
  refine ⟨fun f => ?_, ?_, ?_, fun start hstart => ?_, fun hour hhour => ⟨?_, fun f dt hdt => ?_⟩⟩
  -- The files are those of the listing whose paths have dates,
  · rw [List.mem_map]
    constructor
    · rintro ⟨entry, hentry, rfl⟩
      obtain ⟨hlisted, hdt⟩ := (hmem entry.1 entry.2).1 hentry
      exact ⟨hlisted, Option.isSome_of_eq_some hdt⟩
    · rintro ⟨hlisted, hsome⟩
      obtain ⟨dt, hdt⟩ := Option.isSome_iff_exists.1 hsome
      exact ⟨(dt, f), (hmem dt f).2 ⟨hlisted, hdt⟩, rfl⟩
  -- sorted by date, which is what the key begins with,
  · rw [List.pairwise_map]
    refine hsorted.imp_of_mem fun {a b} ha hb hle dt hdt dt' hdt' => ?_
    rw [htimes a ha] at hdt
    rw [htimes b hb] at hdt'
    cases hdt
    cases hdt'
    exact HourlyFile.le_of_key_le hle
  -- and the start is the date of the last one.
  · rw [startDatetime, hlatest, Option.map_eq_none_iff, List.getLast?_eq_none_iff]
  · exact startDatetime_eq_some htime hlatest hsorted htimes hstart
  · exact HourlyFile.datetimeFromPath_ofDatetime htime hhour
  · exact currentFile_iff htime hdt root hhour

end List

/-! ## A file with a leading zero -/

/-- A calendar of one day. -/
def oneDay : TimeCrate where
  parse text := if text = "20250731".toList then some 0 else none
  format _ := "20250731".toList
  fromHms n := if n < 24 then some n else none

/-- A calendar of a single day. -/
theorem isCalendar_oneDay : oneDay.IsCalendar 1 where
  parse_format day hday := by
    rw [Nat.lt_one_iff.1 hday]
    rfl
  lt_of_parse text day h := by
    simp only [oneDay] at h
    split_ifs at h
    cases h
    exact Nat.one_pos
  sep_notMem text day h := by
    simp only [oneDay] at h
    split_ifs at h with htext
    rw [htext]
    decide
  fromHms_iff n hour := Option.ite_none_right_eq_some.trans (and_congr_right' Option.some_inj)

/-- The hour 4 of the day, in a file whose name has a leading zero. -/
def zeroPaddedFile : HourlyFile := ⟨"20250731".toList, "04".toList⟩

/-- The directory with this file, one of the hour 3 and one that is no hourly file. -/
def zeroPaddedHourly : Option (List (Option DayEntry)) :=
  some [some ⟨some "20250731".toList, some [some "04".toList, some "3".toList, some "x".toList]⟩]

/-- The file is the latest one, and the loop starts at its hour, but opens another file. -/
theorem hourlyFiles_spec_zeroPadded :
    oneDay.IsCalendar 1 ∧
    FileOperations.allHourlyFiles oneDay zeroPaddedHourly =
      some [⟨"20250731".toList, "3".toList⟩, zeroPaddedFile] ∧
    startDatetime oneDay zeroPaddedHourly = some (.ok 4) ∧
    (CurrentFile.fromDatetime (TimeUtils.dateFromDatetime oneDay) "/data" 4).path ≠
      zeroPaddedFile.path "/data" := by
  have hfiles : FileOperations.allHourlyFiles oneDay zeroPaddedHourly =
      some [⟨"20250731".toList, "3".toList⟩, zeroPaddedFile] := by decide +kernel
  have hread : zeroPaddedFile.datetimeFromPath oneDay = some 4 := by decide +kernel
  have hstart : startDatetime oneDay zeroPaddedHourly = some (.ok 4) := by
    rw [startDatetime, FileOperations.findLatestHourlyFile, hfiles]
    exact congrArg (fun dt => some (unwrap dt)) hread
  have hopens := (hourlyFiles_spec isCalendar_oneDay hfiles "/data").2.2.2.2 4 (by decide)
  refine ⟨isCalendar_oneDay, hfiles, hstart, fun hpath => ?_⟩
  obtain ⟨-, hname⟩ := (hopens.2 zeroPaddedFile 4 hread).1 hpath
  revert hname
  decide +kernel

end Nanoreth
