import Nanoreth.Lib.Lines

/-!
# Paths and directories

The operating system has paths that need not be text: a path is a list of characters and of bytes
that are none (`OsString`). As text, such bytes are replaced (`lossy`). A path is joined to another
one, which it replaces if it is absolute (`join`); this is associative (`join_assoc`).

In a file system, directories are told by the names that lead to them from the root. A path leads
to a directory, from the root or from the working directory, component by component (`resolve`), and
a path that is joined to another one goes on from there (`resolve_join`).
-/

namespace Paths

open Lines

/-- A piece of a path: a character, or bytes that are none. -/
inductive OsUnit
  | char (c : Char)
  | invalid (bytes : List UInt8)
  deriving DecidableEq

/-- A text of the operating system, which need not be valid. -/
abbrev OsString := List OsUnit

/-- The separator of the components of a path. -/
def sep : OsUnit := .char '/'

/-- A valid text. -/
def toOs (text : List Char) : OsString := text.map .char

/-- The character that a unit is shown as. -/
def OsUnit.lossy : OsUnit → Char
  | char c => c
  | invalid _ => Char.ofNat 0xfffd

/-- The text of a path, where bytes that are none are replaced. -/
def lossy (path : OsString) : List Char := path.map OsUnit.lossy

/-- The path of the text of a path. -/
def relossy (path : OsString) : OsString := toOs (lossy path)

/-- Whether a path starts at the root. -/
def isAbsolute (path : OsString) : Bool := path.head? == some sep

/-- A path that a relative one is to be appended to, with a separator at its end. -/
def slashed (base : OsString) : OsString :=
  if base = [] ∨ base.getLast? = some sep then base else base ++ [sep]

/-- A path from another one, unless it is absolute. -/
def join (base path : OsString) : OsString :=
  if isAbsolute path then path else slashed base ++ path

section Join

variable {base path : OsString} {text : List Char}

/-- A valid text is shown as it is. -/
@[simp]
theorem lossy_toOs (text : List Char) : lossy (toOs text) = text := by
  rw [lossy, toOs, List.map_map]
  exact List.map_id text

@[simp]
theorem relossy_toOs (text : List Char) : relossy (toOs text) = toOs text := by
  rw [relossy, lossy_toOs]

theorem relossy_append (path path' : OsString) :
    relossy (path ++ path') = relossy path ++ relossy path' := by
  simp [relossy, lossy, toOs]

/-- Only a separator is shown as one. -/
theorem relossy_sep_iff {u : OsUnit} : OsUnit.char u.lossy = sep ↔ u = sep := by
  cases u with
  | char c => rfl
  | invalid bytes =>
    refine iff_of_false ?_ nofun
    change OsUnit.char (Char.ofNat 0xfffd) ≠ .char '/'
    decide

theorem relossy_eq_nil_iff : relossy path = [] ↔ path = [] := by
  simp [relossy, lossy, toOs]

/-- A path is absolute if it is shown so. -/
@[simp]
theorem isAbsolute_relossy (path : OsString) : isAbsolute (relossy path) = isAbsolute path := by
  cases path with
  | nil => rfl
  | cons u path =>
    rw [Bool.eq_iff_iff, isAbsolute, isAbsolute, beq_iff_eq, beq_iff_eq]
    change some (OsUnit.char u.lossy) = some sep ↔ some u = some sep
    rw [Option.some.injEq, Option.some.injEq, relossy_sep_iff]

/-- A path ends with a separator if it is shown so. -/
theorem getLast?_relossy (path : OsString) :
    (relossy path).getLast? = some sep ↔ path.getLast? = some sep := by
  rw [relossy, toOs, lossy, List.getLast?_map, List.getLast?_map]
  cases path.getLast? with
  | none => exact iff_of_false nofun nofun
  | some u =>
    change some (OsUnit.char u.lossy) = some sep ↔ some u = some sep
    rw [Option.some.injEq, Option.some.injEq, relossy_sep_iff]

/-- Whether a path is absolute depends on its beginning. -/
theorem isAbsolute_append (hbase : base ≠ []) : isAbsolute (base ++ path) = isAbsolute base := by
  obtain ⟨u, rest, rfl⟩ := List.exists_cons_of_ne_nil hbase
  rfl

/-- A separator is added to a path, unless it is empty or ends with one. -/
theorem slashed_cases (base : OsString) :
    slashed base = base ∧ (base = [] ∨ base.getLast? = some sep) ∨
      slashed base = base ++ [sep] := by
  rw [slashed]
  split_ifs with h
  · exact .inl ⟨rfl, h⟩
  · exact .inr rfl

/-- The separator is added at the end. -/
theorem slashed_append (base : OsString) (hpath : path ≠ []) :
    slashed (base ++ path) = base ++ slashed path := by
  have hlast : (base ++ path).getLast? = path.getLast? := by
    rw [List.getLast?_append, List.getLast?_eq_some_getLast hpath, Option.some_or]
  have hne : base ++ path ≠ [] := List.append_ne_nil_of_right_ne_nil base hpath
  rw [slashed, slashed, hlast]
  by_cases h : path.getLast? = some sep
  · rw [if_pos (.inr h), if_pos (.inr h)]
  · rw [if_neg (not_or.2 ⟨hne, h⟩), if_neg (not_or.2 ⟨hpath, h⟩), List.append_assoc]

/-- A separator is added once. -/
theorem slashed_slashed (base : OsString) : slashed (slashed base) = slashed base := by
  rcases slashed_cases base with ⟨h, -⟩ | h
  · rw [h, h]
  · rw [h, slashed_append base (List.cons_ne_nil _ _)]
    rfl

theorem isAbsolute_slashed (base : OsString) : isAbsolute (slashed base) = isAbsolute base := by
  by_cases hbase : base = []
  · rw [hbase]
    rfl
  · rcases slashed_cases base with ⟨h, -⟩ | h
    · rw [h]
    · rw [h, isAbsolute_append hbase]

theorem slashed_ne_nil (h : base ≠ []) : slashed base ≠ [] := by
  rcases slashed_cases base with ⟨heq, -⟩ | heq
  · rwa [heq]
  · rw [heq]
    exact List.append_ne_nil_of_left_ne_nil h _

/-- A path is shown with the separator that is added. -/
theorem relossy_slashed (base : OsString) : relossy (slashed base) = slashed (relossy base) := by
  rw [slashed, slashed]
  simp only [relossy_eq_nil_iff, getLast?_relossy]
  split_ifs
  · rfl
  · exact relossy_append base [sep]

theorem join_of_isAbsolute (h : isAbsolute path = true) : join base path = path :=
  if_pos h

theorem join_of_not_isAbsolute (h : isAbsolute path ≠ true) :
    join base path = slashed base ++ path :=
  if_neg h

theorem ne_nil_of_isAbsolute (h : isAbsolute path = true) : path ≠ [] := by
  rintro rfl
  cases h

theorem join_ne_nil (h : base ≠ []) : join base path ≠ [] := by
  by_cases hpath : isAbsolute path = true
  · rw [join_of_isAbsolute hpath]
    exact ne_nil_of_isAbsolute hpath
  · rw [join_of_not_isAbsolute hpath]
    exact List.append_ne_nil_of_left_ne_nil (slashed_ne_nil h) _

theorem isAbsolute_of_notMem {name : OsString} (h : sep ∉ name) : isAbsolute name ≠ true := by
  rw [isAbsolute, Ne, beq_iff_eq]
  exact fun heq => h (List.mem_of_head? heq)

/-- There is a separator in a path if it is shown with one. -/
theorem sep_mem_lossy_iff : '/' ∈ lossy path ↔ sep ∈ path := by
  rw [lossy, List.mem_map]
  constructor
  · rintro ⟨u, hu, hlossy⟩
    have heq : u = sep := relossy_sep_iff.1 (congrArg OsUnit.char hlossy)
    exact heq ▸ hu
  · exact fun h => ⟨sep, h, rfl⟩

/-- A name is shown after the directory it is joined to. -/
theorem lossy_join_name {name : OsString} (h : sep ∉ name) :
    lossy (join base name) = lossy (slashed base) ++ lossy name := by
  rw [join_of_not_isAbsolute (isAbsolute_of_notMem h), lossy, List.map_append]
  rfl

theorem sep_notMem_toOs (h : '/' ∉ text) : sep ∉ toOs text := by
  rwa [← sep_mem_lossy_iff, lossy_toOs]

/-- The text of a joined path is joined of the texts. -/
theorem relossy_join (base path : OsString) :
    relossy (join base path) = join (relossy base) (relossy path) := by
  rw [join, join, isAbsolute_relossy]
  split_ifs
  · rfl
  · rw [relossy_append, relossy_slashed]

/-- Joining paths is associative. -/
theorem join_assoc (a b c : OsString) : join (join a b) c = join a (join b c) := by
  -- An absolute path discards what it is joined to, and an empty one only adds a separator.
  by_cases hc : isAbsolute c = true
  · rw [join_of_isAbsolute hc, join_of_isAbsolute hc, join_of_isAbsolute hc]
  by_cases hb : isAbsolute b = true
  · have hne : b ≠ [] := ne_nil_of_isAbsolute hb
    have hbc : isAbsolute (join b c) = true := by
      rw [join_of_not_isAbsolute hc, isAbsolute_append (slashed_ne_nil hne), isAbsolute_slashed, hb]
    rw [join_of_isAbsolute hb, join_of_isAbsolute hbc]
  rw [join_of_not_isAbsolute hb, join_of_not_isAbsolute hc, join_of_not_isAbsolute hc]
  by_cases hnil : b = []
  · subst hnil
    rw [List.append_nil, slashed_slashed]
    change slashed a ++ c = join a c
    rw [join_of_not_isAbsolute hc]
  · have hbc : isAbsolute (slashed b ++ c) ≠ true := by
      rwa [isAbsolute_append (slashed_ne_nil hnil), isAbsolute_slashed]
    rw [join_of_not_isAbsolute hbc, slashed_append _ hnil, List.append_assoc]

end Join

/-! ## File systems -/

/-- A file system: the entries of each directory, told by the names that lead to it, with whether
    they are directories. -/
structure FileSystem where
  readDir : List OsString → Option (List (OsString × Bool))
  isDir_iff : ∀ dir name,
    (∃ entries, readDir dir = some entries ∧ (name, true) ∈ entries) ↔
      (readDir (dir ++ [name])).isSome
  sep_notMem : ∀ {dir entries}, readDir dir = some entries → ∀ entry ∈ entries, sep ∉ entry.1
  ne_nil : ∀ {dir entries}, readDir dir = some entries → ∀ entry ∈ entries, entry.1 ≠ []

namespace FileSystem

variable (fs : FileSystem)

/-- The directory that a component of a path leads to. -/
def enter (dir : List OsString) (component : OsString) : Option (List OsString) :=
  if component = [] ∨ component = toOs ['.'] then some dir
  else if component = toOs ['.', '.'] then some dir.dropLast
  else if (fs.readDir (dir ++ [component])).isSome then some (dir ++ [component])
  else none

/-- The directory that the components of a path lead to. -/
def walk (dir : List OsString) (path : OsString) : Option (List OsString) :=
  (path.splitOn sep).foldlM fs.enter dir

/-- The directory that a path leads to, from the working directory. -/
def resolve (cwd : List OsString) (path : OsString) : Option (List OsString) :=
  if path = [] then none
  else if isAbsolute path then fs.walk [] path
  else fs.walk cwd path

variable {fs} {cwd dir : List OsString} {base path : OsString}

theorem walk_nil : fs.walk dir [] = some dir := by
  rw [walk, splitOn_of_notMem (by simp)]
  rfl

theorem walk_append_sep (dir : List OsString) (base path : OsString) :
    fs.walk dir (base ++ sep :: path) = (fs.walk dir base).bind fun dir' => fs.walk dir' path := by
  rw [walk, splitOn_append, List.foldlM_append]
  rfl

/-- A path that is appended is walked from where the first one leads to. -/
theorem walk_slashed_append (dir : List OsString) (base path : OsString) :
    fs.walk dir (slashed base ++ path) = (fs.walk dir base).bind fun dir' => fs.walk dir' path := by
  rcases slashed_cases base with ⟨h, rfl | hlast⟩ | h
  · rw [h, walk_nil]
    rfl
  · -- The separator at the end of the base stands for an empty component.
    obtain ⟨base', rfl⟩ := List.getLast?_eq_some_iff.1 hlast
    rw [h, List.append_assoc, List.singleton_append, walk_append_sep, walk_append_sep]
    cases fs.walk dir base' with
    | none => rfl
    | some dir' =>
      rw [Option.bind_some, Option.bind_some, walk_nil]
      rfl
  · rw [h, List.append_assoc, List.singleton_append, walk_append_sep]

/-- A relative path that is joined to another one goes on from there. -/
theorem resolve_join (hbase : base ≠ []) (hpath : isAbsolute path ≠ true) :
    fs.resolve cwd (join base path) = (fs.resolve cwd base).bind fun dir => fs.walk dir path := by
  have hne : slashed base ++ path ≠ [] :=
    List.append_ne_nil_of_left_ne_nil (slashed_ne_nil hbase) _
  rw [join_of_not_isAbsolute hpath, resolve, resolve, if_neg hne, if_neg hbase,
    isAbsolute_append (slashed_ne_nil hbase), isAbsolute_slashed]
  split_ifs
  · exact walk_slashed_append [] base path
  · exact walk_slashed_append cwd base path

/-- A name leads to the directory of that name. -/
theorem walk_name {name : OsString} (hsep : sep ∉ name) (hnil : name ≠ [])
    (hdot : name ≠ toOs ['.']) (hdots : name ≠ toOs ['.', '.']) (dir : List OsString) :
    fs.walk dir name =
      if (fs.readDir (dir ++ [name])).isSome then some (dir ++ [name]) else none := by
  rw [walk, splitOn_of_notMem hsep]
  change (fs.enter dir name).bind some = _
  rw [enter, if_neg (not_or.2 ⟨hnil, hdot⟩), if_neg hdots, Option.bind_fun_some]

theorem ne_nil_of_resolve (h : fs.resolve cwd path = some dir) : path ≠ [] := by
  rintro rfl
  cases h

end FileSystem

/-! ## The directories of some files -/

/-- The entry of a directory that leads to a file, if the file is in the directory. -/
def entryOf (dir file : List OsString) : Option (OsString × Bool) :=
  if dir <+: file then
    match file.drop dir.length with
    | [] => none
    | name :: rest => some (name, !rest.isEmpty)
  else none

/-- An entry leads to a file if its name comes after the directory in the path of the file. -/
theorem entryOf_eq_some_iff {dir file : List OsString} {name : OsString} {isDir : Bool} :
    entryOf dir file = some (name, isDir) ↔
      ∃ rest, file = dir ++ name :: rest ∧ (!rest.isEmpty) = isDir := by
  constructor
  · intro h
    rw [entryOf] at h
    split_ifs at h with hdir
    obtain ⟨rest, rfl⟩ := hdir
    rw [List.drop_left] at h
    cases rest with
    | nil => cases h
    | cons name' rest =>
      cases h
      exact ⟨rest, rfl, rfl⟩
  · rintro ⟨rest, rfl, rfl⟩
    rw [entryOf, if_pos (List.prefix_append _ _), List.drop_left]

/-- There are entries under a name if it is that of a directory. -/
theorem isSome_entryOf_concat_iff {dir file : List OsString} {name : OsString} :
    (∃ entry, entryOf (dir ++ [name]) file = some entry) ↔
      entryOf dir file = some (name, true) := by
  rw [entryOf_eq_some_iff]
  constructor
  · rintro ⟨⟨name', isDir⟩, h⟩
    obtain ⟨rest, rfl, -⟩ := entryOf_eq_some_iff.1 h
    exact ⟨name' :: rest, by simp, rfl⟩
  · rintro ⟨rest, rfl, hrest⟩
    cases rest with
    | nil => cases hrest
    | cons name' rest =>
      exact ⟨(name', !rest.isEmpty), entryOf_eq_some_iff.2 ⟨rest, by simp, rfl⟩⟩

/-- The name of an entry is part of the path of a file. -/
theorem exists_file_of_mem {files : List (List OsString)} {dir : List OsString}
    {entry : OsString × Bool} (h : entry ∈ files.filterMap (entryOf dir)) :
    ∃ file ∈ files, entry.1 ∈ file := by
  obtain ⟨file, hfile, hentry⟩ := List.mem_filterMap.1 h
  obtain ⟨rest, rfl, -⟩ := entryOf_eq_some_iff.1 hentry
  exact ⟨_, hfile, List.mem_append_right _ List.mem_cons_self⟩

/-- The file system with some files, and the directories that they are in. -/
def FileSystem.ofFiles (files : List (List OsString))
    (h : ∀ file ∈ files, ∀ name ∈ file, sep ∉ name ∧ name ≠ []) : FileSystem where
  readDir dir :=
    let entries := files.filterMap (entryOf dir)
    if entries = [] then none else some entries
  isDir_iff dir name := by
    simp only [Option.ite_none_left_eq_some, Option.some.injEq, Option.isSome_ite',
      List.filterMap_eq_nil_iff]
    constructor
    -- A directory entry comes from a file below it, which then is an entry of the directory.
    · rintro ⟨entries, ⟨-, rfl⟩, hmem⟩ hnone
      obtain ⟨file, hfile, hentry⟩ := List.mem_filterMap.1 hmem
      obtain ⟨entry, hsome⟩ := isSome_entryOf_concat_iff.2 hentry
      rw [hnone file hfile] at hsome
      cases hsome
    · intro hsome
      simp only [not_forall] at hsome
      obtain ⟨file, hfile, hne⟩ := hsome
      have hentry := isSome_entryOf_concat_iff.1 (Option.ne_none_iff_exists'.1 hne)
      refine ⟨_, ⟨fun hnone => ?_, rfl⟩, List.mem_filterMap.2 ⟨file, hfile, hentry⟩⟩
      rw [hnone file hfile] at hentry
      cases hentry
  -- Names of entries are parts of paths of files.
  sep_notMem {dir entries} hread entry hmem := by
    obtain ⟨-, heq⟩ := Option.ite_none_left_eq_some.1 hread
    cases heq
    obtain ⟨file, hfile, hname⟩ := exists_file_of_mem hmem
    exact (h file hfile entry.1 hname).1
  ne_nil {dir entries} hread entry hmem := by
    obtain ⟨-, heq⟩ := Option.ite_none_left_eq_some.1 hread
    cases heq
    obtain ⟨file, hfile, hname⟩ := exists_file_of_mem hmem
    exact (h file hfile entry.1 hname).2

end Paths
