import Mathlib.Data.Finset.Max
import Mathlib.Data.List.Sort
import Nanoreth.Lib.Paths
import Nanoreth.PseudoPeer.Headers

/-!
# The latest block of a source of files

The blocks of a source of files are in directories of two levels, which are named by the numbers of
blocks, as are the files (`rmpPath`). The latest block is looked for from level to level: of the
entries that are named by numbers, the one with the largest number is entered
(`nameWithLargestNumber`).

* What a source has is a `Tree` of named entries. It `Stores` a set of blocks if it has the file of
  each of them, and entries that are named by numbers are named so for one of the blocks.
* The numbers of each level grow with the height (`Level.number_le`), so that the largest one at
  each level is that of the latest block, whichever way the entries are listed
  (`Tree.Stores.nameWithLargestNumber_eq`).
* In a bucket, the entries are listed with their whole keys, and a key is where the next level is
  listed from. The latest block is found.
* In a directory, the entries are listed with their whole paths too. But these are joined to the
  root once more. So the root is entered from itself, by its text; the latest block is found if this
  leads back to the root (`LocalBlockSource.Reenters`). It does if the root is an absolute path and
  text. A relative path leads elsewhere, where reading a directory panics.
-/

namespace Nanoreth

open Lines Partial Paths

/-- A text, as a list of characters. -/
abbrev Text := List Char

/-! ## Numbers in names -/

/-- The number that a text is in decimal, if it is one of 64 bits. -/
def parseU64 (text : Text) : Option UInt64 :=
  let digits := match text with
    -- A sign may come first; one of negative numbers may not.
    | '+' :: digits => digits
    | _ => text
  if digits ≠ [] ∧ digits.all Char.isDigit ∧ Nat.ofDigitChars 10 digits 0 < 2 ^ 64 then
    some (.ofNat (Nat.ofDigitChars 10 digits 0))
  else none

/-- The text before a suffix, if it has that. -/
def stripSuffix (suffix text : Text) : Option Text :=
  if suffix <:+ text then some (text.take (text.length - suffix.length)) else none

/-- The number that an entry is named by. -/
def stemNumber (isDir : Bool) (file : Text) : Option UInt64 :=
  if isDir then parseU64 file else (stripSuffix ".rmp.lz4".toList file).bind parseU64

/-- The number that the last name of a path is named by. -/
def fileNumber (isDir : Bool) (fileRaw : Text) : Option UInt64 :=
  let file := (stripSuffix ['/'] fileRaw).getD fileRaw
  stemNumber isDir (tail '/' file)

/-- The path with the largest number in its last name. -/
def nameWithLargestNumber (files : List Text) (isDir : Bool) : Option (UInt64 × Text) :=
  let files := files.filterMap fun fileRaw => (fileNumber isDir fileRaw).map (·, fileRaw)
  if files.isEmpty then none
  else (files.insertionSort fun file file' => file.1 ≤ file'.1).getLast?

theorem stripSuffix_append (suffix text : Text) :
    stripSuffix suffix (text ++ suffix) = some text := by
  rw [stripSuffix, if_pos (List.suffix_append _ _), List.length_append, Nat.add_sub_cancel,
    List.take_left]

theorem stripSuffix_eq_none {suffix text : Text} (h : ¬ suffix <:+ text) :
    stripSuffix suffix text = none :=
  if_neg h

/-- What is last in order is an element that all others are related to. -/
theorem exists_getLast?_insertionSort {α : Type} (r : α → α → Prop) [DecidableRel r] [Std.Refl r]
    [Std.Total r] [IsTrans α r] {xs : List α} {x : α} (hx : x ∈ xs) :
    ∃ y ∈ xs, (xs.insertionSort r).getLast? = some y ∧ r x y := by
  have hsorted : x ∈ xs.insertionSort r := (List.perm_insertionSort r xs).mem_iff.2 hx
  obtain ⟨before, y, hlast⟩ :=
    (List.eq_nil_or_concat (xs.insertionSort r)).resolve_left (List.ne_nil_of_mem hsorted)
  rw [List.concat_eq_append] at hlast
  have hy : y ∈ xs := by
    rw [← (List.perm_insertionSort r xs).mem_iff, hlast]
    exact List.mem_append_right _ List.mem_cons_self
  have hpairwise := List.pairwise_insertionSort r xs
  rw [hlast] at hpairwise hsorted ⊢
  refine ⟨y, hy, List.getLast?_concat, ?_⟩
  rcases List.mem_append.1 hsorted with hbefore | hself
  · exact (List.pairwise_append.1 hpairwise).2.2 x hbefore y (List.mem_singleton_self y)
  · rw [List.mem_singleton.1 hself]
    exact Std.Refl.refl y

/-- The path that is picked has a number, and no path has a larger one. -/
theorem nameWithLargestNumber_spec {files : List Text} {isDir : Bool} {n : UInt64} {file : Text}
    (hfile : file ∈ files) (hn : fileNumber isDir file = some n) :
    ∃ latest ∈ files, ∃ m, nameWithLargestNumber files isDir = some (m, latest) ∧
      fileNumber isDir latest = some m ∧ n ≤ m := by
  have : Std.Refl fun file file' : UInt64 × Text => file.1 ≤ file'.1 :=
    ⟨fun a => UInt64.le_refl a.1⟩
  have : Std.Total fun file file' : UInt64 × Text => file.1 ≤ file'.1 :=
    ⟨fun a b => UInt64.le_total a.1 b.1⟩
  have : IsTrans _ fun file file' : UInt64 × Text => file.1 ≤ file'.1 :=
    ⟨fun a b c => UInt64.le_trans⟩
  have hmem : (n, file) ∈ files.filterMap fun fileRaw =>
      (fileNumber isDir fileRaw).map (·, fileRaw) :=
    List.mem_filterMap.2 ⟨file, hfile, by rw [hn]; rfl⟩
  obtain ⟨⟨m, latest⟩, hlatest, hlast, hle⟩ :=
    exists_getLast?_insertionSort (fun file file' => file.1 ≤ file'.1) hmem
  obtain ⟨raw, hraw, hnumber⟩ := List.mem_filterMap.1 hlatest
  obtain ⟨k, hk, heq⟩ := Option.map_eq_some_iff.1 hnumber
  cases heq
  refine ⟨latest, hraw, m, ?_, hk, hle⟩
  rw [nameWithLargestNumber, if_neg, hlast]
  rw [List.isEmpty_iff]
  exact List.ne_nil_of_mem hmem

/-- A text that a name can be appended to: it is empty, or it has a separator at its end. -/
def IsDirText (base : Text) : Prop := base = [] ∨ ∃ base', base = base' ++ ['/']

theorem isDirText_unlines (path : List Text) : IsDirText (unlines '/' path) := by
  rcases List.eq_nil_or_concat path with rfl | ⟨path', name, rfl⟩
  · exact .inl rfl
  · exact .inr ⟨unlines '/' path' ++ name, by rw [List.concat_eq_append, unlines_concat]⟩

section Name

variable {base name : Text} {isDir : Bool}

/-- The name is what comes after the last separator. -/
theorem tail_append_name (hbase : IsDirText base) (hname : '/' ∉ name) :
    tail '/' (base ++ name) = name := by
  rcases hbase with rfl | ⟨base', rfl⟩
  · exact tail_of_notMem hname
  · rw [List.append_assoc, List.singleton_append, tail_append, tail_of_notMem hname]

/-- The number of a file is that of its name. -/
theorem fileNumber_append (hbase : IsDirText base) (hname : '/' ∉ name) (hnil : name ≠ []) :
    fileNumber isDir (base ++ name) = stemNumber isDir name := by
  have hsuffix : ¬ ['/'] <:+ base ++ name := by
    rw [List.singleton_suffix_iff_getLast?_eq_some, List.getLast?_append,
      List.getLast?_eq_some_getLast hnil, Option.some_or, Option.some.injEq]
    intro heq
    exact hname (heq ▸ List.getLast_mem hnil)
  rw [fileNumber, stripSuffix_eq_none hsuffix, Option.getD_none, tail_append_name hbase hname]

/-- The number of a directory is that of its name, without the separator. -/
theorem fileNumber_append_sep (hbase : IsDirText base) (hname : '/' ∉ name) :
    fileNumber isDir (base ++ name ++ ['/']) = stemNumber isDir name := by
  rw [fileNumber, stripSuffix_append, Option.getD_some, tail_append_name hbase hname]

end Name

/-! ## Levels -/

/-- The levels of a source: two of directories, and one of files. -/
inductive Level
  | first
  | second
  | third
  deriving DecidableEq

/-- A number in decimal. -/
def digits (n : UInt64) : Text := Nat.toDigits 10 n.toNat

namespace Level

/-- Whether the entries of a level are directories. -/
def isDir : Level → Bool
  | third => false
  | _ => true

/-- The number in the name of the entry of a level that leads to a block. -/
def number : Level → UInt64 → UInt64
  | first, height => (height - 1) / 1000000 * 1000000
  | second, height => (height - 1) / 1000 * 1000
  | third, height => height

/-- The name of the entry of a level that leads to a block. -/
def name (level : Level) (height : UInt64) : Text :=
  if level.isDir then digits (level.number height)
  else digits (level.number height) ++ ".rmp.lz4".toList

theorem name_of_isDir {level : Level} (h : level.isDir = true) (height : UInt64) :
    level.name height = digits (level.number height) :=
  if_pos h

/-- The directories that lead to the entry of a level. -/
def path : Level → UInt64 → List Text
  | first, _ => []
  | second, height => [first.name height]
  | third, height => [first.name height, second.name height]

end Level

variable {n height : UInt64} {level : Level}

theorem isDigit_of_mem_digits {c : Char} (h : c ∈ digits n) : c.isDigit = true :=
  Nat.isDigit_of_mem_toDigits (by decide) (by decide) h

theorem digits_ne_nil (n : UInt64) : digits n ≠ [] := Nat.toDigits_ne_nil

theorem notMem_digits {c : Char} (hc : c.isDigit = false) : c ∉ digits n := by
  intro h
  rw [isDigit_of_mem_digits h] at hc
  cases hc

/-- A number is read back from its digits. -/
theorem parseU64_digits (n : UInt64) : parseU64 (digits n) = some n := by
  have hvalue : Nat.ofDigitChars 10 (digits n) 0 = n.toNat :=
    Nat.ofDigitChars_toDigits (by decide) (by decide)
  have hall : (digits n).all Char.isDigit = true :=
    List.all_eq_true.2 fun _ => isDigit_of_mem_digits
  have hplus : '+' ∉ digits n := notMem_digits rfl
  rw [parseU64, hvalue, if_pos ⟨digits_ne_nil n, hall, n.toNat_lt⟩, UInt64.ofNat_toNat]
  intro rest heq
  exact hplus (heq ▸ List.mem_cons_self)

namespace Level

/-- The number is read back from the name of a level. -/
theorem stemNumber_name (level : Level) (height : UInt64) :
    stemNumber level.isDir (level.name height) = some (level.number height) := by
  by_cases h : level.isDir = true
  · rw [stemNumber, name, if_pos h, if_pos h, parseU64_digits]
  · rw [stemNumber, name, if_neg h, if_neg h, stripSuffix_append, Option.bind_some,
      parseU64_digits]

theorem name_ne_nil (level : Level) (height : UInt64) : level.name height ≠ [] := by
  rw [name]
  split_ifs
  · exact digits_ne_nil _
  · exact List.append_ne_nil_of_left_ne_nil (digits_ne_nil _) _

theorem sep_notMem_name (level : Level) (height : UInt64) : '/' ∉ level.name height := by
  have hdigits : '/' ∉ digits (level.number height) := notMem_digits rfl
  rw [name]
  split_ifs
  · exact hdigits
  · exact fun h => (List.mem_append.1 h).elim hdigits (by decide)

theorem sep_notMem_path (level : Level) (height : UInt64) :
    ∀ name ∈ level.path height, '/' ∉ name := by
  cases level with
  | first => simp [path]
  | second => simp [path, sep_notMem_name]
  | third => simp [path, sep_notMem_name]

/-- Entries of a level with the same number have the same name. -/
theorem name_eq_of_number_eq {height height' : UInt64}
    (h : level.number height = level.number height') : level.name height = level.name height' := by
  rw [name, name, h]

/-- The division of heights does not underflow. -/
theorem toNat_floor {height d : UInt64} (hpos : 1 ≤ height) :
    ((height - 1) / d * d).toNat = (height.toNat - 1) / d.toNat * d.toNat := by
  have hle : (height.toNat - 1) / d.toNat * d.toNat ≤ height.toNat - 1 := Nat.div_mul_le_self _ _
  have hlt := height.toNat_lt
  rw [UInt64.toNat_mul, UInt64.toNat_div, UInt64.toNat_sub_of_le _ _ hpos]
  exact Nat.mod_eq_of_lt (by simp only [UInt64.toNat_one]; omega)

/-- The numbers of a level grow with the height. -/
theorem number_le {height latest : UInt64} (hpos : 1 ≤ height) (hle : height ≤ latest) :
    level.number height ≤ level.number latest := by
  have hpos' : 1 ≤ latest := UInt64.le_trans hpos hle
  have hsub : height.toNat - 1 ≤ latest.toNat - 1 :=
    Nat.sub_le_sub_right (UInt64.le_iff_toNat_le.1 hle) 1
  have hfloor (d : UInt64) : (height - 1) / d * d ≤ (latest - 1) / d * d := by
    rw [UInt64.le_iff_toNat_le, toNat_floor hpos, toNat_floor hpos']
    exact Nat.mul_le_mul_right _ (Nat.div_le_div_right hsub)
  cases level with
  | first => exact hfloor 1000000
  | second => exact hfloor 1000
  | third => exact hle

end Level

theorem toList_toString (n : UInt64) : (toString n).toList = digits n := by
  change (toString n.toNat).toList = _
  rw [Nat.toString_eq_repr, Nat.toList_repr]
  rfl

/-- The path of a block is that of its levels. -/
theorem toList_rmpPath (height : UInt64) :
    (rmpPath height).toList =
      unlines '/' (Level.third.path height) ++ Level.third.name height := by
  have htext (s : String) : toString s = s := rfl
  simp [rmpPath, Level.path, Level.name, Level.number, Level.isDir, toList_toString, htext]

theorem lines_rmpPath (height : UInt64) :
    lines '/' (rmpPath height).toList = Level.third.path height := by
  rw [toList_rmpPath, lines_unlines_append (Level.sep_notMem_path _ _),
    lines_of_notMem (Level.sep_notMem_name _ _), List.append_nil]

theorem tail_rmpPath (height : UInt64) :
    tail '/' (rmpPath height).toList = Level.third.name height := by
  rw [toList_rmpPath]
  exact tail_append_name (isDirText_unlines _) (Level.sep_notMem_name _ _)

/-- A file without the extension has no number. -/
theorem stemNumber_digits (n : UInt64) : stemNumber false (digits n) = none := by
  have hsuffix : ¬ ".rmp.lz4".toList <:+ digits n := by
    rintro ⟨text, heq⟩
    have hdot : '.' ∉ digits n := notMem_digits rfl
    rw [← heq] at hdot
    exact hdot (List.mem_append_right _ (by decide))
  change (stripSuffix _ _).bind _ = _
  rw [stripSuffix_eq_none hsuffix, Option.bind_none]

/-! ## Trees of entries -/

/-- What a source has: the entries of its directories, with whether they are directories. A
    directory is told by the names that lead to it. -/
structure Tree where
  has : List Text → Bool → Text → Prop
  closed : ∀ path name isDir name', has (path ++ [name]) isDir name' → has path true name

namespace Tree

variable {T : Tree} {S : Finset UInt64}

/-- A source has the files of some blocks, and the other entries are not named by numbers, where
    blocks are looked for. -/
structure Stores (T : Tree) (S : Finset UInt64) : Prop where
  file : ∀ height ∈ S,
    T.has (lines '/' (rmpPath height).toList) false (tail '/' (rmpPath height).toList)
  number : ∀ height ∈ S, ∀ (level : Level) name n,
    T.has (level.path height) level.isDir name → stemNumber level.isDir name = some n →
      ∃ height' ∈ S, name = level.name height'

/-- A list of the entries of a directory, each of which is rendered as a text. -/
structure Lists (T : Tree) (path : List Text) (isDir : Bool) (render : Text → Text)
    (files : List Text) : Prop where
  mem : ∀ name, T.has path isDir name → render name ∈ files
  number_render : ∀ name, T.has path isDir name → name ≠ [] →
    fileNumber isDir (render name) = stemNumber isDir name
  exists_name : ∀ file ∈ files, ∀ n, fileNumber isDir file = some n →
    ∃ name, T.has path isDir name ∧ file = render name ∧ stemNumber isDir name = some n

theorem Stores.has_name (h : T.Stores S) (hheight : height ∈ S) (level : Level) :
    T.has (level.path height) level.isDir (level.name height) := by
  have hthird : T.has [Level.first.name height, Level.second.name height] false
      (Level.third.name height) := by
    have hfile := h.file height hheight
    rwa [lines_rmpPath, tail_rmpPath] at hfile
  have hsecond : T.has [Level.first.name height] true (Level.second.name height) :=
    T.closed [_] _ _ _ hthird
  cases level with
  | first => exact T.closed [] _ _ _ hsecond
  | second => exact hsecond
  | third => exact hthird

/-- At each level, the entry with the largest number is the one that leads to the latest block. -/
theorem Stores.nameWithLargestNumber_eq (h : T.Stores S) (hpos : ∀ height ∈ S, 1 ≤ height)
    {latest : UInt64} (hlatest : latest ∈ S) (hmax : ∀ height ∈ S, height ≤ latest)
    (level : Level) {render : Text → Text} {files : List Text}
    (hlists : T.Lists (level.path latest) level.isDir render files) :
    nameWithLargestNumber files level.isDir =
      some (level.number latest, render (level.name latest)) := by
  have hname := h.has_name hlatest level
  have hnumber := hlists.number_render _ hname (Level.name_ne_nil _ _)
  rw [Level.stemNumber_name] at hnumber
  obtain ⟨file, hfile, m, heq, hm, hle⟩ :=
    nameWithLargestNumber_spec (hlists.mem _ hname) hnumber
  obtain ⟨name, hhas, rfl, hstem⟩ := hlists.exists_name file hfile m hm
  obtain ⟨height', hheight', rfl⟩ := h.number latest hlatest level name m hhas hstem
  -- The number that is picked is that of a block, so it is at most that of the latest one.
  rw [Level.stemNumber_name, Option.some.injEq] at hstem
  have hge : m ≤ level.number latest :=
    hstem ▸ Level.number_le (hpos height' hheight') (hmax height' hheight')
  have hlargest : level.number latest = m := UInt64.le_antisymm hle hge
  rw [heq, Level.name_eq_of_number_eq (hstem.trans hlargest.symm), hlargest]

end Tree

/-! ## Buckets -/

/-- What is read of the answer to a request for a list of objects. -/
structure ListObjectsOutput where
  commonPrefixes : Option (List (Option Text))
  contents : Option (List (Option Text))

/-- The answers of a bucket to requests for the objects that start with some text, up to the next
    separator. -/
abbrev S3Client := Text → Option ListObjectsOutput

/-- The value, which has to be there. -/
def unwrap {α : Type} : Option α → Except Halt α
  | some a => .ok a
  | none => .error (.panic "called `Option::unwrap()` on a `None` value")

theorem mapM_unwrap {α : Type} (xs : List α) : (xs.map some).mapM unwrap = .ok xs := by
  induction xs with
  | nil => rfl
  | cons x xs ih =>
    rw [List.map_cons, List.mapM_cons, ih]
    rfl

namespace S3BlockSource

/-- The key with the largest number at a level of the bucket. -/
def pickPathWithHighestNumber (client : S3Client) (dir : Text) (isDir : Bool) :
    OptionT (Except Halt) (UInt64 × Text) := do
  let response ← OptionT.mk (.ok (client dir))
  let objects ← OptionT.mk (.ok (if isDir then response.commonPrefixes else response.contents))
  let files ← OptionT.lift (objects.mapM unwrap)
  OptionT.mk (.ok (nameWithLargestNumber files isDir))

/-- Descends by the largest number of each level. -/
def findLatestBlockNumber (client : S3Client) : OptionT (Except Halt) UInt64 := do
  let (_, firstLevel) ← pickPathWithHighestNumber client [] true
  let (_, secondLevel) ← pickPathWithHighestNumber client firstLevel true
  let (blockNumber, _) ← pickPathWithHighestNumber client secondLevel false
  return blockNumber

/-- A text up to the first separator that comes after `dir` in a key. -/
def IsCommonPrefix (keys : List Text) (dir text : Text) : Prop :=
  ∃ name, '/' ∉ name ∧ text = dir ++ name ++ ['/'] ∧ ∃ rest, text ++ rest ∈ keys

/-- A key with no separator after `dir`. -/
def IsContent (keys : List Text) (dir key : Text) : Prop :=
  ∃ name, '/' ∉ name ∧ key = dir ++ name ∧ key ∈ keys

/-- The answers have all entries of a level, in any order. -/
def ListsAll (client : S3Client) (keys : List Text) : Prop :=
  ∀ dir, ∃ response, ∃ commonPrefixes contents : List Text, client dir = some response ∧
    response.commonPrefixes.getD [] = commonPrefixes.map some ∧
    response.contents.getD [] = contents.map some ∧
    (∀ text, text ∈ commonPrefixes ↔ IsCommonPrefix keys dir text) ∧
    ∀ key, key ∈ contents ↔ IsContent keys dir key

/-- The entries of a bucket: the names between the separators of its keys. -/
def tree (keys : List Text) : Tree where
  has path isDir name := ∃ key ∈ keys,
    if isDir then path ++ [name] <+: lines '/' key else lines '/' key = path ∧ tail '/' key = name
  closed := by
    rintro path name isDir name' ⟨key, hkey, h⟩
    refine ⟨key, hkey, ?_⟩
    cases isDir with
    | false => exact h.1 ▸ List.prefix_rfl
    | true => exact (List.prefix_append _ _).trans h

/-- The common beginning of a key, up to the first separator that comes after `dir`. -/
def commonPrefixOf (dir key : Text) : Option Text :=
  if dir <+: key ∧ '/' ∈ key.drop dir.length then
    some (dir ++ readUntil '/' (key.drop dir.length))
  else none

/-- A bucket that answers with all entries of a level. -/
def listObjects (keys : List Text) : S3Client := fun dir =>
  some {
    commonPrefixes := some ((keys.filterMap (commonPrefixOf dir)).map some)
    contents := some ((keys.filter fun key =>
      decide (dir <+: key ∧ '/' ∉ key.drop dir.length)).map some) }

variable {client : S3Client} {keys : List Text} {path : List Text} {name dir : Text}

/-- A key has a common part with the directory up to the next separator. -/
theorem commonPrefixOf_eq_some_iff {key text : Text} :
    commonPrefixOf dir key = some text ↔
      ∃ name, '/' ∉ name ∧ text = dir ++ name ++ ['/'] ∧ ∃ rest, key = text ++ rest := by
  constructor
  · intro h
    rw [commonPrefixOf, Option.ite_none_right_eq_some] at h
    obtain ⟨⟨⟨after, rfl⟩, hsep⟩, htext⟩ := h
    rw [List.drop_left] at hsep htext
    obtain ⟨name, rest, rfl, hname⟩ := List.eq_append_cons_of_mem hsep
    rw [readUntil_append_cons hname, Option.some.injEq] at htext
    subst htext
    exact ⟨name, hname, by simp, rest, by simp⟩
  · rintro ⟨name, hname, rfl, rest, rfl⟩
    have hkey : dir ++ name ++ ['/'] ++ rest = dir ++ (name ++ '/' :: rest) := by simp
    rw [commonPrefixOf, hkey, List.drop_left, readUntil_append_cons hname,
      if_pos ⟨List.prefix_append _ _, List.mem_append_right _ List.mem_cons_self⟩,
      List.append_assoc]

/-- Listing the objects this way lists all of them. -/
theorem listObjects_listsAll (keys : List Text) : ListsAll (listObjects keys) keys := by
  refine fun dir => ⟨_, _, _, rfl, rfl, rfl, fun text => ?_, fun key => ?_⟩
  · rw [List.mem_filterMap]
    constructor
    · rintro ⟨key, hkey, h⟩
      obtain ⟨name, hname, htext, rest, rfl⟩ := commonPrefixOf_eq_some_iff.1 h
      exact ⟨name, hname, htext, rest, hkey⟩
    · rintro ⟨name, hname, htext, rest, hkey⟩
      exact ⟨_, hkey, commonPrefixOf_eq_some_iff.2 ⟨name, hname, htext, rest, rfl⟩⟩
  · rw [List.mem_filter, decide_eq_true_iff]
    constructor
    · rintro ⟨hkey, ⟨name, rfl⟩, hname⟩
      rw [List.drop_left] at hname
      exact ⟨name, hname, rfl, hkey⟩
    · rintro ⟨name, hname, rfl, hkey⟩
      refine ⟨hkey, List.prefix_append _ _, ?_⟩
      rwa [List.drop_left]

/-- A directory is there if a key goes through it. -/
theorem tree_has_dir_iff (hpath : ∀ name ∈ path, '/' ∉ name) :
    (tree keys).has path true name ↔
      '/' ∉ name ∧ ∃ rest, unlines '/' path ++ name ++ ['/'] ++ rest ∈ keys := by
  have happend (rest : Text) :
      unlines '/' path ++ name ++ ['/'] ++ rest = unlines '/' (path ++ [name]) ++ rest := by
    rw [unlines_concat]
  simp only [happend]
  constructor
  · rintro ⟨key, hkey, names, hnames⟩
    have hmem : name ∈ lines '/' key := by
      rw [← hnames]
      simp
    refine ⟨notMem_of_mem_lines key name hmem, unlines '/' names ++ tail '/' key, ?_⟩
    rwa [← List.append_assoc, ← unlines_append, hnames, unlines_lines_append_tail]
  · rintro ⟨hname, rest, hkey⟩
    have hnames : ∀ name' ∈ path ++ [name], '/' ∉ name' := by
      simpa [or_imp, forall_and] using ⟨hpath, hname⟩
    refine ⟨_, hkey, lines '/' rest, ?_⟩
    rw [lines_unlines_append hnames]

/-- A file is there if a key is its path. -/
theorem tree_has_file_iff (hpath : ∀ name ∈ path, '/' ∉ name) :
    (tree keys).has path false name ↔ '/' ∉ name ∧ unlines '/' path ++ name ∈ keys := by
  constructor
  · rintro ⟨key, hkey, rfl, rfl⟩
    refine ⟨notMem_tail key, ?_⟩
    rwa [unlines_lines_append_tail]
  · rintro ⟨hname, hkey⟩
    refine ⟨_, hkey, ?_, tail_append_name (isDirText_unlines _) hname⟩
    rw [lines_unlines_append hpath, lines_of_notMem hname, List.append_nil]

/-- The pick is the largest number among what is listed. -/
theorem pick_eq (isDir : Bool) {response : ListObjectsOutput} {files : List Text}
    (hclient : client dir = some response)
    (hfiles : (if isDir then response.commonPrefixes else response.contents).getD [] =
      files.map some) :
    pickPathWithHighestNumber client dir isDir =
      OptionT.mk (.ok (nameWithLargestNumber files isDir)) := by
  rw [pickPathWithHighestNumber, hclient, mk_some_bind]
  cases hobjects : (if isDir then response.commonPrefixes else response.contents) with
  | none =>
    -- An answer without the field has no entries.
    rw [hobjects, Option.getD_none, eq_comm, List.map_eq_nil_iff] at hfiles
    rw [mk_none_bind, hfiles]
    rfl
  | some objects =>
    rw [hobjects, Option.getD_some] at hfiles
    rw [mk_some_bind, hfiles, mapM_unwrap, lift_ok_bind]

/-- The text that an entry of a level is listed with. -/
def render (level : Level) (height : UInt64) (name : Text) : Text :=
  if level.isDir then unlines '/' (level.path height) ++ name ++ ['/']
  else unlines '/' (level.path height) ++ name

theorem render_dir (h : level.isDir = true) (name : Text) :
    render level height name = unlines '/' (level.path height ++ [name]) := by
  rw [render, if_pos h, unlines_concat]

/-- The common parts are the directories of a level. -/
theorem lists_dirs {files : List Text} (hdir : level.isDir = true)
    (hfiles : ∀ text, text ∈ files ↔
      IsCommonPrefix keys (unlines '/' (level.path height)) text) :
    (tree keys).Lists (level.path height) true (render level height) files := by
  have hpath := level.sep_notMem_path height
  have hrender :
      render level height = fun name => unlines '/' (level.path height) ++ name ++ ['/'] :=
    funext fun name => if_pos hdir
  rw [hrender]
  refine ⟨fun name h => ?_, fun name h _ => ?_, fun file hfile n hn => ?_⟩
  · obtain ⟨hname, rest⟩ := (tree_has_dir_iff hpath).1 h
    exact (hfiles _).2 ⟨name, hname, rfl, rest⟩
  · exact fileNumber_append_sep (isDirText_unlines _) ((tree_has_dir_iff hpath).1 h).1
  · obtain ⟨name, hname, rfl, rest⟩ := (hfiles _).1 hfile
    rw [fileNumber_append_sep (isDirText_unlines _) hname] at hn
    exact ⟨name, (tree_has_dir_iff hpath).2 ⟨hname, rest⟩, rfl, hn⟩

/-- The contents are the files of the last level. -/
theorem lists_files {files : List Text}
    (hfiles : ∀ key, key ∈ files ↔ IsContent keys (unlines '/' (Level.third.path height)) key) :
    (tree keys).Lists (Level.third.path height) false (render .third height) files := by
  have hpath := Level.third.sep_notMem_path height
  refine ⟨fun name h => ?_, fun name h hnil => ?_, fun file hfile n hn => ?_⟩
  · obtain ⟨hname, hkey⟩ := (tree_has_file_iff hpath).1 h
    exact (hfiles _).2 ⟨name, hname, rfl, hkey⟩
  · exact fileNumber_append (isDirText_unlines _) ((tree_has_file_iff hpath).1 h).1 hnil
  · obtain ⟨name, hname, rfl, hkey⟩ := (hfiles _).1 hfile
    by_cases hnil : name = []
    · -- The directory itself may be a key. It is not named as a file.
      have htext : unlines '/' (Level.third.path height) ++ name =
          unlines '/' (Level.second.path height) ++ Level.second.name height ++ ['/'] := by
        simp [Level.path, hnil]
      rw [htext, fileNumber_append_sep (isDirText_unlines _) (Level.sep_notMem_name _ _)] at hn
      rw [show Level.second.name height = digits (Level.second.number height) from rfl,
        stemNumber_digits] at hn
      cases hn
    · rw [fileNumber_append (isDirText_unlines _) hname hnil] at hn
      exact ⟨name, (tree_has_file_iff hpath).2 ⟨hname, hkey⟩, rfl, hn⟩

/-- Every level is listed. -/
theorem exists_lists (hclient : ListsAll client keys) (level : Level) (height : UInt64) :
    ∃ files, pickPathWithHighestNumber client (unlines '/' (level.path height)) level.isDir =
        OptionT.mk (.ok (nameWithLargestNumber files level.isDir)) ∧
      (tree keys).Lists (level.path height) level.isDir (render level height) files := by
  obtain ⟨response, commonPrefixes, contents, hresponse, hprefixes, hcontents, hdirs, hkeys⟩ :=
    hclient (unlines '/' (level.path height))
  cases level with
  | first => exact ⟨commonPrefixes, pick_eq true hresponse hprefixes, lists_dirs rfl hdirs⟩
  | second => exact ⟨commonPrefixes, pick_eq true hresponse hprefixes, lists_dirs rfl hdirs⟩
  | third => exact ⟨contents, pick_eq false hresponse hcontents, lists_files hkeys⟩

/-- The picks of the three levels give the number. -/
theorem find_of_picks {firstLevel secondLevel thirdLevel : Text} {first second number : UInt64}
    (h₁ : pickPathWithHighestNumber client [] true = OptionT.mk (.ok (some (first, firstLevel))))
    (h₂ : pickPathWithHighestNumber client firstLevel true =
      OptionT.mk (.ok (some (second, secondLevel))))
    (h₃ : pickPathWithHighestNumber client secondLevel false =
      OptionT.mk (.ok (some (number, thirdLevel)))) :
    findLatestBlockNumber client = pure number := by
  rw [findLatestBlockNumber, h₁, mk_some_bind]
  dsimp only
  rw [h₂, mk_some_bind]
  dsimp only
  rw [h₃, mk_some_bind]

/-- In a bucket, the latest block is found. -/
theorem findLatestBlockNumber_eq {S : Finset UInt64} (hclient : ListsAll client keys)
    (h : (tree keys).Stores S) (hpos : ∀ height ∈ S, 1 ≤ height) {latest : UInt64}
    (hlatest : latest ∈ S) (hmax : ∀ height ∈ S, height ≤ latest) :
    findLatestBlockNumber client = pure latest := by
  have hpick (level : Level) :
      pickPathWithHighestNumber client (unlines '/' (level.path latest)) level.isDir =
        OptionT.mk (.ok (some (level.number latest, render level latest (level.name latest)))) := by
    obtain ⟨files, hfiles, hlists⟩ := exists_lists hclient level latest
    rw [hfiles, h.nameWithLargestNumber_eq hpos hlatest hmax level hlists]
  -- The text of an entry is where the next level is listed from.
  have hfirst : render .first latest (Level.first.name latest) =
      unlines '/' (Level.second.path latest) := render_dir rfl _
  have hsecond : render .second latest (Level.second.name latest) =
      unlines '/' (Level.third.path latest) := render_dir rfl _
  have h₁ := hpick .first
  have h₂ := hpick .second
  have h₃ := hpick .third
  rw [hfirst] at h₁
  rw [hsecond] at h₂
  exact find_of_picks h₁ h₂ h₃

end S3BlockSource

/-! ## Directories -/

namespace LocalBlockSource

section Source

variable (fs : FileSystem) (cwd : List OsString)

/-- The path with the largest number in a directory, as a text. -/
def pickPathWithHighestNumber (dir : OsString) (isDir : Bool) :
    OptionT (Except Halt) (UInt64 × Text) :=
  match (fs.resolve cwd dir).bind fs.readDir with
  | none => OptionT.mk (.error (.panic "called `Result::unwrap()` on an `Err` value"))
  | some entries =>
    let files := (entries.filter (·.2 == isDir)).map fun entry => lossy (join dir entry.1)
    OptionT.mk (.ok (nameWithLargestNumber files isDir))

/-- Descends likewise. The paths that are picked are joined to the root again. -/
def findLatestBlockNumber (dir : OsString) : OptionT (Except Halt) UInt64 := do
  let (_, firstLevel) ← pickPathWithHighestNumber fs cwd dir true
  let (_, secondLevel) ← pickPathWithHighestNumber fs cwd (join dir (toOs firstLevel)) true
  let (blockNumber, _) ← pickPathWithHighestNumber fs cwd (join dir (toOs secondLevel)) false
  return blockNumber

/-- The text of the root leads from the root to the root again. -/
def Reenters (dir : OsString) : Prop :=
  fs.resolve cwd (join dir (relossy dir)) = fs.resolve cwd dir

end Source

/-- The entries of the directories in a directory, by their texts. -/
def tree (fs : FileSystem) (root : List OsString) : Tree where
  has path isDir name := ∃ entries, fs.readDir (root ++ path.map toOs) = some entries ∧
    ∃ entry ∈ entries, lossy entry.1 = name ∧ entry.2 = isDir
  closed := by
    rintro path name isDir name' ⟨entries, hread, -⟩
    rw [List.map_append, List.map_singleton, ← List.append_assoc] at hread
    obtain ⟨entries', hread', hmem⟩ :=
      (fs.isDir_iff (root ++ path.map toOs) (toOs name)).2 (by rw [hread, Option.isSome_some])
    exact ⟨entries', hread', (toOs name, true), hmem, lossy_toOs name, rfl⟩

variable {fs : FileSystem} {cwd root : List OsString} {dir base : OsString} {S : Finset UInt64}
  {latest : UInt64}

theorem isDirText_slashed (base : OsString) : IsDirText (lossy (slashed base)) := by
  rcases slashed_cases base with ⟨h, rfl | hlast⟩ | h
  · exact .inl rfl
  · obtain ⟨base', rfl⟩ := List.getLast?_eq_some_iff.1 hlast
    rw [h]
    exact .inr ⟨lossy base', List.map_append⟩
  · rw [h]
    exact .inr ⟨lossy base, List.map_append⟩

/-- The entries of a directory are those of the tree. -/
theorem lists_entries {path : List Text} {isDir : Bool} {entries : List (OsString × Bool)}
    (hread : fs.readDir (root ++ path.map toOs) = some entries) (base : OsString) :
    (tree fs root).Lists path isDir (fun name => lossy (slashed base) ++ name)
      ((entries.filter (·.2 == isDir)).map fun entry => lossy (join base entry.1)) := by
  -- Names of entries have no separator, so that the joined path ends with the name.
  have hsep {entry} (h : entry ∈ entries) : sep ∉ entry.1 := fs.sep_notMem hread entry h
  have hnumber {entry} (h : entry ∈ entries) :
      fileNumber isDir (lossy (slashed base) ++ lossy entry.1) =
        stemNumber isDir (lossy entry.1) := by
    have hnil : lossy entry.1 ≠ [] := by
      simpa [lossy] using fs.ne_nil hread entry h
    exact fileNumber_append (isDirText_slashed base) (sep_mem_lossy_iff.not.2 (hsep h)) hnil
  constructor
  · rintro name ⟨entries', hread', entry, hentry, rfl, rfl⟩
    cases hread.symm.trans hread'
    exact List.mem_map.2 ⟨entry, List.mem_filter.2 ⟨hentry, beq_self_eq_true _⟩,
      lossy_join_name (hsep hentry)⟩
  · rintro name ⟨entries', hread', entry, hentry, rfl, -⟩ -
    cases hread.symm.trans hread'
    exact hnumber hentry
  · intro file hfile n hn
    obtain ⟨entry, hentry, rfl⟩ := List.mem_map.1 hfile
    obtain ⟨hmem, hdir⟩ := List.mem_filter.1 hentry
    rw [lossy_join_name (hsep hmem)] at hn ⊢
    rw [hnumber hmem] at hn
    exact ⟨lossy entry.1, ⟨entries, hread, entry, hmem, rfl, beq_iff_eq.1 hdir⟩, rfl, hn⟩

/-- From a path to the directory of a level, the entry of the latest block is picked. -/
theorem pick_eq (h : (tree fs root).Stores S) (hpos : ∀ height ∈ S, 1 ≤ height)
    (hlatest : latest ∈ S) (hmax : ∀ height ∈ S, height ≤ latest) (level : Level)
    (hbase : fs.resolve cwd base = some (root ++ (level.path latest).map toOs)) :
    pickPathWithHighestNumber fs cwd base level.isDir =
      OptionT.mk (.ok (some (level.number latest,
        lossy (join base (toOs (level.name latest)))))) := by
  obtain ⟨entries, hread, -⟩ := h.has_name hlatest level
  have hname : sep ∉ toOs (level.name latest) := sep_notMem_toOs (level.sep_notMem_name latest)
  rw [pickPathWithHighestNumber, hbase, Option.bind_some, hread]
  dsimp only
  rw [h.nameWithLargestNumber_eq hpos hlatest hmax level (lists_entries hread base),
    lossy_join_name hname, lossy_toOs]

/-- The pick panics if the directory cannot be read. -/
theorem pick_of_resolve_eq_none {isDir : Bool} (h : fs.resolve cwd base = none) :
    pickPathWithHighestNumber fs cwd base isDir =
      OptionT.mk (.error (.panic "called `Result::unwrap()` on an `Err` value")) := by
  rw [pickPathWithHighestNumber, h]
  rfl

/-- The directory of a number in a directory. -/
theorem resolve_join_digits {n : UInt64} (hbase : base ≠ []) :
    fs.resolve cwd (join base (toOs (digits n))) = (fs.resolve cwd base).bind fun dir' =>
      if (fs.readDir (dir' ++ [toOs (digits n)])).isSome then some (dir' ++ [toOs (digits n)])
      else none := by
  have hsep : sep ∉ toOs (digits n) := sep_notMem_toOs (notMem_digits rfl)
  have hnil : toOs (digits n) ≠ [] := by
    simpa [toOs] using digits_ne_nil n
  have hdot {text : Text} (hmem : '.' ∈ text) : toOs (digits n) ≠ toOs text := by
    intro heq
    have htext : digits n = text := by rw [← lossy_toOs (digits n), heq, lossy_toOs]
    exact notMem_digits rfl (htext ▸ hmem)
  have hwalk (dir' : List OsString) : fs.walk dir' (toOs (digits n)) = _ :=
    FileSystem.walk_name hsep hnil (hdot List.mem_cons_self) (hdot List.mem_cons_self) dir'
  rw [FileSystem.resolve_join hbase (isAbsolute_of_notMem hsep)]
  exact congrArg _ (funext hwalk)

/-- The root is the directory of the first level. -/
theorem resolve_first (hbase : fs.resolve cwd base = some root) (latest : UInt64) :
    fs.resolve cwd base = some (root ++ (Level.first.path latest).map toOs) := by
  rw [hbase]
  exact congrArg some (List.append_nil root).symm

/-- The path of the next level is found from that of the last one. -/
theorem resolve_join_name (h : (tree fs root).Stores S) (hlatest : latest ∈ S) (level next : Level)
    (hdir : level.isDir = true)
    (hnext : next.path latest = level.path latest ++ [level.name latest])
    (hbase : fs.resolve cwd base = some (root ++ (level.path latest).map toOs)) :
    fs.resolve cwd (join base (toOs (level.name latest))) =
      some (root ++ (next.path latest).map toOs) := by
  obtain ⟨entries, hread, -⟩ := h.has_name hlatest next
  rw [hnext, List.map_append, List.map_singleton, ← List.append_assoc,
    Level.name_of_isDir hdir] at hread ⊢
  rw [resolve_join_digits (FileSystem.ne_nil_of_resolve hbase), hbase, Option.bind_some, hread,
    Option.isSome_some, if_pos rfl]

/-- What is picked from a path is joined to the root with the text of the path. -/
theorem join_lossy_join (dir base : OsString) (name : Text) :
    join dir (toOs (lossy (join base (toOs name)))) =
      join (join dir (relossy base)) (toOs name) := by
  change join dir (relossy (join base (toOs name))) = _
  rw [relossy_join, relossy_toOs, join_assoc]

/-- What is picked from there is joined to the root with the text of the root twice. -/
theorem join_join_lossy_join (dir : OsString) (first second : Text) :
    join dir (toOs (lossy (join (join (join dir (relossy dir)) (toOs first)) (toOs second)))) =
      join (join (join (join dir (relossy dir)) (relossy dir)) (toOs first)) (toOs second) := by
  have hroot : join dir (relossy (join dir (relossy dir))) =
      join (join dir (relossy dir)) (relossy dir) := by
    rw [relossy_join, ← join_assoc, relossy, relossy, lossy_toOs]
  have hfirst : join dir (relossy (join (join dir (relossy dir)) (toOs first))) =
      join (join (join dir (relossy dir)) (relossy dir)) (toOs first) := by
    rw [← hroot]
    exact join_lossy_join dir _ first
  rw [join_lossy_join, hfirst]

theorem find_of_picks {firstLevel secondLevel thirdLevel : Text} {first second number : UInt64}
    (h₁ : pickPathWithHighestNumber fs cwd dir true =
      OptionT.mk (.ok (some (first, firstLevel))))
    (h₂ : pickPathWithHighestNumber fs cwd (join dir (toOs firstLevel)) true =
      OptionT.mk (.ok (some (second, secondLevel))))
    (h₃ : pickPathWithHighestNumber fs cwd (join dir (toOs secondLevel)) false =
      OptionT.mk (.ok (some (number, thirdLevel)))) :
    findLatestBlockNumber fs cwd dir = pure number := by
  rw [findLatestBlockNumber, h₁, mk_some_bind]
  dsimp only
  rw [h₂, mk_some_bind]
  dsimp only
  rw [h₃, mk_some_bind]

/-- If the text of the root leads back to the root, then it does so once more. -/
theorem Reenters.resolve_join (hre : Reenters fs cwd dir) (hroot : fs.resolve cwd dir = some root) :
    fs.resolve cwd (join (join dir (relossy dir)) (relossy dir)) = some root := by
  have hagain : fs.resolve cwd (join dir (relossy dir)) = some root := hre.trans hroot
  by_cases habs : isAbsolute (relossy dir) = true
  · rw [join_of_isAbsolute habs] at hagain ⊢
    exact hagain
  · have hwalk : fs.resolve cwd (join dir (relossy dir)) =
        (fs.resolve cwd dir).bind fun dir' => fs.walk dir' (relossy dir) :=
      FileSystem.resolve_join (FileSystem.ne_nil_of_resolve hroot) habs
    rw [hagain, hroot, Option.bind_some] at hwalk
    rw [FileSystem.resolve_join (FileSystem.ne_nil_of_resolve hagain) habs, hagain,
      Option.bind_some, ← hwalk]

/-- In a directory whose text leads back to it, the latest block is found. -/
theorem Reenters.findLatestBlockNumber_eq (hre : Reenters fs cwd dir)
    (hroot : fs.resolve cwd dir = some root) (h : (tree fs root).Stores S)
    (hpos : ∀ height ∈ S, 1 ≤ height) (hlatest : latest ∈ S)
    (hmax : ∀ height ∈ S, height ≤ latest) : findLatestBlockNumber fs cwd dir = pure latest := by
  have hstart := resolve_first hroot latest
  have hmore := resolve_first (hre.resolve_join hroot) latest
  have hsecond := resolve_join_name h hlatest .first .second rfl rfl (hre.trans hstart)
  -- The path to the third level has the text of the root twice, as the second one has it once.
  have hthird := resolve_join_name h hlatest .second .third rfl rfl
    (resolve_join_name h hlatest .first .second rfl rfl hmore)
  have h₁ := pick_eq h hpos hlatest hmax .first hstart
  have h₂ := pick_eq h hpos hlatest hmax .second hsecond
  have h₃ := pick_eq h hpos hlatest hmax .third hthird
  rw [← join_lossy_join] at h₂
  rw [← join_join_lossy_join, ← join_lossy_join dir dir] at h₃
  exact find_of_picks h₁ h₂ h₃

/-- An absolute path is entered again, if it is a text. -/
theorem reenters_of_isAbsolute (habs : isAbsolute dir = true) (htext : relossy dir = dir) :
    Reenters fs cwd dir := by
  rw [Reenters, htext, join_of_isAbsolute habs]

/-- In a directory whose text leads elsewhere, reading a directory panics, unless there is one of
    the same name. -/
theorem findLatestBlockNumber_of_not_reenters (hre : ¬ Reenters fs cwd dir)
    (hroot : fs.resolve cwd dir = some root) (h : (tree fs root).Stores S)
    (hpos : ∀ height ∈ S, 1 ≤ height) (hlatest : latest ∈ S)
    (hmax : ∀ height ∈ S, height ≤ latest)
    (hother : ∀ dir', (fs.readDir (dir' ++ [toOs (Level.first.name latest)])).isSome →
      dir' = root) :
    findLatestBlockNumber fs cwd dir =
      OptionT.mk (.error (.panic "called `Result::unwrap()` on an `Err` value")) := by
  have hstart := resolve_first hroot latest
  have hfirst : Level.first.name latest = digits (Level.first.number latest) :=
    Level.name_of_isDir rfl latest
  -- The first level is listed as it should be; the second is looked for from where the text of
  -- the root leads to.
  have hnone : fs.resolve cwd (join (join dir (relossy dir)) (toOs (Level.first.name latest))) =
      none := by
    rw [hfirst] at hother ⊢
    rw [resolve_join_digits (join_ne_nil (FileSystem.ne_nil_of_resolve hroot))]
    cases hagain : fs.resolve cwd (join dir (relossy dir)) with
    | none => rfl
    | some dir' =>
      refine if_neg fun hsome => hre ?_
      rw [Reenters, hagain, hroot, hother dir' hsome]
  have h₁ : pickPathWithHighestNumber fs cwd dir true = _ :=
    pick_eq h hpos hlatest hmax .first hstart
  rw [findLatestBlockNumber, h₁, mk_some_bind]
  dsimp only
  rw [join_lossy_join, pick_of_resolve_eq_none hnone, mk_error_bind]

end LocalBlockSource

/-! ## The latest block -/

/-- The latest of the blocks that a source has is found: in any bucket, and in a directory whose
    text leads back to it, as that of an absolute path does. In other directories, the search
    panics, unless there is a directory with the name of the first level elsewhere. -/
theorem findLatestBlockNumber_spec (S : Finset UInt64) (hS : S.Nonempty)
    (hpos : ∀ height ∈ S, 1 ≤ height) :
    ∃ latest ∈ S, (∀ height ∈ S, height ≤ latest) ∧
      (∀ client keys, S3BlockSource.ListsAll client keys → (S3BlockSource.tree keys).Stores S →
        S3BlockSource.findLatestBlockNumber client = pure latest) ∧
      ∀ (fs : FileSystem) cwd dir root, fs.resolve cwd dir = some root →
        (LocalBlockSource.tree fs root).Stores S →
        (LocalBlockSource.Reenters fs cwd dir →
          LocalBlockSource.findLatestBlockNumber fs cwd dir = pure latest) ∧
        (isAbsolute dir = true → relossy dir = dir → LocalBlockSource.Reenters fs cwd dir) ∧
        (¬ LocalBlockSource.Reenters fs cwd dir →
          (∀ dir', (fs.readDir (dir' ++ [toOs (Level.first.name latest)])).isSome → dir' = root) →
          LocalBlockSource.findLatestBlockNumber fs cwd dir =
            OptionT.mk (.error (.panic "called `Result::unwrap()` on an `Err` value"))) := by
  -- The latest block is the largest of the finite set.
  obtain ⟨latest, hlatest, hmax⟩ := S.exists_max_image UInt64.toNat hS
  have hle : ∀ height ∈ S, height ≤ latest :=
    fun height h => UInt64.le_iff_toNat_le.2 (hmax height h)
  refine ⟨latest, hlatest, hle, fun client keys hclient h => ?_,
    fun fs cwd dir root hroot h => ⟨fun hre => ?_, ?_, fun hre hother => ?_⟩⟩
  · exact S3BlockSource.findLatestBlockNumber_eq hclient h hpos hlatest hle
  · exact hre.findLatestBlockNumber_eq hroot h hpos hlatest hle
  · exact LocalBlockSource.reenters_of_isAbsolute
  · exact LocalBlockSource.findLatestBlockNumber_of_not_reenters hre hroot h hpos hlatest hle hother

/-! ### Some blocks -/

/-- The names that lead to a block. -/
def blockPath (height : UInt64) : List Text := Level.third.path height ++ [Level.third.name height]

/-- A name on the path of a block is that of its level. -/
theorem Level.name_eq_of_blockPath {name : Text}
    (h : level.path n ++ [name] <+: blockPath height) : name = level.name height := by
  obtain ⟨rest, hrest⟩ := h
  cases level with
  | first => exact (List.cons.inj hrest).1
  | second => exact (List.cons.inj (List.cons.inj hrest).2).1
  | third => exact (List.cons.inj (List.cons.inj (List.cons.inj hrest).2).2).1

/-- A source stores blocks if it has their files, and all else leads to one of them. -/
theorem Tree.stores_of_blockPath {T : Tree} {heights : List UInt64}
    (hfile : ∀ height ∈ heights, T.has (Level.third.path height) false (Level.third.name height))
    (hhas : ∀ path isDir name, T.has path isDir name →
      ∃ height ∈ heights, path ++ [name] <+: blockPath height) :
    T.Stores heights.toFinset := by
  constructor
  · intro height hheight
    rw [lines_rmpPath, tail_rmpPath]
    exact hfile height (List.mem_toFinset.1 hheight)
  · intro height hheight level name n hname hn
    obtain ⟨height', hheight', hpath⟩ := hhas _ _ _ hname
    exact ⟨height', List.mem_toFinset.2 hheight', Level.name_eq_of_blockPath hpath⟩

/-- The keys of some blocks. -/
def blockKeys (heights : List UInt64) : List Text :=
  heights.map fun height => (rmpPath height).toList

/-- The keys store the blocks of the heights. -/
theorem blockKeys_stores (heights : List UInt64) :
    (S3BlockSource.tree (blockKeys heights)).Stores heights.toFinset := by
  refine Tree.stores_of_blockPath (fun height hheight => ?_) fun path isDir name hhas => ?_
  · exact ⟨_, List.mem_map_of_mem hheight, lines_rmpPath height, tail_rmpPath height⟩
  · obtain ⟨key, hkey, hname⟩ := hhas
    obtain ⟨height, hheight, rfl⟩ := List.mem_map.1 hkey
    rw [lines_rmpPath, tail_rmpPath] at hname
    refine ⟨height, hheight, ?_⟩
    cases isDir with
    | true => exact hname.trans (List.prefix_append _ _)
    | false => exact hname.1 ▸ hname.2 ▸ List.prefix_rfl

theorem blockPath_isNames {height : UInt64} {name : Text} (h : name ∈ blockPath height) :
    '/' ∉ name ∧ name ≠ [] := by
  simp only [blockPath, Level.path, List.cons_append, List.nil_append, List.mem_cons,
    List.not_mem_nil, or_false] at h
  obtain rfl | rfl | rfl := h <;> exact ⟨Level.sep_notMem_name _ _, Level.name_ne_nil _ _⟩

/-- The files of some blocks in the directory `data`. -/
def dataFiles (heights : List UInt64) : FileSystem :=
  .ofFiles (heights.map fun height => toOs "data".toList :: (blockPath height).map toOs) (by
    intro file hfile name hname
    obtain ⟨height, -, rfl⟩ := List.mem_map.1 hfile
    rcases List.mem_cons.1 hname with rfl | hname
    · decide
    · obtain ⟨text, htext, rfl⟩ := List.mem_map.1 hname
      exact ⟨sep_notMem_toOs (blockPath_isNames htext).1,
        fun hnil => (blockPath_isNames htext).2 (List.map_eq_nil_iff.1 hnil)⟩)

/-- The files store the blocks of the heights. -/
theorem dataFiles_stores (heights : List UInt64) :
    (LocalBlockSource.tree (dataFiles heights) [toOs "data".toList]).Stores heights.toFinset := by
  refine Tree.stores_of_blockPath (fun height hheight => ?_) fun path isDir name hhas => ?_
  · have hentry : (toOs (Level.third.name height), false) ∈
        (heights.map fun height => toOs "data".toList :: (blockPath height).map toOs).filterMap
          (entryOf ([toOs "data".toList] ++ (Level.third.path height).map toOs)) :=
      List.mem_filterMap.2 ⟨_, List.mem_map_of_mem hheight,
        entryOf_eq_some_iff.2 ⟨[], by simp [blockPath], rfl⟩⟩
    exact ⟨_, if_neg (List.ne_nil_of_mem hentry), _, hentry, lossy_toOs _, rfl⟩
  · obtain ⟨entries, hread, entry, hmem, rfl, rfl⟩ := hhas
    obtain ⟨-, heq⟩ := Option.ite_none_left_eq_some.1 hread
    cases heq
    obtain ⟨file, hfile, hentry⟩ := List.mem_filterMap.1 hmem
    obtain ⟨height, hheight, rfl⟩ := List.mem_map.1 hfile
    obtain ⟨rest, hrest, -⟩ := entryOf_eq_some_iff.1 hentry
    refine ⟨height, hheight, rest.map lossy, ?_⟩
    -- The texts of the names are the names of the block.
    have hnames : (blockPath height).map toOs = path.map toOs ++ entry.1 :: rest :=
      (List.cons.inj hrest).2
    have htexts := congrArg (List.map lossy) hnames
    simp only [List.map_map, List.map_append, List.map_cons, Function.comp_def, lossy_toOs,
      List.map_id'] at htexts
    rw [htexts, List.append_assoc]
    rfl

/-- Blocks in several directories of each level. The latest one is not in the first of them. -/
theorem findLatestBlockNumber_absolute :
    S3BlockSource.findLatestBlockNumber
        (S3BlockSource.listObjects (blockKeys [1000, 1000001, 1001, 7])) = pure 1000001 ∧
    LocalBlockSource.findLatestBlockNumber (dataFiles [1000, 1000001, 1001, 7]) []
      (toOs "/data".toList) = pure 1000001 := by
  obtain ⟨latest, hlatest, hmax, hbucket, hdir⟩ :=
    findLatestBlockNumber_spec [1000, 1000001, 1001, 7].toFinset ⟨7, by simp⟩ (by simp)
  have hle := hmax 1000001 (by simp)
  have hcases : latest = 1000 ∨ latest = 1000001 ∨ latest = 1001 ∨ latest = 7 := by
    simpa using hlatest
  obtain rfl : latest = 1000001 := by
    rcases hcases with rfl | rfl | rfl | rfl
    · exact absurd hle (by decide)
    · rfl
    · exact absurd hle (by decide)
    · exact absurd hle (by decide)
  obtain ⟨hfound, hre, -⟩ := hdir (dataFiles [1000, 1000001, 1001, 7]) [] (toOs "/data".toList)
    [toOs "data".toList] (by decide) (dataFiles_stores _)
  exact ⟨hbucket _ _ (S3BlockSource.listObjects_listsAll _) (blockKeys_stores _),
    hfound (hre (by decide) (relossy_toOs _))⟩

/-- A root that is a relative path is joined to itself: of the first block in `data`, the directory
    `data/data/0` is read. -/
theorem findLatestBlockNumber_relative :
    (dataFiles [1]).resolve [] (toOs "data".toList) = some [toOs "data".toList] ∧
    (LocalBlockSource.tree (dataFiles [1]) [toOs "data".toList]).Stores {1} ∧
    LocalBlockSource.findLatestBlockNumber (dataFiles [1]) [] (toOs "data".toList) =
      OptionT.mk (.error (.panic "called `Result::unwrap()` on an `Err` value")) := by
  have hpick : LocalBlockSource.pickPathWithHighestNumber (dataFiles [1]) []
      (toOs "data".toList) true = OptionT.mk (.ok (some (0, "data/0".toList))) :=
    LocalBlockSource.pick_eq (dataFiles_stores [1]) (by simp) (Finset.mem_singleton_self 1)
      (by simp) .first (by decide)
  refine ⟨by decide, dataFiles_stores [1], ?_⟩
  rw [LocalBlockSource.findLatestBlockNumber, hpick, mk_some_bind]
  dsimp only
  rw [LocalBlockSource.pick_of_resolve_eq_none (by decide), mk_error_bind]

end Nanoreth
