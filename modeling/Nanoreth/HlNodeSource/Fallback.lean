import Nanoreth.HlNodeSource.LocalCache

/-!
# Local blocks with a fallback

How a block is collected from the files of the local node, or else from another source
(`sources/hl_node/mod.rs`, `HlNodeBlockSource::collect_block`). The calls run at the same time, and
share the cache of local blocks and the height and time of the last block collected, each under its
own lock (`HlNodeSource.next`). A call

* looks the block up in the local files;
* if it is not there, gives up if a lower block was collected a short while ago, for the local node
  to catch up; otherwise it asks the fallback;
* records the height of the block it has found, with the time the call was made at, if it is the
  highest so far.

Whatever the order of their steps, while the files grow and are scanned (`collectBlock_spec`): the
height that is recorded is the highest one of the blocks collected. A call gives up only if, when it
checks this, blocks have been collected, all lower, and it was made less than the threshold after
the call for the highest of them: so one for a height up to the highest never does. If no file has
the height 0 right after the last one of all, a call returns a block of the local files of the
height it was made for, or what the fallback has answered it, and no step panics.
-/

namespace Nanoreth

open Lru Partial Scanner Transition

/-- Why no block is collected. -/
inductive CollectError (ε : Type)
  | report (message : String)
  | fallback (error : ε)

/-- A block is not asked for yet. -/
def CollectError.limited {ε : Type} : CollectError ε :=
  .report ("Not found locally; limiting polling rate before fallback so that hl-node has chance " ++
    "to catch up")

/-- What a call is doing. -/
inductive CollectPhase (ε : Type)
  | start
  | missed
  | forwarded
  /-- The block was found, and is to be recorded. -/
  | collected (block : BlockAndReceipts)
  | returned (result : Except (CollectError ε) BlockAndReceipts)

/-- A call, for a height, and the time it was made at, in nanoseconds. -/
structure CollectCall (ε : Type) where
  height : UInt64
  now : ℤ
  phase : CollectPhase ε

/-- The source, the complete lines of the files, and the calls. The heights of the blocks collected
    and what the fallback has answered are recorded. -/
structure HlNodeSource (ε : Type) where
  files : String → Option (List String)
  localBlocksCache : LocalBlocksCache
  lastLocalFetch : Option (UInt64 × ℤ)
  calls : ℕ → Option (CollectCall ε)
  served : List (UInt64 × ℤ)
  answers : List (UInt64 × BlockAndReceipts)

/-- A step of a call, or of those who write and scan the files. -/
inductive CollectLabel (ε : Type)
  | call (id : ℕ) (height : UInt64) (now : ℤ)
  | lookUp (id : ℕ)
  | check (id : ℕ)
  | answer (id : ℕ) (result : Except ε BlockAndReceipts)
  | finish (id : ℕ)
  | append (path : String) (lines : List String)
  | load (path : String) (lines : List String) (options : ScanOptions)

/-- The last fetch, with one more block. -/
def updateLastFetch (last : Option (UInt64 × ℤ)) (fetch : UInt64 × ℤ) : Option (UInt64 × ℤ) :=
  if last.all (·.1 < fetch.1) then some fetch else last

/-- Whether a call gives up instead of asking the fallback. -/
def isLimited (fallbackThreshold : ℕ) (last : Option (UInt64 × ℤ)) (height : UInt64) (now : ℤ) :
    Bool :=
  match last with
  | some (lastHeight, lastPollTime) =>
    lastHeight < height && now - lastPollTime < fallbackThreshold
  | none => false

namespace HlNodeSource

variable {ε : Type}

/-- A call goes on. -/
def setCall (s : HlNodeSource ε) (id : ℕ) (call : CollectCall ε) : HlNodeSource ε :=
  { s with calls := Function.update s.calls id (some call) }

section

variable (fromStr : String → Option LocalBlockAndReceipts) (fallbackThreshold : ℕ)

/-- Looks for the block in the local files. -/
def lookUp (s : HlNodeSource ε) (id : ℕ) (call : CollectCall ε) : Except Halt (HlNodeSource ε) :=
  match tryCollectLocalBlock fromStr s.files call.height s.localBlocksCache with
  | .error halt => .error halt
  | .ok (some block, cache) =>
    .ok ({ s with localBlocksCache := cache }.setCall id { call with phase := .collected block })
  | .ok (none, cache) =>
    .ok ({ s with localBlocksCache := cache }.setCall id { call with phase := .missed })

/-- Asks the fallback, or gives up. -/
def check (s : HlNodeSource ε) (id : ℕ) (call : CollectCall ε) : HlNodeSource ε :=
  if isLimited fallbackThreshold s.lastLocalFetch call.height call.now then
    s.setCall id { call with phase := .returned (.error .limited) }
  else s.setCall id { call with phase := .forwarded }

/-- The fallback answers. -/
def answer (s : HlNodeSource ε) (id : ℕ) (call : CollectCall ε) :
    Except ε BlockAndReceipts → HlNodeSource ε
  | .ok block =>
    { s with answers := s.answers ++ [(call.height, block)] }.setCall id
      { call with phase := .collected block }
  | .error e => s.setCall id { call with phase := .returned (.error (.fallback e)) }

/-- Records the height, and returns the block. -/
def finish (s : HlNodeSource ε) (id : ℕ) (call : CollectCall ε) (block : BlockAndReceipts) :
    HlNodeSource ε :=
  { s with
    lastLocalFetch := updateLastFetch s.lastLocalFetch (call.height, call.now)
    served := s.served ++ [(call.height, call.now)] }.setCall id
      { call with phase := .returned (.ok block) }

/-- The source after a step, if the step can be taken. -/
inductive Step (s : HlNodeSource ε) : CollectLabel ε → Except Halt (HlNodeSource ε) → Prop
  | call {id : ℕ} {height : UInt64} {now : ℤ} (hcall : s.calls id = none) :
      Step s (.call id height now) (.ok (s.setCall id ⟨height, now, .start⟩))
  | lookUp {id : ℕ} {height : UInt64} {now : ℤ} (hcall : s.calls id = some ⟨height, now, .start⟩) :
      Step s (.lookUp id) (s.lookUp fromStr id ⟨height, now, .start⟩)
  | check {id : ℕ} {height : UInt64} {now : ℤ} (hcall : s.calls id = some ⟨height, now, .missed⟩) :
      Step s (.check id) (.ok (s.check fallbackThreshold id ⟨height, now, .missed⟩))
  | answer {id : ℕ} {height : UInt64} {now : ℤ} {result : Except ε BlockAndReceipts}
      (hcall : s.calls id = some ⟨height, now, .forwarded⟩) :
      Step s (.answer id result) (.ok (s.answer id ⟨height, now, .forwarded⟩ result))
  | finish {id : ℕ} {height : UInt64} {now : ℤ} {block : BlockAndReceipts}
      (hcall : s.calls id = some ⟨height, now, .collected block⟩) :
      Step s (.finish id) (.ok (s.finish id ⟨height, now, .collected block⟩ block))
  | append {path : String} {lines : List String} :
      Step s (.append path lines) (.ok
        { s with files := Function.update s.files path (some ((s.files path).getD [] ++ lines)) })
  | load {path : String} {content lines : List String} {options : ScanOptions}
      (hfile : s.files path = some content) (hlines : lines <:+: content) :
      Step s (.load path lines options)
        ((s.localBlocksCache.loadScanResult (scanHourFile fromStr path lines options)).map
          fun cache => { s with localBlocksCache := cache })

/-- The source, which has collected no block at first. -/
def collectBlock : System (HlNodeSource ε) (CollectLabel ε) where
  init s := s.localBlocksCache = .new cacheSize ∧ s.lastLocalFetch = none ∧
    s.calls = (fun _ => none) ∧ s.served = [] ∧ s.answers = []
  step s l s' := Step fromStr fallbackThreshold s l (.ok s')

end

/-! ## The highest block -/

/-- The first of the highest ones of the blocks collected. -/
def IsHighest (served : List (UInt64 × ℤ)) : Option (UInt64 × ℤ) → Prop
  | none => served = []
  | some fetch => ∃ before after, served = before ++ fetch :: after ∧
      (∀ other ∈ before, other.1 < fetch.1) ∧ ∀ other ∈ after, other.1 ≤ fetch.1

/-- No height that was served is above the highest. -/
theorem IsHighest.le {served : List (UInt64 × ℤ)} {fetch other : UInt64 × ℤ}
    (h : IsHighest served (some fetch)) (hother : other ∈ served) : other.1 ≤ fetch.1 := by
  obtain ⟨before, after, rfl, hbefore, hafter⟩ := h
  rcases List.mem_append.1 hother with hmem | hmem
  · exact UInt64.le_of_lt (hbefore other hmem)
  · rcases List.mem_cons.1 hmem with rfl | hmem
    · exact UInt64.le_refl _
    · exact hafter other hmem

/-- The update keeps the highest fetch. -/
theorem IsHighest.update {served : List (UInt64 × ℤ)} {last : Option (UInt64 × ℤ)}
    (h : IsHighest served last) (fetch : UInt64 × ℤ) :
    IsHighest (served ++ [fetch]) (updateLastFetch last fetch) := by
  cases last with
  | none =>
    cases h
    exact ⟨[], [], rfl, by simp, by simp⟩
  | some highest =>
    rw [updateLastFetch, Option.all_some]
    split_ifs with hlt
    · refine ⟨served, [], rfl, fun other hother => ?_, by simp⟩
      exact UInt64.lt_of_le_of_lt (h.le hother) (of_decide_eq_true hlt)
    · obtain ⟨before, after, rfl, hbefore, hafter⟩ := h
      refine ⟨before, after ++ [fetch], by simp, hbefore, fun other hother => ?_⟩
      rcases List.mem_append.1 hother with hmem | hmem
      · exact hafter other hmem
      · rw [List.mem_singleton.1 hmem]
        simpa using hlt

/-! ## Looking into the files -/

variable {fromStr : String → Option LocalBlockAndReceipts} {fallbackThreshold : ℕ}

/-- A block of a complete line of a file. -/
def InFiles (fromStr : String → Option LocalBlockAndReceipts)
    (files : String → Option (List String)) (block : BlockAndReceipts) : Prop :=
  ∃ path content, files path = some content ∧ block ∈ blocksOf fromStr content

/-- Looking a block up does not panic, and what it finds is of its height, in a file. -/
theorem tryCollect_spec {s : LocalState} (hinv : LocalInvariant fromStr s)
    (hunwrapped : FilesUnwrapped fromStr s.files) (height : UInt64) :
    ∃ result cache, tryCollectLocalBlock fromStr s.files height s.blocks = .ok (result, cache) ∧
      ∀ block ∈ result, block.number = height ∧ InFiles fromStr s.files block := by
  cases hpath : s.blocks.getPathForHeight height with
  | none =>
    -- Every cached block was scanned, and then its height has a path.
    have hnone : s.blocks.cache.get height = none := by
      by_contra hget
      obtain ⟨⟨block, cache⟩, hsome⟩ := Option.ne_none_iff_exists'.1 hget
      obtain ⟨rfl, path, hscanned⟩ := hinv.cached height block (LruMap.get_eq_some hsome).1
      have hisSome := hinv.isSome_path path block hscanned
      rw [hpath] at hisSome
      cases hisSome
    refine ⟨none, s.blocks, ?_, by simp⟩
    simp only [tryCollectLocalBlock, LocalBlocksCache.getBlock_of_none hnone, hpath]
    rfl
  | some path =>
    obtain ⟨block, hscanned, -⟩ := hinv.path height path hpath
    obtain ⟨content, hfile, -⟩ := hinv.stored path block hscanned
    obtain ⟨result, cache, hcollect, hresult, -⟩ :=
      hinv.tryCollect hpath hfile (hunwrapped path content hfile)
    refine ⟨result, cache, hcollect, fun found hfound => ?_⟩
    obtain ⟨hnumber, path', block', content', -, hfile', hmem⟩ := hresult found hfound
    exact ⟨hnumber, path', content', hfile', hmem⟩

/-! ## Runs of the source -/

/-- A block of the height in the files, or what the fallback has answered for it. -/
def IsOf (fromStr : String → Option LocalBlockAndReceipts) (s : HlNodeSource ε) (height : UInt64)
    (block : BlockAndReceipts) : Prop :=
  block.number = height ∧ InFiles fromStr s.files block ∨ (height, block) ∈ s.answers

/-- When a call checked whether to give up, blocks had been collected, all lower, and the call for
    the highest one of them was made less than the threshold before. -/
def GaveUp (fromStr : String → Option LocalBlockAndReceipts) (fallbackThreshold : ℕ)
    (s₀ : HlNodeSource ε) (ls : List (CollectLabel ε)) (id : ℕ) (height : UInt64) (now : ℤ) :
    Prop :=
  ∃ before after checked fetch, ls = before ++ .check id :: after ∧
    Run (collectBlock fromStr fallbackThreshold) s₀ before checked ∧
    checked.calls id = some ⟨height, now, .missed⟩ ∧ IsHighest checked.served (some fetch) ∧
    fetch.1 < height ∧ now - fetch.2 < fallbackThreshold

/-- What is known of a call. -/
def CallSpec (fromStr : String → Option LocalBlockAndReceipts) (s : HlNodeSource ε)
    (call : CollectCall ε) : Prop :=
  match call.phase with
  | .collected block => s.IsOf fromStr call.height block
  | .returned (.ok block) => s.IsOf fromStr call.height block
  | _ => True

/-- What is known of the cache and the calls at any time, if the files are in order. -/
structure Collects (fromStr : String → Option LocalBlockAndReceipts) (s : HlNodeSource ε) : Prop
    where
  cache : ∃ scanned, Reachable (localSource fromStr) ⟨s.files, s.localBlocksCache, scanned⟩
  calls : ∀ id call, s.calls id = some call → CallSpec fromStr s call

/-- Files and answers only grow. -/
structure Grows (fromStr : String → Option LocalBlockAndReceipts) (s s' : HlNodeSource ε) : Prop
    where
  files : ∀ block, InFiles fromStr s.files block → InFiles fromStr s'.files block
  answers : s.answers ⊆ s'.answers

variable {s s' s₀ : HlNodeSource ε} {l : CollectLabel ε} {ls : List (CollectLabel ε)}
  {call : CollectCall ε}

/-- A step that touches neither files nor answers loses nothing. -/
theorem Grows.of_eq (hfiles : s'.files = s.files) (hanswers : s'.answers = s.answers) :
    Grows fromStr s s' where
  files block h := by rwa [hfiles]
  answers := by rw [hanswers]; exact List.Subset.refl _

theorem IsOf.grows {height : UInt64} {block : BlockAndReceipts} (h : s.IsOf fromStr height block)
    (hgrows : Grows fromStr s s') : s'.IsOf fromStr height block :=
  h.imp (And.imp_right (hgrows.files block)) (hgrows.answers ·)

/-- What is said of a call stays so. -/
theorem CallSpec.grows (h : CallSpec fromStr s call) (hgrows : Grows fromStr s s') :
    CallSpec fromStr s' call := by
  unfold CallSpec at h ⊢
  split
  · next hphase => exact IsOf.grows (by simpa [hphase] using h) hgrows
  · next hphase => exact IsOf.grows (by simpa [hphase] using h) hgrows
  · trivial

/-- One call moves on, and what is known of the others stays. -/
theorem Collects.setCall (hs : Collects fromStr s) {id : ℕ}
    (hgrows : Grows fromStr s s') (hcalls : s'.calls = Function.update s.calls id (some call))
    (hcall : CallSpec fromStr s' call) :
    ∀ id call, s'.calls id = some call → CallSpec fromStr s' call := by
  intro id' call' hcall'
  rw [hcalls] at hcall'
  by_cases hid : id' = id
  · rw [hid, Function.update_self] at hcall'
    cases hcall'
    exact hcall
  · rw [Function.update_of_ne hid] at hcall'
    exact (hs.calls id' call' hcall').grows hgrows

/-- A block stays in the files when they are appended to. -/
theorem inFiles_append {files : String → Option (List String)} {path : String}
    {lines : List String} {block : BlockAndReceipts} (h : InFiles fromStr files block) :
    InFiles fromStr (Function.update files path (some ((files path).getD [] ++ lines))) block := by
  obtain ⟨path', content, hfile, hmem⟩ := h
  by_cases hpath : path' = path
  · subst hpath
    exact ⟨path', content ++ lines, by simp [hfile], by simp [hmem]⟩
  · exact ⟨path', content, by simpa [Function.update_of_ne hpath] using hfile, hmem⟩

/-- The cache is one of a local source. -/
theorem Collects.invariant (hs : Collects fromStr s)
    (hunwrapped : FilesUnwrapped fromStr s.files) :
    ∃ scanned, LocalInvariant fromStr ⟨s.files, s.localBlocksCache, scanned⟩ := by
  obtain ⟨scanned, hreach⟩ := hs.cache
  exact ⟨scanned, localInvariant_of_reachable hreach hunwrapped⟩

/-- Looking up a block keeps the invariant. -/
theorem Collects.lookUp (hs : Collects fromStr s)
    (hunwrapped : FilesUnwrapped fromStr s.files) {id : ℕ} {height : UInt64} {now : ℤ}
    (h : s.lookUp fromStr id ⟨height, now, .start⟩ = .ok s') :
    Collects fromStr s' := by
  obtain ⟨scanned, hreach⟩ := hs.cache
  have hinv := localInvariant_of_reachable hreach hunwrapped
  obtain ⟨result, cache, hcollect, hresult⟩ := tryCollect_spec hinv hunwrapped height
  obtain ⟨ls, ⟨files, blocks, scanned'⟩, hrun, hfiles, hblocks⟩ :=
    run_tryCollectLocalBlock hcollect
  cases hfiles
  cases hblocks
  have hcache : ∃ scanned, Reachable (localSource fromStr) ⟨s.files, blocks, scanned⟩ :=
    ⟨scanned', hreach.run hrun⟩
  simp only [HlNodeSource.lookUp, hcollect] at h
  cases result with
  | none =>
    cases h
    exact ⟨hcache, hs.setCall (.of_eq rfl rfl) rfl trivial⟩
  | some block =>
    cases h
    exact ⟨hcache, hs.setCall (.of_eq rfl rfl) rfl (.inl (hresult block rfl))⟩

/-- The check whether to forward keeps the invariant. -/
theorem Collects.check (hs : Collects fromStr s) {id : ℕ} {height : UInt64}
    {now : ℤ} :
    Collects fromStr (s.check fallbackThreshold id ⟨height, now, .missed⟩) := by
  unfold HlNodeSource.check
  split_ifs with hlimited
  · exact ⟨hs.cache, hs.setCall (.of_eq rfl rfl) rfl trivial⟩
  · exact ⟨hs.cache, hs.setCall (.of_eq rfl rfl) rfl trivial⟩

/-- An answer of the fallback keeps the invariant. -/
theorem Collects.answer (hs : Collects fromStr s) {id : ℕ} {height : UInt64}
    {now : ℤ} (result : Except ε BlockAndReceipts) :
    Collects fromStr (s.answer id ⟨height, now, .forwarded⟩ result) := by
  cases result with
  | error e => exact ⟨hs.cache, hs.setCall (.of_eq rfl rfl) rfl trivial⟩
  | ok block =>
    have hgrows : Grows fromStr s (s.answer id ⟨height, now, .forwarded⟩ (.ok block)) :=
      ⟨fun _ h => h, List.subset_append_left _ _⟩
    exact ⟨hs.cache, hs.setCall hgrows rfl (.inr List.mem_concat_self)⟩

/-- The end of a call keeps the invariant. -/
theorem Collects.finish (hs : Collects fromStr s) {id : ℕ} {height : UInt64}
    {now : ℤ} {block : BlockAndReceipts}
    (hcall : s.calls id = some ⟨height, now, .collected block⟩) :
    Collects fromStr (s.finish id ⟨height, now, .collected block⟩ block) := by
  have hgrows : Grows fromStr s (s.finish id ⟨height, now, .collected block⟩ block) :=
    ⟨fun _ h => h, List.Subset.refl _⟩
  have hblock : s.IsOf fromStr height block := hs.calls id _ hcall
  exact ⟨hs.cache, hs.setCall hgrows rfl (hblock.grows hgrows)⟩

/-- New lines in the files keep the invariant. -/
theorem Collects.append (hs : Collects fromStr s) {path : String}
    {lines : List String} :
    Collects fromStr { s with
      files := Function.update s.files path (some ((s.files path).getD [] ++ lines)) } := by
  obtain ⟨scanned, hreach⟩ := hs.cache
  exact ⟨⟨scanned, hreach.step (.append path lines)⟩, fun id call hcall =>
    (hs.calls id call hcall).grows
      ⟨fun _ h => inFiles_append h, List.Subset.refl _⟩⟩

/-- Scanning the files keeps the invariant. -/
theorem Collects.load (hs : Collects fromStr s) {path : String}
    {content lines : List String} {options : ScanOptions} {cache : LocalBlocksCache}
    (hfile : s.files path = some content) (hlines : lines <:+: content)
    (hload : s.localBlocksCache.loadScanResult (scanHourFile fromStr path lines options) =
      .ok cache) :
    Collects fromStr { s with localBlocksCache := cache } := by
  obtain ⟨scanned, hreach⟩ := hs.cache
  exact ⟨⟨_, hreach.step (.load options hfile hlines hload)⟩, fun id call hcall =>
    (hs.calls id call hcall).grows (.of_eq rfl rfl)⟩

/-- Files only grow, so they were in order before a step. -/
theorem Step.filesUnwrapped (h : Step fromStr fallbackThreshold s l (.ok s'))
    (hunwrapped : FilesUnwrapped fromStr s'.files) : FilesUnwrapped fromStr s.files := by
  generalize hresult : Except.ok s' = result at h
  -- Files are only appended to.
  cases h with
  | call hcall =>
    cases hresult
    exact hunwrapped
  | lookUp hcall =>
    unfold HlNodeSource.lookUp at hresult
    split at hresult <;> cases hresult <;> exact hunwrapped
  | check hcall =>
    cases hresult
    unfold HlNodeSource.check at hunwrapped
    split_ifs at hunwrapped <;> exact hunwrapped
  | @answer id height now result hcall =>
    cases hresult
    cases result <;> exact hunwrapped
  | finish hcall =>
    cases hresult
    exact hunwrapped
  | @append path lines =>
    cases hresult
    exact LocalStep.filesUnwrapped (s := ⟨s.files, s.localBlocksCache, []⟩) (.append path lines)
      hunwrapped
  | @load path content lines options hfile hlines =>
    cases hload : s.localBlocksCache.loadScanResult (scanHourFile fromStr path lines options) <;>
      rw [hload] at hresult <;> cases hresult
    exact hunwrapped

/-- Every step keeps the invariant. -/
theorem Collects.step (hs : Collects fromStr s)
    (hunwrapped : FilesUnwrapped fromStr s.files)
    (h : Step fromStr fallbackThreshold s l (.ok s')) : Collects fromStr s' := by
  generalize hresult : Except.ok s' = result at h
  -- One lemma per step.
  cases h with
  | call hcall =>
    cases hresult
    exact ⟨hs.cache, hs.setCall (.of_eq rfl rfl) rfl trivial⟩
  | lookUp hcall => exact hs.lookUp hunwrapped hresult.symm
  | check hcall =>
    cases hresult
    exact hs.check
  | answer hcall =>
    cases hresult
    exact hs.answer _
  | finish hcall =>
    cases hresult
    exact hs.finish hcall
  | append =>
    cases hresult
    exact hs.append
  | @load path content lines options hfile hlines =>
    cases hload : s.localBlocksCache.loadScanResult (scanHourFile fromStr path lines options) <;>
      rw [hload] at hresult <;> cases hresult
    exact hs.load hfile hlines hload

/-- The invariant holds of all states that can be reached. -/
theorem collects_of_reachable (hs : Reachable (collectBlock fromStr fallbackThreshold) s)
    (hunwrapped : FilesUnwrapped fromStr s.files) : Collects fromStr s := by
  refine hs.invariant (P := fun s => FilesUnwrapped fromStr s.files →
    Collects fromStr s) ?_ ?_ hunwrapped
  · rintro s ⟨hcache, -, hcalls, -, -⟩ -
    refine ⟨⟨[], .init ⟨hcache, rfl⟩⟩, fun id call hcall => ?_⟩
    rw [hcalls] at hcall
    cases hcall
  · intro s l s' hs hstep hunwrapped
    have hbefore := Step.filesUnwrapped hstep hunwrapped
    exact (hs hbefore).step hbefore hstep

/-- No step panics, if the files are in order. -/
theorem Collects.not_halts (hs : Collects fromStr s)
    (hunwrapped : FilesUnwrapped fromStr s.files) {halt : Halt} :
    ¬ Step fromStr fallbackThreshold s l (.error halt) := by
  intro h
  generalize hresult : Except.error halt = result at h
  cases h with
  | call hcall => cases hresult
  | @lookUp id height now hcall =>
    obtain ⟨scanned, hinv⟩ := hs.invariant hunwrapped
    obtain ⟨result, cache, hcollect, -⟩ := tryCollect_spec hinv hunwrapped height
    simp only [HlNodeSource.lookUp, hcollect] at hresult
    cases result <;> cases hresult
  | check hcall => cases hresult
  | answer hcall => cases hresult
  | finish hcall => cases hresult
  | append => cases hresult
  | @load path content lines options hfile hlines =>
    have hsub := unwrapped_of_isInfix (blocksOf_isInfix hlines) (hunwrapped path content hfile)
    obtain ⟨cache, hload, -⟩ := s.localBlocksCache.loadScanResult_eq_ok path options hsub
    rw [hload] at hresult
    cases hresult

/-! ## Giving up -/

/-- Every step keeps the highest fetch. -/
theorem isHighest_step (hs : IsHighest s.served s.lastLocalFetch)
    (h : Step fromStr fallbackThreshold s l (.ok s')) :
    IsHighest s'.served s'.lastLocalFetch := by
  generalize hresult : Except.ok s' = result at h
  -- Only the end of a call serves a block, and it updates the highest fetch with it.
  cases h with
  | call hcall =>
    cases hresult
    exact hs
  | lookUp hcall =>
    unfold HlNodeSource.lookUp at hresult
    split at hresult <;> cases hresult <;> exact hs
  | check hcall =>
    cases hresult
    unfold HlNodeSource.check
    split_ifs <;> exact hs
  | @answer id height now result hcall =>
    cases hresult
    cases result <;> exact hs
  | finish hcall =>
    cases hresult
    exact hs.update _
  | append =>
    cases hresult
    exact hs
  | @load path content lines options hfile hlines =>
    cases hload : s.localBlocksCache.loadScanResult (scanHourFile fromStr path lines options) <;>
      rw [hload] at hresult <;> cases hresult
    exact hs

/-- What is recorded is the highest one of the blocks collected, at any time. -/
theorem isHighest_of_run (hinit : (collectBlock fromStr fallbackThreshold).init s₀)
    (hrun : Run (collectBlock fromStr fallbackThreshold) s₀ ls s) :
    IsHighest s.served s.lastLocalFetch := by
  refine hrun.invariant (P := fun _ s => IsHighest s.served s.lastLocalFetch) ?_
    fun _ _ _ _ hs hstep => isHighest_step hs hstep
  obtain ⟨-, hlast, -, hserved, -⟩ := hinit
  rw [hlast, hserved]
  rfl

/-- Only the call that is set is another one. -/
theorem calls_setCall {id id' : ℕ} {call' : CollectCall ε}
    (h : (s.setCall id call).calls id' = some call') :
    s.calls id' = some call' ∨ id' = id ∧ call' = call := by
  change Function.update s.calls id (some call) id' = some call' at h
  by_cases hid : id' = id
  · rw [hid, Function.update_self] at h
    exact .inr ⟨hid, (Option.some.inj h).symm⟩
  · rw [Function.update_of_ne hid] at h
    exact .inl h

/-- A call that is another one than the one that is set was there before. -/
theorem calls_of_setCall {id id' : ℕ} {call' : CollectCall ε}
    (h : (s.setCall id call).calls id' = some call') (hne : call' ≠ call) :
    s.calls id' = some call' :=
  (calls_setCall h).resolve_right fun hset => hne hset.2

/-- A call gives up when it is limited, at its check. -/
theorem report_of_step (h : Step fromStr fallbackThreshold s l (.ok s')) {id : ℕ}
    {height : UInt64} {now : ℤ} {message : String}
    (hcall' : s'.calls id = some ⟨height, now, .returned (.error (.report message))⟩) :
    s.calls id = some ⟨height, now, .returned (.error (.report message))⟩ ∨
      l = .check id ∧ s.calls id = some ⟨height, now, .missed⟩ ∧
        isLimited fallbackThreshold s.lastLocalFetch height now = true := by
  generalize hresult : Except.ok s' = result at h
  -- A report is only returned by the check; all other steps return none or nothing new.
  cases h with
  | call hcall =>
    cases hresult
    exact .inl (calls_of_setCall hcall' (by simp))
  | lookUp hcall =>
    unfold HlNodeSource.lookUp at hresult
    split at hresult <;> cases hresult <;>
      exact .inl (calls_of_setCall hcall' (by simp))
  | @check id' height' now' hcall =>
    cases hresult
    unfold HlNodeSource.check at hcall'
    split_ifs at hcall' with hlimited
    · obtain hold | ⟨rfl, hnew⟩ := calls_setCall hcall'
      · exact .inl hold
      · cases hnew
        exact .inr ⟨rfl, hcall, hlimited⟩
    · exact .inl (calls_of_setCall hcall' (by simp))
  | @answer id' height' now' result hcall =>
    cases hresult
    cases result <;> exact .inl (calls_of_setCall hcall' (by simp))
  | finish hcall =>
    cases hresult
    exact .inl (calls_of_setCall hcall' (by simp))
  | append =>
    cases hresult
    exact .inl hcall'
  | @load path content lines options hfile hlines =>
    cases hload : s.localBlocksCache.loadScanResult (scanHourFile fromStr path lines options) <;>
      rw [hload] at hresult <;> cases hresult
    exact .inl hcall'

/-- A call that gave up did so, whatever comes after. -/
theorem GaveUp.snoc {id : ℕ} {height : UInt64} {now : ℤ}
    (h : GaveUp fromStr fallbackThreshold s₀ ls id height now) (l : CollectLabel ε) :
    GaveUp fromStr fallbackThreshold s₀ (ls ++ [l]) id height now := by
  obtain ⟨before, after, checked, fetch, rfl, hrest⟩ := h
  exact ⟨before, after ++ [l], checked, fetch, by simp, hrest⟩

/-- A request is limited by a recent fetch of a lower height. -/
theorem exists_fetch_of_isLimited {last : Option (UInt64 × ℤ)} {height : UInt64} {now : ℤ}
    (h : isLimited fallbackThreshold last height now = true) :
    ∃ fetch, last = some fetch ∧ fetch.1 < height ∧ now - fetch.2 < fallbackThreshold := by
  unfold isLimited at h
  split at h
  · rw [Bool.and_eq_true, decide_eq_true_iff, decide_eq_true_iff] at h
    exact ⟨_, rfl, h⟩
  · cases h

/-- A call that returns a report gave up. -/
theorem gaveUp_of_run (hinit : (collectBlock fromStr fallbackThreshold).init s₀)
    (hrun : Run (collectBlock fromStr fallbackThreshold) s₀ ls s) {id : ℕ} {height : UInt64}
    {now : ℤ} {message : String}
    (hcall : s.calls id = some ⟨height, now, .returned (.error (.report message))⟩) :
    GaveUp fromStr fallbackThreshold s₀ ls id height now := by
  induction hrun with
  | nil =>
    obtain ⟨-, -, hcalls, -, -⟩ := hinit
    rw [hcalls] at hcall
    cases hcall
  | @snoc ls s l s' hrun hstep ih =>
    obtain hold | ⟨rfl, hmissed, hlimited⟩ := report_of_step hstep hcall
    · exact (ih hold).snoc l
    · obtain ⟨fetch, hlast, hlower, hsoon⟩ := exists_fetch_of_isLimited hlimited
      exact ⟨ls, [], s, fetch, rfl, hrun, hmissed, hlast ▸ isHighest_of_run hinit hrun, hlower,
        hsoon⟩

/-- A call for a height up to the highest one is not limited. -/
theorem isLimited_eq_false {served : List (UInt64 × ℤ)} {last : Option (UInt64 × ℤ)}
    {fetch : UInt64 × ℤ} {height : UInt64} (hlast : IsHighest served last) (hfetch : fetch ∈ served)
    (hle : height ≤ fetch.1) (now : ℤ) : isLimited fallbackThreshold last height now = false := by
  cases last with
  | none =>
    cases hlast
    cases hfetch
  | some highest =>
    have hnot : ¬ highest.1 < height :=
      UInt64.not_lt.2 (UInt64.le_trans hle (hlast.le hfetch))
    simp [isLimited, hnot]

/-- At any time, after any steps of any number of calls, in any order, while the files grow and are
    scanned in parts:

    * the last fetch is the first of the highest ones of the blocks collected;
    * a call gave up only if there were blocks collected when it checked this, all lower, and it was
      made less than the threshold after the call for the highest of them;
    * a call for a height up to one that was collected asks the fallback if it finds no block;
    * if no file has the height 0 right after the last one of all: a call that has returned a block
      has one of its height, of a complete line of a file, or what the fallback has answered for
      this height, and no step panics. -/
theorem collectBlock_spec (hinit : (collectBlock fromStr fallbackThreshold).init s₀)
    (hrun : Run (collectBlock fromStr fallbackThreshold) s₀ ls s) :
    IsHighest s.served s.lastLocalFetch ∧
    (∀ id height now message,
      s.calls id = some ⟨height, now, .returned (.error (.report message))⟩ →
      GaveUp fromStr fallbackThreshold s₀ ls id height now) ∧
    (∀ id height now, ∀ fetch ∈ s.served, height ≤ fetch.1 →
      s.check fallbackThreshold id ⟨height, now, .missed⟩ =
        s.setCall id ⟨height, now, .forwarded⟩) ∧
    (FilesUnwrapped fromStr s.files →
      (∀ id height now block, s.calls id = some ⟨height, now, .returned (.ok block)⟩ →
        s.IsOf fromStr height block) ∧
      ∀ l halt, ¬ Step fromStr fallbackThreshold s l (.error halt)) := by
  have hhighest := isHighest_of_run hinit hrun
  refine ⟨hhighest, fun id height now message hcall => gaveUp_of_run hinit hrun hcall,
    fun id height now fetch hfetch hle => ?_, fun hunwrapped => ?_⟩
  · rw [HlNodeSource.check, isLimited_eq_false hhighest hfetch hle]
    rfl
  · have hcollects := collects_of_reachable ⟨s₀, ls, hinit, hrun⟩ hunwrapped
    exact ⟨fun id height now block hcall => hcollects.calls id _ hcall,
      fun l halt => hcollects.not_halts hunwrapped⟩

/-! ### A call that gives up -/

/-- A source without files. -/
def emptySource : HlNodeSource Unit where
  files _ := none
  localBlocksCache := .new cacheSize
  lastLocalFetch := none
  calls _ := none
  served := []
  answers := []

/-- The fallback answers block 5, and block 6 is asked for right after that. -/
def fallbackRun : List (CollectLabel Unit) :=
  [.call 0 5 0, .lookUp 0, .check 0, .answer 0 (.ok (zeroBlock 5)), .finish 0, .call 1 6 10,
    .lookUp 1, .check 1]

/-- With a threshold of 5 seconds, block 6 is not asked for yet, and block 5 is what the fallback
    has answered. -/
theorem collectBlock_spec_limited : ∃ s,
    Run (collectBlock (fun _ => none) 5000000000) emptySource fallbackRun s ∧
    s.calls 1 = some ⟨6, 10, .returned (.error .limited)⟩ ∧
    GaveUp (fun _ => none) 5000000000 emptySource fallbackRun 1 6 10 ∧
    s.IsOf (fun _ => none) 5 (zeroBlock 5) := by
  have hrun : Run (collectBlock (fun _ => none) 5000000000) emptySource fallbackRun _ :=
    .cons (.call rfl) <| .cons (.lookUp rfl) <| .cons (.check rfl) <| .cons (.answer rfl) <|
      .cons (.finish rfl) <| .cons (.call rfl) <| .cons (.lookUp rfl) <| .single (.check rfl)
  obtain ⟨-, hgaveUp, -, hblocks⟩ := collectBlock_spec ⟨rfl, rfl, rfl, rfl, rfl⟩ hrun
  have hfound := hblocks fun path content hfile => by cases hfile
  exact ⟨_, hrun, rfl, hgaveUp 1 6 10 _ rfl, hfound.1 0 5 0 _ rfl⟩

end HlNodeSource

end Nanoreth
