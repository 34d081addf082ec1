import Nanoreth.Lib.AppendTable
import Nanoreth.Lib.Overwrite
import Nanoreth.Lib.Partial
import Nanoreth.Lib.Rlp
import Nanoreth.Primitives.Block

/-!
# Storage of bodies

How the node stores the bodies of blocks (`storage/mod.rs`). The Ethereum part of a body goes
to the storage of a dependency, and its precompile data to a table of the node,
`BlockReadPrecompileCalls`, whose entries are appended in the order of block numbers and
removed from its end. The sidecars of a body are not stored.

Reading bodies reads the two parts separately, and joins them by position. That they belong
together is an invariant of the two (`Lockstep`), between what is stored and the bodies that
were last written and not removed since (`written`). It is kept by every operation, and
determines what is read (`readBlockBodies_eq`).

The dependency is a map by block number, `EthStorage`, whose operations may fail. An operation
that fails aborts the transaction, and stores nothing.
-/

namespace Nanoreth

open Overwrite Partial

/-- The Ethereum part of a body. -/
abbrev EthBody := BlockBody TransactionSigned HlHeader

/-- What is given to read a body: its header and its transactions, which are stored
    elsewhere. -/
abbrev ReadBodyInput := HlHeader × List TransactionSigned

/-- The number of the block whose body is read. -/
def ReadBodyInput.number (input : ReadBodyInput) : ℕ := input.1.inner.number.toNat

/-- The bodies of a list that are there. -/
def presentBodies (bodies : List (ℕ × Option EthBody)) : List (ℕ × EthBody) :=
  bodies.filterMap fun entry => entry.2.map (entry.1, ·)

/-- The storage of Ethereum bodies, with states `E` and errors `ε`: a map by block number. -/
structure EthStorage (E ε : Type) where
  empty : E
  writeBlockBodies : E → List (ℕ × Option EthBody) → Except ε E
  removeBlockBodiesAbove : E → ℕ → Except ε E
  readBlockBodies : E → List ReadBodyInput → Except ε (List EthBody)
  /-- The body stored for a block. -/
  body : E → ℕ → Option EthBody
  /-- What is read of a block for which no body is stored. -/
  bodyless : ReadBodyInput → EthBody
  body_empty : ∀ n, body empty n = none
  body_write : ∀ e bodies e', writeBlockBodies e bodies = .ok e' → ∀ n,
    body e' n = (lastEntry (presentBodies bodies) n).or (body e n)
  body_remove : ∀ e block e', removeBlockBodiesAbove e block = .ok e' → ∀ n,
    body e' n = if n ≤ block then body e n else none
  read_eq : ∀ e inputs, readBlockBodies e inputs =
    .ok (inputs.map fun input => (body e input.number).getD (bodyless input))

/-- The MessagePack codec of precompile data. -/
structure ExtrasCodec where
  toVec : HlExtras → Bytes
  fromSlice : Bytes → Option HlExtras
  fromSlice_toVec : ∀ extras, fromSlice (toVec extras) = some extras

/-- Why an operation fails. -/
inductive StorageError (ε : Type)
  /-- An error of the dependency. -/
  | provider (error : ε)
  /-- The block is not after all others of the table. -/
  | append (blockNumber : ℕ)
  | panic (halt : Halt)

/-- The two parts of what is stored. -/
structure Database (E : Type) where
  eth : E
  blockReadPrecompileCalls : AppendTable ℕ Bytes

variable {E ε : Type} (S : EthStorage E ε) (M : ExtrasCodec)

/-- The precompile data that is stored for a body, the default for a missing one. -/
def storedExtras : Option HlBlockBody → HlExtras
  | some body => body.extras
  | none => ⟨none, none⟩

/-! ## Operations -/

/-- Appends precompile data to the table. -/
def writePrecompileCalls (table : AppendTable ℕ Bytes) (inputs : List (ℕ × HlExtras)) :
    Except (StorageError ε) (AppendTable ℕ Bytes) :=
  inputs.foldlM (fun table input =>
    match table.append input.1 (M.toVec input.2) with
    | some table => .ok table
    | none => .error (.append input.1)) table

/-- The precompile data of blocks, the default where there is none. -/
def readPrecompileCalls (table : AppendTable ℕ Bytes) (inputs : List ReadBodyInput) :
    Except (StorageError ε) (List HlExtras) :=
  inputs.mapM fun input =>
    match table.seekExact input.number with
    | none => .ok ⟨none, none⟩
    | some (_, calls) =>
      match M.fromSlice calls with
      | some extras => .ok extras
      | none => .error (.panic (.panic "called `Result::unwrap()` on an `Err` value"))

/-- Writes bodies to both parts. -/
def writeBlockBodies (db : Database E) (bodies : List (ℕ × Option HlBlockBody)) :
    Except (StorageError ε) (Database E) := do
  let ethBodies := bodies.map fun entry => (entry.1, entry.2.map (·.inner))
  let readPrecompileCalls := bodies.map fun entry => (entry.1, storedExtras entry.2)
  let eth ← (S.writeBlockBodies db.eth ethBodies).mapError .provider
  let table ← writePrecompileCalls M db.blockReadPrecompileCalls readPrecompileCalls
  return ⟨eth, table⟩

/-- Removes the bodies above a block from both parts. -/
def removeBlockBodiesAbove (db : Database E) (block : ℕ) :
    Except (StorageError ε) (Database E) := do
  let eth ← (S.removeBlockBodiesAbove db.eth block).mapError .provider
  return ⟨eth, db.blockReadPrecompileCalls.unwind block⟩

/-- Reads bodies from both parts. -/
def readBlockBodies (db : Database E) (inputs : List ReadBodyInput) :
    Except (StorageError ε) (List HlBlockBody) := do
  let readPrecompileCalls ← readPrecompileCalls M db.blockReadPrecompileCalls inputs
  let ethBodies ← (S.readBlockBodies db.eth inputs).mapError .provider
  return (ethBodies.zip readPrecompileCalls).map fun (inner, extra) =>
    { inner := inner
      sidecars := none
      readPrecompileCalls := extra.readPrecompileCalls
      highestPrecompileAddress := extra.highestPrecompileAddress }

/-- An operation that changes what is stored. -/
inductive StorageOp
  | writeBlockBodies (bodies : List (ℕ × Option HlBlockBody))
  | removeBlockBodiesAbove (block : ℕ)

/-- What an operation does. -/
def StorageOp.apply (db : Database E) : StorageOp → Except (StorageError ε) (Database E)
  | .writeBlockBodies bodies => Nanoreth.writeBlockBodies S M db bodies
  | .removeBlockBodiesAbove block => Nanoreth.removeBlockBodiesAbove S db block

/-- Operations on an empty database, all of which have to succeed. -/
def runStorage (ops : List StorageOp) : Except (StorageError ε) (Database E) :=
  ops.foldlM (fun db op => op.apply S M db) ⟨S.empty, .empty⟩

/-! ## What is written -/

/-- What is last written for a block, and not removed: nothing, or that the body is missing,
    or a body. -/
def StorageOp.written (n : ℕ) (last : Option (Option HlBlockBody)) :
    StorageOp → Option (Option HlBlockBody)
  | .writeBlockBodies bodies => (lastEntry bodies n).or last
  | .removeBlockBodiesAbove block => if n ≤ block then last else none

/-- What is last written for a block by operations in turn. -/
def written (ops : List StorageOp) (n : ℕ) : Option (Option HlBlockBody) :=
  ops.foldl (StorageOp.written n) none

/-- What is read of a block: the body without its sidecars. -/
def readBody (input : ReadBodyInput) : Option HlBlockBody → HlBlockBody
  | some body => { body with sidecars := none }
  | none => ⟨S.bodyless input, none, none, none⟩

/-! ## Lockstep -/

/-- The two parts of a database hold what is written: the bodies that are not missing, and the
    precompile data of all blocks. -/
structure Lockstep (db : Database E) (w : ℕ → Option (Option HlBlockBody)) : Prop where
  eth : ∀ n, S.body db.eth n = (w n).join.map (·.inner)
  table : ∀ n bytes, (n, bytes) ∈ db.blockReadPrecompileCalls.entries ↔
    ∃ body, w n = some body ∧ M.toVec (storedExtras body) = bytes

variable {S M} {db db' : Database E} {w : ℕ → Option (Option HlBlockBody)}

theorem lockstep_empty : Lockstep S M ⟨S.empty, .empty⟩ fun _ => none where
  eth n := S.body_empty n
  table n bytes := by simp [AppendTable.empty]

/-- Writing appends a row per body. -/
theorem entries_of_writePrecompileCalls {table table' : AppendTable ℕ Bytes}
    {inputs : List (ℕ × HlExtras)}
    (h : writePrecompileCalls (ε := ε) M table inputs = .ok table') :
    table'.entries = table.entries ++ inputs.map fun input => (input.1, M.toVec input.2) := by
  induction inputs generalizing table with
  | nil =>
    cases h
    simp
  | cons input inputs ih =>
    obtain ⟨table₁, h₁, h⟩ := except_bind_eq_ok.1 h
    cases happend : table.append input.1 (M.toVec input.2) with
    | none => simp [happend] at h₁
    | some table₂ =>
      simp only [happend, Except.ok.injEq] at h₁
      subst h₁
      rw [ih h, AppendTable.entries_of_append happend, List.append_assoc]
      rfl

/-- With distinct block numbers, the bodies passed on for a block are those written for it. -/
theorem lastEntry_presentBodies {bodies : List (ℕ × Option HlBlockBody)}
    (hnodup : (bodies.map (·.1)).Nodup) (n : ℕ) :
    lastEntry (presentBodies (bodies.map fun entry => (entry.1, entry.2.map (·.inner)))) n =
      (lastEntry bodies n).join.map (·.inner) := by
  induction bodies with
  | nil => rfl
  | cons entry bodies ih =>
    obtain ⟨k, body⟩ := entry
    rw [List.map_cons, List.nodup_cons] at hnodup
    -- Numbers are not repeated, so a body that is none is not followed by another one.
    have hnone : k = n → lastEntry bodies n = none := by
      rintro rfl
      exact lastEntry_eq_none fun entry hentry heq =>
        hnodup.1 (List.mem_map.2 ⟨entry, hentry, heq⟩)
    specialize ih hnodup.2
    cases body with
    | none =>
      rw [lastEntry_cons]
      refine ih.trans ?_
      split_ifs with hk
      · rw [hnone hk]
        rfl
      · rw [Option.or_none]
    | some body =>
      change lastEntry ((k, body.inner) :: presentBodies _) n = _
      rw [lastEntry_cons, lastEntry_cons, ih]
      split_ifs with hk
      · rw [hnone hk]
        rfl
      · rw [Option.or_none, Option.or_none]

/-- The block numbers of a write are distinct, and not stored yet: the table is sorted. -/
theorem Lockstep.new_of_write {bodies : List (ℕ × Option HlBlockBody)}
    {table : AppendTable ℕ Bytes} (hdb : Lockstep S M db w)
    (hentries : table.entries = db.blockReadPrecompileCalls.entries ++
      bodies.map fun body => (body.1, M.toVec (storedExtras body.2))) :
    (bodies.map (·.1)).Nodup ∧ ∀ n body, lastEntry bodies n = some body → w n = none := by
  have hsorted := table.sorted
  rw [hentries, List.pairwise_append, List.pairwise_map] at hsorted
  refine ⟨?_, fun n body hlast => ?_⟩
  · rw [List.Nodup, List.pairwise_map]
    exact hsorted.2.1.imp fun hlt => hlt.ne
  · cases hw : w n with
    | none => rfl
    | some body' =>
      have hold := (hdb.table n _).2 ⟨body', hw, rfl⟩
      exact absurd (hsorted.2.2 _ hold _ (List.mem_map_of_mem (mem_of_lastEntry hlast)))
        (lt_irrefl n)

/-- Writing keeps the tables in lockstep. -/
theorem Lockstep.write {bodies : List (ℕ × Option HlBlockBody)} (hdb : Lockstep S M db w)
    (h : writeBlockBodies S M db bodies = .ok db') :
    Lockstep S M db' fun n => (lastEntry bodies n).or (w n) := by
  obtain ⟨eth, heth, h⟩ := except_bind_eq_ok.1 h
  obtain ⟨table, htable, h⟩ := except_bind_eq_ok.1 h
  cases h
  have hentries := entries_of_writePrecompileCalls htable
  rw [List.map_map] at hentries
  obtain ⟨hnodup, hnew⟩ := hdb.new_of_write hentries
  constructor
  -- The table of bodies.
  · intro n
    rw [S.body_write _ _ _ (mapError_eq_ok.1 heth), lastEntry_presentBodies hnodup, hdb.eth]
    cases hlast : lastEntry bodies n with
    | none => rfl
    | some body =>
      rw [hnew n body hlast]
      cases body <;> rfl
  -- The table of recorded calls has a row for every body, even for none.
  · intro n bytes
    simp only [hentries, List.mem_append, hdb.table, List.mem_map, Function.comp_apply]
    constructor
    · rintro (⟨body, hw, rfl⟩ | ⟨⟨n', body⟩, hmem, heq⟩)
      · cases hlast : lastEntry bodies n with
        | none => exact ⟨body, hw, rfl⟩
        | some body' => exact absurd hw (by simp [hnew n body' hlast])
      · cases heq
        exact ⟨body, by rw [lastEntry_of_mem hnodup hmem]; rfl, rfl⟩
    · rintro ⟨body, hbody, rfl⟩
      rcases Option.or_eq_some_iff.1 hbody with hlast | ⟨-, hw⟩
      · exact .inr ⟨(n, body), mem_of_lastEntry hlast, rfl⟩
      · exact .inl ⟨body, hw, rfl⟩

/-- Removing keeps the tables in lockstep. -/
theorem Lockstep.remove {block : ℕ} (hdb : Lockstep S M db w)
    (h : removeBlockBodiesAbove S db block = .ok db') :
    Lockstep S M db' fun n => if n ≤ block then w n else none := by
  obtain ⟨eth, heth, h⟩ := except_bind_eq_ok.1 h
  cases h
  constructor
  · intro n
    rw [S.body_remove _ _ _ (mapError_eq_ok.1 heth), hdb.eth]
    split_ifs <;> rfl
  · intro n bytes
    rw [AppendTable.entries_unwind, List.mem_filter, hdb.table, decide_eq_true_iff]
    split_ifs with hle
    · exact and_iff_left hle
    · exact ⟨fun hmem => absurd hmem.2 hle, fun ⟨_, hnone, _⟩ => nomatch hnone⟩

/-- Every operation keeps the two parts in lockstep. -/
theorem Lockstep.apply {op : StorageOp} (hdb : Lockstep S M db w)
    (h : op.apply S M db = .ok db') : Lockstep S M db' fun n => op.written n (w n) := by
  cases op with
  | writeBlockBodies bodies => exact hdb.write h
  | removeBlockBodiesAbove block => exact hdb.remove h

/-- The tables are in lockstep after any operations. -/
theorem lockstep_run {ops : List StorageOp} (h : runStorage S M ops = .ok db) :
    Lockstep S M db (written ops) := by
  suffices ∀ db₀ w₀, Lockstep S M db₀ w₀ →
      ops.foldlM (fun db op => op.apply S M db) db₀ = .ok db →
      Lockstep S M db fun n => ops.foldl (StorageOp.written n) (w₀ n) from
    this _ _ lockstep_empty h
  clear h
  induction ops with
  | nil =>
    intro db₀ w₀ hdb₀ h
    cases h
    exact hdb₀
  | cons op ops ih =>
    intro db₀ w₀ hdb₀ h
    obtain ⟨db₁, h₁, h⟩ := except_bind_eq_ok.1 h
    exact ih db₁ _ (hdb₀.apply h₁) h

/-! ## Reading -/

/-- What is read is what was written. -/
theorem Lockstep.readPrecompileCalls_eq (hdb : Lockstep S M db w)
    {inputs : List (ReadBodyInput × Option HlBlockBody)}
    (h : ∀ input ∈ inputs, w input.1.number = some input.2) :
    readPrecompileCalls (ε := ε) M db.blockReadPrecompileCalls (inputs.map (·.1)) =
      .ok (inputs.map fun input => storedExtras input.2) := by
  rw [readPrecompileCalls, List.mapM_map]
  refine mapM_eq_ok fun input hinput => ?_
  have hmem := (hdb.table _ _).2 ⟨input.2, h input hinput, rfl⟩
  simp only [Function.comp_apply, AppendTable.seekExact_eq_some.2 hmem, M.fromSlice_toVec]

/-- The bodies read for blocks are those last written, in the order asked. -/
theorem Lockstep.readBlockBodies_eq (hdb : Lockstep S M db w)
    {inputs : List (ReadBodyInput × Option HlBlockBody)}
    (h : ∀ input ∈ inputs, w input.1.number = some input.2) :
    readBlockBodies S M db (inputs.map (·.1)) =
      .ok (inputs.map fun input => readBody S input.1 input.2) := by
  rw [readBlockBodies, hdb.readPrecompileCalls_eq h, S.read_eq]
  change Except.ok _ = _
  rw [List.map_map, List.zip_map', List.map_map]
  refine congrArg Except.ok (List.map_congr_left fun input hinput => ?_)
  simp only [Function.comp_apply, hdb.eth, h input hinput]
  cases input.2 <;> rfl

/-! ## Runs -/

/-- What is written for a block is in one of the operations. -/
theorem mem_of_written {ops : List StorageOp} {n : ℕ} {body : Option HlBlockBody}
    (h : written ops n = some body) :
    ∃ bodies, .writeBlockBodies bodies ∈ ops ∧ (n, body) ∈ bodies := by
  induction ops using List.reverseRecOn with
  | nil => cases h
  | append_singleton ops op ih =>
    rw [written, List.foldl_append] at h
    have hmem (hops : written ops n = some body) :
        ∃ bodies, .writeBlockBodies bodies ∈ ops ++ [op] ∧ (n, body) ∈ bodies := by
      obtain ⟨bodies, hbodies, hbody⟩ := ih hops
      exact ⟨bodies, List.mem_append_left _ hbodies, hbody⟩
    cases op with
    | writeBlockBodies bodies =>
      rcases Option.or_eq_some_iff.1 h with hlast | ⟨-, hops⟩
      · exact ⟨bodies, List.mem_append_right _ List.mem_cons_self, mem_of_lastEntry hlast⟩
      · exact hmem hops
    | removeBlockBodiesAbove block =>
      exact hmem (Option.ite_none_right_eq_some.1 h).2

/-- What was written before a removal does not matter for the removed blocks. -/
theorem written_removed {before after : List StorageOp} {block n : ℕ} (h : block < n) :
    written (before ++ .removeBlockBodiesAbove block :: after) n = written after n := by
  rw [written, List.foldl_append, List.foldl_cons]
  exact congrArg (fun last => after.foldl (StorageOp.written n) last) (if_neg (Nat.not_le.2 h))

/-- After operations that all succeed, the table has the blocks that were written and not
    removed since. Reading any list of them gives the bodies last written, without sidecars,
    and the bodies read of blocks that were removed are written after the removal. -/
theorem storage_lockstep (S : EthStorage E ε) (M : ExtrasCodec) (ops : List StorageOp)
    (db : Database E) (h : runStorage S M ops = .ok db) :
    (∀ n, (∃ bytes, (n, bytes) ∈ db.blockReadPrecompileCalls.entries) ↔
      (written ops n).isSome) ∧
    (∀ inputs : List (ReadBodyInput × Option HlBlockBody),
      (∀ input ∈ inputs, written ops input.1.number = some input.2) →
      readBlockBodies S M db (inputs.map (·.1)) =
        .ok (inputs.map fun input => readBody S input.1 input.2)) ∧
    ∀ before block after, ops = before ++ .removeBlockBodiesAbove block :: after →
      ∀ n body, block < n → written ops n = some body →
        ∃ bodies, .writeBlockBodies bodies ∈ after ∧ (n, body) ∈ bodies := by
  have hdb := lockstep_run h
  refine ⟨fun n => ?_, fun inputs hinputs => hdb.readBlockBodies_eq hinputs, ?_⟩
  · rw [Option.isSome_iff_exists]
    simp only [hdb.table]
    exact ⟨fun ⟨_, body, hbody, _⟩ => ⟨body, hbody⟩, fun ⟨body, hbody⟩ => ⟨_, body, hbody, rfl⟩⟩
  · rintro before block after rfl n body hn hbody
    exact mem_of_written ((written_removed hn).symm.trans hbody)

/-- A storage of Ethereum bodies that never fails. -/
def mapStorage : EthStorage (ℕ → Option EthBody) Empty where
  empty _ := none
  writeBlockBodies e bodies :=
    .ok ((presentBodies bodies).foldl (fun e entry => Function.update e entry.1 (some entry.2)) e)
  removeBlockBodiesAbove e block := .ok fun n => if n ≤ block then e n else none
  readBlockBodies e inputs :=
    .ok (inputs.map fun input => (e input.number).getD ⟨input.2, [], none⟩)
  body e n := e n
  bodyless input := ⟨input.2, [], none⟩
  body_empty _ := rfl
  body_write e bodies e' h n := by
    cases h
    rw [foldl_update_eq (fun _ body => body), Option.map_id']
  body_remove e block e' h n := by
    cases h
    rfl
  read_eq _ _ := rfl

/-- There is a codec of precompile data. -/
theorem nonempty_extrasCodec : Nonempty ExtrasCodec := by
  obtain ⟨c, hc⟩ := Rlp.Codec.exists_roundTrips HlExtras
  refine ⟨⟨c.encode, fun bytes => (c.decode bytes).toOption.map (·.1), fun extras => ?_⟩⟩
  have hdecode := hc.decode_encode extras []
  rw [List.append_nil] at hdecode
  rw [hdecode]
  rfl

/-- A body with a sidecar and the given highest precompile. -/
def storedBody (highest : Address) : HlBlockBody :=
  ⟨⟨[], [], some []⟩, some [⟨[], [], []⟩], some [], some highest⟩

/-- What is given to read the body of a block without transactions. -/
def storedInput (number : UInt64) : ReadBodyInput :=
  (⟨{ (default : Header) with number := number }, ⟨0, 0⟩⟩, [])

/-- Blocks 2 and 3 are removed, and written again: block 2 with another body, block 3 without
    one. -/
def storageReorg : List StorageOp :=
  [.writeBlockBodies [(1, some (storedBody 1)), (2, some (storedBody 2)), (3, some (storedBody 3))],
    .removeBlockBodiesAbove 1,
    .writeBlockBodies [(2, some (storedBody 0x802)), (3, none)]]

/-- After the reorg, the blocks are read in any order, with the data written last. -/
theorem storage_lockstep_reorg : ∃ M db,
    runStorage mapStorage M storageReorg = .ok db ∧
    readBlockBodies mapStorage M db [storedInput 3, storedInput 1, storedInput 2] =
      .ok [⟨⟨[], [], none⟩, none, none, none⟩, { storedBody 1 with sidecars := none },
        { storedBody 0x802 with sidecars := none }] := by
  obtain ⟨M⟩ := nonempty_extrasCodec
  refine ⟨M, _, rfl, ?_⟩
  refine (storage_lockstep mapStorage M storageReorg _ rfl).2.1
    [(storedInput 3, none), (storedInput 1, some (storedBody 1)),
      (storedInput 2, some (storedBody 0x802))] ?_
  rw [List.forall_mem_cons, List.forall_mem_cons, List.forall_mem_singleton]
  exact ⟨rfl, rfl, rfl⟩

end Nanoreth
