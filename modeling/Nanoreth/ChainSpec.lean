import Nanoreth.Primitives.Block

/-!
# Hard forks

The hard forks of the chain (`chainspec/hl.rs`): all those of Ethereum up to Cancun are
active from the start, and none after it is.
-/

namespace Nanoreth

/-- The hardforks of Ethereum. -/
inductive EthereumHardfork
  | frontier | homestead | dao | tangerine | spuriousDragon | byzantium | constantinople
  | petersburg
  | istanbul | berlin | london | paris | shanghai | cancun | prague
  deriving DecidableEq

/-- When a hard fork is activated. -/
inductive ForkCondition
  | block (number : UInt64)
  | ttd (activationBlockNumber : UInt64)
  | timestamp (time : UInt64)
  | never
  deriving DecidableEq

namespace ForkCondition

/-- Whether a fork that is activated by block numbers is active at a block. -/
def activeAtBlock (condition : ForkCondition) (currentBlock : UInt64) : Bool :=
  match condition with
  | block number => number ≤ currentBlock
  | ttd number => number ≤ currentBlock
  | _ => false

/-- Whether a fork that is activated by times is active at a time. -/
def activeAtTimestamp (condition : ForkCondition) (currentTime : UInt64) : Bool :=
  match condition with
  | timestamp time => time ≤ currentTime
  | _ => false

end ForkCondition

/-- The specification of a chain: its hard forks, and the excess blob gas of a block at a
    timestamp, given its parent. -/
structure ChainSpec where
  hardforks : List (EthereumHardfork × ForkCondition)
  maybeNextBlockExcessBlobGas : Header → UInt64 → Option UInt64

namespace ChainSpec

variable (spec : ChainSpec)

/-- When a fork is activated, which is never if the specification does not have it. -/
def fork (hardfork : EthereumHardfork) : ForkCondition :=
  (spec.hardforks.lookup hardfork).getD .never

/-- Whether receipts have a status. -/
def isByzantiumActiveAtBlock (number : UInt64) : Bool :=
  (spec.fork .byzantium).activeAtBlock number

/-- Whether blocks have withdrawals. -/
def isShanghaiActiveAtTimestamp (timestamp : UInt64) : Bool :=
  (spec.fork .shanghai).activeAtTimestamp timestamp

/-- Whether blocks have blobs. -/
def isCancunActiveAtTimestamp (timestamp : UInt64) : Bool :=
  (spec.fork .cancun).activeAtTimestamp timestamp

/-- Whether blocks have requests. -/
def isPragueActiveAtTimestamp (timestamp : UInt64) : Bool :=
  (spec.fork .prague).activeAtTimestamp timestamp

end ChainSpec

/-- The hard forks of the chain of the node. -/
def hlHardforks : List (EthereumHardfork × ForkCondition) :=
  [(.frontier, .block 0), (.homestead, .block 0), (.dao, .block 0), (.tangerine, .block 0),
   (.spuriousDragon, .block 0), (.byzantium, .block 0), (.constantinople, .block 0),
   (.petersburg, .block 0), (.istanbul, .block 0), (.berlin, .block 0), (.london, .block 0),
   (.paris, .ttd 0), (.shanghai, .timestamp 0), (.cancun, .timestamp 0)]

/-- On the chain of the node, Byzantium is active and Prague is not, at all times. -/
theorem hlHardforks_active (spec : ChainSpec) (h : spec.hardforks = hlHardforks) (n : UInt64) :
    spec.isByzantiumActiveAtBlock n = true ∧ spec.isPragueActiveAtTimestamp n = false := by
  have hbyzantium : spec.fork .byzantium = .block 0 := by rw [ChainSpec.fork, h]; rfl
  have hprague : spec.fork .prague = .never := by rw [ChainSpec.fork, h]; rfl
  rw [ChainSpec.isByzantiumActiveAtBlock, ChainSpec.isPragueActiveAtTimestamp, hbyzantium, hprague]
  simp [ForkCondition.activeAtBlock, ForkCondition.activeAtTimestamp]

end Nanoreth
