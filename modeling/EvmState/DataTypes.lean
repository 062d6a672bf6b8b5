import EvmState.Primitives

/-!
# Blocks as the portal delivers them

The fields of the SQD block format that the replayer reads. Numeric fields that
travel as hexadecimal strings (`HexU64`) are already words here; everything that
may be absent is optional.
-/

namespace EvmState

/-- Block header from the portal. -/
structure BlockHeader where
  number : U64
  timestamp : Option U64 := none
  mixHash : Option B256 := none
  miner : Option Address := none
  difficulty : Option U64 := none
  gasLimit : Option U64 := none
  baseFeePerGas : Option U64 := none
deriving DecidableEq, Repr

/-- Transaction from the portal. -/
structure Transaction where
  hash : Option B256 := none
  fromAddr : Option Address := none
  toAddr : Option Address := none
  input : Option Bytes := none
  value : Option U256 := none
  nonce : Option U64 := none
  gas : Option U64 := none
  gasPrice : Option U64 := none
  maxFeePerGas : Option U64 := none
  maxPriorityFeePerGas : Option U64 := none
  txType : Option (BitVec 8) := none
deriving DecidableEq, Repr

/-- A single storage slot or account field change within a block. -/
structure StateDiff where
  address : Option Address := none
  /-- Storage key, or special key: "balance", "code", "nonce". -/
  key : Option String := none
  /-- "=" (unchanged), "+" (created), "*" (modified), "-" (deleted). -/
  kind : Option String := none
  next : Option String := none
deriving DecidableEq, Repr

structure Block where
  header : BlockHeader
  transactions : List Transaction := []
  stateDiffs : List StateDiff := []
deriving DecidableEq, Repr

end EvmState
