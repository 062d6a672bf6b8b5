import EvmState.DataTypes

/-!
# Hardfork schedules and the environments built from headers

The fork of a block is looked up in a schedule over two clocks, block number and
timestamp. The block environment is filled from the header alone, by a function
that does not know the fork.
-/

namespace EvmState

/-- revm's `SpecId`, oldest fork first. -/
inductive SpecId where
  | FRONTIER
  | FRONTIER_THAWING
  | HOMESTEAD
  | DAO_FORK
  | TANGERINE
  | SPURIOUS_DRAGON
  | BYZANTIUM
  | CONSTANTINOPLE
  | PETERSBURG
  | ISTANBUL
  | MUIR_GLACIER
  | BERLIN
  | LONDON
  | ARROW_GLACIER
  | GRAY_GLACIER
  | MERGE
  | SHANGHAI
  | CANCUN
  | PRAGUE
  | OSAKA
deriving DecidableEq, Repr

/-- `SpecId::is_enabled_in`: the fork `other` is active in `s`. -/
def SpecId.isEnabledIn (s other : SpecId) : Bool := decide (other.ctorIdx ≤ s.ctorIdx)

/-- How a hardfork is activated. -/
inductive HardforkCondition where
  | block (n : U64)
  | timestamp (t : U64)
deriving DecidableEq, Repr

structure HardforkActivation where
  condition : HardforkCondition
  specId : SpecId
deriving DecidableEq, Repr

structure ChainSpec where
  chainId : U64
  hardforks : List HardforkActivation
  requiresStateDiffs : Bool
  disableBalanceCheck : Bool
deriving DecidableEq, Repr

def HardforkCondition.active (c : HardforkCondition) (blockNumber timestamp : U64) : Bool :=
  match c with
  | .block n => decide (n ≤ blockNumber)
  | .timestamp t => decide (t ≤ timestamp)

/-- What is in force stays in force as blocks and time go on. -/
theorem HardforkCondition.active_mono {c : HardforkCondition} {n n' t t' : U64} (hn : n ≤ n')
    (ht : t ≤ t') (h : c.active n t = true) : c.active n' t' = true := by
  cases c with
  | block b =>
      simp only [active, decide_eq_true_eq] at h ⊢
      exact BitVec.le_trans h hn
  | timestamp T =>
      simp only [active, decide_eq_true_eq] at h ⊢
      exact BitVec.le_trans h ht

/-- `ChainSpec::spec_at`: the latest activation whose condition is met. -/
def ChainSpec.specAt (c : ChainSpec) (blockNumber timestamp : U64) : SpecId :=
  match c.hardforks.reverse.find? (fun hf => hf.condition.active blockNumber timestamp) with
  | some hf => hf.specId
  | none => .FRONTIER

/-- Polygon PoS: block activations only. -/
def polygonMainnet : ChainSpec where
  chainId := 137
  hardforks :=
    [ ⟨.block 0, .PETERSBURG⟩,
      ⟨.block 3395000, .ISTANBUL⟩,
      ⟨.block 3395000, .MUIR_GLACIER⟩,
      ⟨.block 14750000, .BERLIN⟩,
      ⟨.block 23850000, .LONDON⟩,
      ⟨.block 50523000, .SHANGHAI⟩,
      ⟨.block 54876000, .CANCUN⟩,
      ⟨.block 73440256, .PRAGUE⟩ ]
  requiresStateDiffs := true
  disableBalanceCheck := true

/-- Ethereum mainnet: block activations up to the Merge, timestamps after it. -/
def ethereumMainnet : ChainSpec where
  chainId := 1
  hardforks :=
    [ ⟨.block 0, .FRONTIER⟩,
      ⟨.block 200000, .FRONTIER_THAWING⟩,
      ⟨.block 1150000, .HOMESTEAD⟩,
      ⟨.block 1920000, .DAO_FORK⟩,
      ⟨.block 2463000, .TANGERINE⟩,
      ⟨.block 2675000, .SPURIOUS_DRAGON⟩,
      ⟨.block 4370000, .BYZANTIUM⟩,
      ⟨.block 7280000, .PETERSBURG⟩,
      ⟨.block 9069000, .ISTANBUL⟩,
      ⟨.block 9200000, .MUIR_GLACIER⟩,
      ⟨.block 12244000, .BERLIN⟩,
      ⟨.block 12965000, .LONDON⟩,
      ⟨.block 13773000, .ARROW_GLACIER⟩,
      ⟨.block 15050000, .GRAY_GLACIER⟩,
      ⟨.block 15537394, .MERGE⟩,
      ⟨.timestamp 1681338455, .SHANGHAI⟩,
      ⟨.timestamp 1710338135, .CANCUN⟩,
      ⟨.timestamp 1746612311, .PRAGUE⟩ ]
  requiresStateDiffs := false
  disableBalanceCheck := false

/-- `from_chain_id`: the built-in specs. -/
def fromChainId (chainId : U64) : Option ChainSpec :=
  if chainId = 1 then some ethereumMainnet
  else if chainId = 137 then some polygonMainnet
  else none

/-! ## Environments -/

/-- revm's `BlobExcessGasAndPrice`. -/
structure BlobExcessGasAndPrice where
  excessBlobGas : U64
  blobGasprice : BitVec 128
deriving DecidableEq, Repr

/-- revm's `BlockEnv`. -/
structure BlockEnv where
  number : U64
  beneficiary : Address
  timestamp : U64
  gasLimit : U64
  basefee : U64
  difficulty : U256
  prevrandao : Option B256
  blobExcessGasAndPrice : Option BlobExcessGasAndPrice
deriving DecidableEq, Repr

inductive TxKind where
  | create
  | call (toAddr : Address)
deriving DecidableEq, Repr

/-- The fields of revm's `TxEnv` that the crates set. -/
structure TxEnv where
  txType : BitVec 8
  caller : Address
  gasLimit : U64
  gasPrice : BitVec 128
  kind : TxKind
  value : U256
  data : Bytes
  nonce : U64
  chainId : Option U64
  gasPriorityFee : Option (BitVec 128)
deriving DecidableEq, Repr

/-- The fields of revm's `CfgEnv` that the crates set. -/
structure CfgEnv where
  spec : SpecId
  chainId : U64
  disableBalanceCheck : Bool
deriving DecidableEq, Repr

/-- Build a `BlockEnv` from a portal header. -/
def blockEnvFromHeader (header : BlockHeader) : BlockEnv where
  number := header.number
  beneficiary := header.miner.getD 0
  timestamp := header.timestamp.getD 0
  gasLimit := header.gasLimit.getD 30000000
  basefee := header.baseFeePerGas.getD 0
  difficulty := (header.difficulty.getD 0).setWidth 256
  prevrandao := header.mixHash
  -- the portal's header has no blob fields
  blobExcessGasAndPrice := none

/-- Build a `TxEnv` from a portal transaction and the chain's id. -/
def txEnvFromTransaction (tx : Transaction) (chainId : U64) : TxEnv where
  txType := tx.txType.getD 0
  caller := tx.fromAddr.getD 0
  gasLimit := tx.gas.getD 21000
  gasPrice :=
    -- a dynamic-fee transaction pays up to its own maximum
    if tx.txType = some 2 then (tx.maxFeePerGas.getD 0).setWidth 128
    else (tx.gasPrice.getD 0).setWidth 128
  kind :=
    match tx.toAddr with
    | some addr => .call addr
    | none => .create
  value := tx.value.getD 0
  data := tx.input.getD []
  nonce := tx.nonce.getD 0
  chainId := some chainId
  gasPriorityFee :=
    if tx.txType = some 2 then tx.maxPriorityFeePerGas.map (fun g => g.setWidth 128) else none

end EvmState
