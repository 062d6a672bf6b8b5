import EvmState.DataTypes
import EvmState.Lib.Record
import EvmState.Serde

/-!
# Blocks as they travel

All fields of the SQD block format, and the JSON that the derived readers and writers of
the structs make of them. A struct is written as an object of all its fields, an absent
one as `null`; it is read by the names of its fields, of which those that may be absent
may also be missing. Numbers that travel as hexadecimal strings are read by `HexU64`; how
hashes, addresses, byte strings and `U256` values are read is left to their library.

The fields the replayer reads are `Block.replayed`.
-/

namespace EvmState.Sqd

open Record (Reader next)

/-! ## Fields -/

/-- The readers that come with the types of hashes, addresses, byte strings and words. -/
structure AlloyReaders where
  b256 : JsonValue → Option B256
  address : JsonValue → Option Address
  bytes : JsonValue → Option Bytes
  u256 : JsonValue → Option U256

/-- An unsigned number of `n` bits. -/
def readUint (n : Nat) : JsonValue → Option (BitVec n)
  | .posInt v => fits n v.toNat
  | _ => none

def readString : JsonValue → Option String
  | .string s => some s
  | _ => none

/-- `HexU64::deserialize`. -/
def HexU64.ofJson : JsonValue → Option U64
  | .string s => U64.fromStrRadix (hexBody s) 16
  | _ => none

/-- `HexU64::serialize`. -/
def HexU64.toJson (v : U64) : JsonValue := .string (marked (Nat.toDigits 16 v.toNat))

section Fields

variable {α : Type}

/-- A field that must be there. -/
def required (read : JsonValue → Option α) : Reader JsonValue α :=
  next fun slot => slot.bind read

/-- `#[serde(default)]` on an `Option`. -/
def optional (read : JsonValue → Option α) : Reader JsonValue (Option α) :=
  next (readField fun v =>
    match v.nonNull with
    | none => some none
    | some v => (read v).map some)

/-- `#[serde(default)]` on a `Vec`. -/
def listed (read : JsonValue → Option α) : Reader JsonValue (List α) :=
  next fun slot =>
    match slot with
    | none => some []
    | some (.array items) => items.mapM read
    | some _ => none

/-- An `Option` field as it is written. -/
def written (write : α → JsonValue) (value : Option α) : JsonValue := (value.map write).getD .null

/-- A struct by its fields, as an object or as an array of them. -/
def readStruct (names : List String) (reader : Reader JsonValue α) (v : JsonValue) : Option α :=
  (v.fields names).bind (Record.readAll reader)

end Fields

def writeUint {n : Nat} (v : BitVec n) : JsonValue := .posInt (v.setWidth 64)
def writeB256 (v : B256) : JsonValue := .string v.toHex
def writeAddress (v : Address) : JsonValue := .string v.toHex
def writeBytes (v : Bytes) : JsonValue := .string (bytesToHex v)
def writeU256 (v : U256) : JsonValue := .string v.toHex

/-! ## Headers -/

/-- Block header from SQD Network. -/
structure BlockHeader where
  number : U64
  hash : Option B256 := none
  parentHash : Option B256 := none
  timestamp : Option U64 := none
  nonce : Option String := none
  sha3Uncles : Option B256 := none
  transactionsRoot : Option B256 := none
  stateRoot : Option B256 := none
  receiptsRoot : Option B256 := none
  mixHash : Option B256 := none
  miner : Option Address := none
  difficulty : Option U64 := none
  extraData : Option Bytes := none
  size : Option U64 := none
  gasLimit : Option U64 := none
  gasUsed : Option U64 := none
  baseFeePerGas : Option U64 := none
  l1BlockNumber : Option U64 := none
deriving DecidableEq, Repr

def BlockHeader.names : List String :=
  [ "number", "hash", "parentHash", "timestamp", "nonce", "sha3Uncles", "transactionsRoot",
    "stateRoot", "receiptsRoot", "mixHash", "miner", "difficulty", "extraData", "size",
    "gasLimit", "gasUsed", "baseFeePerGas", "l1BlockNumber" ]

def BlockHeader.values (h : BlockHeader) : List JsonValue :=
  [ writeUint h.number, written writeB256 h.hash, written writeB256 h.parentHash,
    written writeUint h.timestamp, written .string h.nonce, written writeB256 h.sha3Uncles,
    written writeB256 h.transactionsRoot, written writeB256 h.stateRoot,
    written writeB256 h.receiptsRoot, written writeB256 h.mixHash, written writeAddress h.miner,
    written HexU64.toJson h.difficulty, written writeBytes h.extraData, written writeUint h.size,
    written HexU64.toJson h.gasLimit, written HexU64.toJson h.gasUsed,
    written HexU64.toJson h.baseFeePerGas, written writeUint h.l1BlockNumber ]

def BlockHeader.reader (R : AlloyReaders) : Reader JsonValue BlockHeader := do
  let number ← required (readUint 64)
  let hash ← optional R.b256
  let parentHash ← optional R.b256
  let timestamp ← optional (readUint 64)
  let nonce ← optional readString
  let sha3Uncles ← optional R.b256
  let transactionsRoot ← optional R.b256
  let stateRoot ← optional R.b256
  let receiptsRoot ← optional R.b256
  let mixHash ← optional R.b256
  let miner ← optional R.address
  let difficulty ← optional HexU64.ofJson
  let extraData ← optional R.bytes
  let size ← optional (readUint 64)
  let gasLimit ← optional HexU64.ofJson
  let gasUsed ← optional HexU64.ofJson
  let baseFeePerGas ← optional HexU64.ofJson
  let l1BlockNumber ← optional (readUint 64)
  return {
    number, hash, parentHash, timestamp, nonce, sha3Uncles, transactionsRoot, stateRoot,
    receiptsRoot, mixHash, miner, difficulty, extraData, size, gasLimit, gasUsed,
    baseFeePerGas, l1BlockNumber }

def BlockHeader.toJson (h : BlockHeader) : JsonValue := .object (names.zip h.values)

def BlockHeader.ofJson (R : AlloyReaders) : JsonValue → Option BlockHeader :=
  readStruct names (reader R)

/-! ## Transactions -/

/-- Transaction from SQD Network. -/
structure Transaction where
  transactionIndex : BitVec 32
  hash : Option B256 := none
  fromAddr : Option Address := none
  toAddr : Option Address := none
  input : Option Bytes := none
  value : Option U256 := none
  nonce : Option U64 := none
  gas : Option U64 := none
  gasPrice : Option U64 := none
  maxFeePerGas : Option U64 := none
  maxPriorityFeePerGas : Option U64 := none
  yParity : Option U64 := none
  chainId : Option U64 := none
  gasUsed : Option U64 := none
  cumulativeGasUsed : Option U64 := none
  effectiveGasPrice : Option U64 := none
  contractAddress : Option Address := none
  txType : Option (BitVec 8) := none
  status : Option (BitVec 8) := none
  sighash : Option Bytes := none
deriving DecidableEq, Repr

def Transaction.names : List String :=
  [ "transactionIndex", "hash", "from", "to", "input", "value", "nonce", "gas", "gasPrice",
    "maxFeePerGas", "maxPriorityFeePerGas", "yParity", "chainId", "gasUsed", "cumulativeGasUsed",
    "effectiveGasPrice", "contractAddress", "type", "status", "sighash" ]

def Transaction.values (tx : Transaction) : List JsonValue :=
  [ writeUint tx.transactionIndex, written writeB256 tx.hash, written writeAddress tx.fromAddr,
    written writeAddress tx.toAddr, written writeBytes tx.input, written writeU256 tx.value,
    written writeUint tx.nonce, written HexU64.toJson tx.gas, written HexU64.toJson tx.gasPrice,
    written HexU64.toJson tx.maxFeePerGas, written HexU64.toJson tx.maxPriorityFeePerGas,
    written writeUint tx.yParity, written writeUint tx.chainId, written HexU64.toJson tx.gasUsed,
    written HexU64.toJson tx.cumulativeGasUsed, written HexU64.toJson tx.effectiveGasPrice,
    written writeAddress tx.contractAddress, written writeUint tx.txType,
    written writeUint tx.status, written writeBytes tx.sighash ]

def Transaction.reader (R : AlloyReaders) : Reader JsonValue Transaction := do
  let transactionIndex ← required (readUint 32)
  let hash ← optional R.b256
  let fromAddr ← optional R.address
  let toAddr ← optional R.address
  let input ← optional R.bytes
  let value ← optional R.u256
  let nonce ← optional (readUint 64)
  let gas ← optional HexU64.ofJson
  let gasPrice ← optional HexU64.ofJson
  let maxFeePerGas ← optional HexU64.ofJson
  let maxPriorityFeePerGas ← optional HexU64.ofJson
  let yParity ← optional (readUint 64)
  let chainId ← optional (readUint 64)
  let gasUsed ← optional HexU64.ofJson
  let cumulativeGasUsed ← optional HexU64.ofJson
  let effectiveGasPrice ← optional HexU64.ofJson
  let contractAddress ← optional R.address
  let txType ← optional (readUint 8)
  let status ← optional (readUint 8)
  let sighash ← optional R.bytes
  return {
    transactionIndex, hash, fromAddr, toAddr, input, value, nonce, gas, gasPrice, maxFeePerGas,
    maxPriorityFeePerGas, yParity, chainId, gasUsed, cumulativeGasUsed, effectiveGasPrice,
    contractAddress, txType, status, sighash }

def Transaction.toJson (tx : Transaction) : JsonValue := .object (names.zip tx.values)

def Transaction.ofJson (R : AlloyReaders) : JsonValue → Option Transaction :=
  readStruct names (reader R)

/-! ## State diffs -/

/-- State diff from SQD Network. -/
structure StateDiff where
  transactionIndex : BitVec 32
  address : Option Address := none
  key : Option String := none
  kind : Option String := none
  prev : Option String := none
  next : Option String := none
deriving DecidableEq, Repr

def StateDiff.names : List String := ["transactionIndex", "address", "key", "kind", "prev", "next"]

def StateDiff.values (d : StateDiff) : List JsonValue :=
  [ writeUint d.transactionIndex, written writeAddress d.address, written .string d.key,
    written .string d.kind, written .string d.prev, written .string d.next ]

def StateDiff.reader (R : AlloyReaders) : Reader JsonValue StateDiff := do
  let transactionIndex ← required (readUint 32)
  let address ← optional R.address
  let key ← optional readString
  let kind ← optional readString
  let prev ← optional readString
  let next ← optional readString
  return { transactionIndex, address, key, kind, prev, next }

def StateDiff.toJson (d : StateDiff) : JsonValue := .object (names.zip d.values)

def StateDiff.ofJson (R : AlloyReaders) : JsonValue → Option StateDiff :=
  readStruct names (reader R)

/-! ## Blocks -/

/-- A block as returned by the SQD Network EVM streaming API. -/
structure Block where
  header : BlockHeader
  transactions : List Transaction := []
  stateDiffs : List StateDiff := []
deriving DecidableEq, Repr

def Block.names : List String := ["header", "transactions", "stateDiffs"]

def Block.values (b : Block) : List JsonValue :=
  [ b.header.toJson, .array (b.transactions.map Transaction.toJson),
    .array (b.stateDiffs.map StateDiff.toJson) ]

def Block.reader (R : AlloyReaders) : Reader JsonValue Block := do
  let header ← required (BlockHeader.ofJson R)
  let transactions ← listed (Transaction.ofJson R)
  let stateDiffs ← listed (StateDiff.ofJson R)
  return { header, transactions, stateDiffs }

def Block.toJson (b : Block) : JsonValue := .object (names.zip b.values)

def Block.ofJson (R : AlloyReaders) : JsonValue → Option Block := readStruct names (reader R)

/-! ## What the replayer reads of it -/

def BlockHeader.replayed (h : BlockHeader) : EvmState.BlockHeader where
  number := h.number
  timestamp := h.timestamp
  mixHash := h.mixHash
  miner := h.miner
  difficulty := h.difficulty
  gasLimit := h.gasLimit
  baseFeePerGas := h.baseFeePerGas

def Transaction.replayed (tx : Transaction) : EvmState.Transaction where
  hash := tx.hash
  fromAddr := tx.fromAddr
  toAddr := tx.toAddr
  input := tx.input
  value := tx.value
  nonce := tx.nonce
  gas := tx.gas
  gasPrice := tx.gasPrice
  maxFeePerGas := tx.maxFeePerGas
  maxPriorityFeePerGas := tx.maxPriorityFeePerGas
  txType := tx.txType

def StateDiff.replayed (d : StateDiff) : EvmState.StateDiff where
  address := d.address
  key := d.key
  kind := d.kind
  next := d.next

def Block.replayed (b : Block) : EvmState.Block where
  header := b.header.replayed
  transactions := b.transactions.map Transaction.replayed
  stateDiffs := b.stateDiffs.map StateDiff.replayed

/-- `serde_json::from_str::<Block>`, up to the fields the replayer reads. -/
def fromStr (json : String → Option JsonValue) (R : AlloyReaders) (line : String) :
    Option EvmState.Block :=
  ((json line).bind (Block.ofJson R)).map Block.replayed

end EvmState.Sqd
