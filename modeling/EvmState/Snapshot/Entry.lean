import EvmState.Lib.FlatJson
import EvmState.StateDb

/-!
# The entries of a snapshot

`SnapshotEntry` and how one is read from its JSON object: serde's tagged enum, with
the field types of alloy and ruint. A known field stands exactly once, unknown ones
are ignored. The JSON text itself is left to a reader that is a parameter. Objects
are flat here: the arrays that serde and alloy also take, for an entry or for a byte
string, are not considered.
-/

namespace EvmState

open FlatJson (Obj Scalar)

/-- `SnapshotEntry`. -/
inductive SnapshotEntry where
  | account (address : Address) (nonce : U64) (balance : U256) (codeHash : B256)
  | storage (address : Address) (slot : B256) (value : U256)
  | code (codeHash : B256) (bytecode : Bytes)
  | metadata (headBlock : U64)
deriving DecidableEq, Repr

/-! ## Fields -/

/-- The value of a field that stands exactly once. -/
def field (o : Obj) (name : String) : Option Scalar :=
  match o.filter (fun f => f.1 = name) with
  | [f] => some f.2
  | _ => none

/-- `U256::from_str`: a prefix names the radix, which is ten without one. -/
def U256.fromStr (s : String) : Option U256 :=
  match s.toList with
  | '0' :: 'x' :: cs | '0' :: 'X' :: cs => U256.fromStrRadix cs 16
  | '0' :: 'o' :: cs | '0' :: 'O' :: cs => U256.fromStrRadix cs 8
  | '0' :: 'b' :: cs | '0' :: 'B' :: cs => U256.fromStrRadix cs 2
  | cs => U256.fromStrRadix cs 10

/-- A `u64` is a number that fits. -/
def scalarU64 : Scalar → Option U64
  | .num n => fits 64 n
  | _ => none

/-- A `U256` is a string, or a number that fits a `u64`. -/
def scalarU256 : Scalar → Option U256
  | .str s => U256.fromStr s
  | .num n => (fits 64 n).map fun x => x.setWidth 256
  | .other => none

def scalarAddress : Scalar → Option Address
  | .str s => Address.parse s
  | _ => none

def scalarB256 : Scalar → Option B256
  | .str s => B256.parse s
  | _ => none

def scalarBytes : Scalar → Option Bytes
  | .str s => hexDecode s.toList
  | _ => none

/-! ## Entries -/

namespace SnapshotEntry

/-- The entry an object describes, by its `type`. -/
def deserialize (o : Obj) : Option SnapshotEntry :=
  match field o "type" with
  | some (.str tag) =>
      if tag = "account" then do
        let address ← (field o "address").bind scalarAddress
        let nonce ← (field o "nonce").bind scalarU64
        let balance ← (field o "balance").bind scalarU256
        let codeHash ← (field o "codeHash").bind scalarB256
        some (.account address nonce balance codeHash)
      else if tag = "storage" then do
        let address ← (field o "address").bind scalarAddress
        let slot ← (field o "slot").bind scalarB256
        let value ← (field o "value").bind scalarU256
        some (.storage address slot value)
      else if tag = "code" then do
        let codeHash ← (field o "codeHash").bind scalarB256
        let bytecode ← (field o "bytecode").bind scalarBytes
        some (.code codeHash bytecode)
      else if tag = "metadata" then do
        let headBlock ← (field o "headBlock").bind scalarU64
        some (.metadata headBlock)
      else none
  | _ => none

/-- `serde_json::from_str` of a line; the JSON is read by `json`. -/
def fromStr (json : String → Option Obj) (line : String) : Option SnapshotEntry :=
  (json line).bind deserialize

/-- The write of an entry; metadata is kept for the end. -/
def write? : SnapshotEntry → Option Write
  | .account address nonce balance codeHash => some (.setAccount address ⟨nonce, balance, codeHash⟩)
  | .storage address slot value => some (.setStorage address slot value)
  | .code codeHash bytecode => some (.setCode codeHash bytecode)
  | .metadata _ => none

/-- The head block a metadata entry names. -/
def head? : SnapshotEntry → Option U64
  | .metadata headBlock => some headBlock
  | _ => none

end SnapshotEntry

/-! ## Quantities are read in any radix -/

/-- What a quantity is printed as is also what `U256::from_str` takes for it. -/
theorem U256.fromStr_toHex (v : U256) : U256.fromStr (U256.toHex v) = some v := by
  have h := parseU256Hex_toHex v
  rw [parseU256Hex, U256.toHex, hexBody_marked] at h
  rw [U256.fromStr, U256.toHex, marked, String.toList_ofList]
  exact h

end EvmState
