import EvmState.Lib.Maps
import EvmState.Lib.Text
import EvmState.Revm
import EvmState.Serde

/-!
# Importing a genesis file

`run_genesis` writes the `alloc` section of a genesis file to the database in one
batch and sets the head to block 0. A file that does not parse leaves the database
alone. The text is left to the JSON library, and the values of slots to the reader
that comes with `U256`; balances, nonces and code have readers of their own.
-/

namespace EvmState

/-- A single account entry in the genesis `alloc` section. -/
structure GenesisAccount where
  balance : Option U256 := none
  code : Option Bytes := none
  storage : Option (HashMap B256 U256) := none
  nonce : Option U64 := none

/-- Standard Geth/Bor genesis.json format, only the fields that are read. -/
structure GenesisFile where
  alloc : HashMap Address GenesisAccount

/-! ## Reading the file -/

/-- What follows a `0x` or `0X`. -/
def stripHex : List Char → Option (List Char)
  | '0' :: 'x' :: cs => some cs
  | '0' :: 'X' :: cs => some cs
  | _ => none

def deserializeBalance (v : JsonValue) : Option (Option U256) :=
  match v.optString with
  | none => none
  | some none => some none
  | some (some s) =>
      let s := Text.trim s.toList
      if s = [] ∨ s = ['0'] ∨ s = ['0', 'x', '0'] then some (some 0)
      else
        match stripHex s with
        | some hex => (U256.fromStrRadix hex 16).map some
        | none => (U256.fromStrRadix s 10).map some

def deserializeOptionalCode (v : JsonValue) : Option (Option Bytes) :=
  match v.optString with
  | none => none
  | some none => some none
  | some (some s) => (Radix.decodeHex (hexBody s)).map some

def deserializeOptionalU64Hex : JsonValue → Option (Option U64)
  | .null => some none
  | .posInt n => some (some n)
  -- `as_u64` has nothing for these, which then counts as no nonce
  | .negInt _ => some none
  | .float _ => some none
  | .string s =>
      match stripHex s.toList with
      | some hex => (U64.fromStrRadix hex 16).map some
      | none => (U64.fromStrRadix s.toList 10).map some
  | _ => none

/-- A slot with its value. -/
def storageEntry (u256 : JsonValue → Option U256) (m : String × JsonValue) :
    Option (B256 × U256) :=
  match B256.parse m.1, u256 m.2 with
  | some slot, some value => some (slot, value)
  | _, _ => none

/-- The `storage` of an entry. -/
def deserializeStorage (u256 : JsonValue → Option U256) :
    JsonValue → Option (Option (HashMap B256 U256))
  | .null => some none
  | .object ms =>
      (ms.mapM (storageEntry u256)).map fun entries => some (Maps.insertAll ∅ entries)
  | _ => none

def GenesisAccount.ofFields (u256 : JsonValue → Option U256) :
    List (Option JsonValue) → Option GenesisAccount
  | [balance, code, storage, nonce] =>
      match readField deserializeBalance balance, readField deserializeOptionalCode code,
        readField (deserializeStorage u256) storage,
        readField deserializeOptionalU64Hex nonce with
      | some balance, some code, some storage, some nonce => some ⟨balance, code, storage, nonce⟩
      | _, _, _, _ => none
  | _ => none

/-- The fields of an entry, as they are declared. -/
def JsonValue.accountFields (v : JsonValue) : Option (List (Option JsonValue)) :=
  v.fields ["balance", "code", "storage", "nonce"]

def GenesisAccount.ofJson (u256 : JsonValue → Option U256) (v : JsonValue) :
    Option GenesisAccount := v.accountFields.bind (GenesisAccount.ofFields u256)

/-- An entry with its address. -/
def genesisEntry (u256 : JsonValue → Option U256) (m : String × JsonValue) :
    Option (Address × GenesisAccount) :=
  match Address.parse m.1, GenesisAccount.ofJson u256 m.2 with
  | some address, some account => some (address, account)
  | _, _ => none

/-- The members of `alloc`. -/
def JsonValue.alloc (v : JsonValue) : Option JsonMembers :=
  match v.fields ["alloc"] with
  | some [some (.object ms)] => some ms
  | _ => none

def GenesisFile.ofJson (u256 : JsonValue → Option U256) (v : JsonValue) : Option GenesisFile :=
  v.alloc.bind fun ms =>
    (ms.mapM (genesisEntry u256)).map fun entries => ⟨Maps.insertAll ∅ entries⟩

/-! ## Importing it -/

/-- The record of an entry. -/
def GenesisAccount.info (keccak256 : Bytes → B256) (account : GenesisAccount) : AccountInfo where
  nonce := account.nonce.getD 0
  balance := account.balance.getD 0
  codeHash :=
    match account.code with
    | some code => keccak256 code
    -- no code at all is not the same as empty code
    | none => 0

/-- The write of its code; empty code is not stored. -/
def GenesisAccount.codeBatch (keccak256 : Bytes → B256) (account : GenesisAccount) : WriteBatch :=
  match account.code with
  | some code => if code.isEmpty then [] else [.setCode (keccak256 code) code]
  | none => []

/-- The writes for one entry. -/
def genesisBatch (keccak256 : Bytes → B256) (σ : HashOrder) (e : Address × GenesisAccount) :
    WriteBatch :=
  e.2.codeBatch keccak256
    ++ .setAccount e.1 (e.2.info keccak256)
    :: (e.2.storage.map fun m =>
        (σ.entries m).map fun s => Write.setStorage e.1 s.1 s.2).getD []

/-- `run_genesis` from the parsed file on. -/
def runGenesis (keccak256 : Bytes → B256) (σ : HashOrder) (db : StateDb) (genesis : GenesisFile) :
    StateDb :=
  db.commit ((σ.entries genesis.alloc).flatMap (genesisBatch keccak256 σ) ++ [.setHeadBlock 0])

inductive GenesisError where
  /-- `failed to read genesis file` -/
  | read
  /-- `failed to parse genesis file` -/
  | parse
deriving DecidableEq, Repr

/-- `run_genesis`: the file's contents, when they can be read, and the JSON in them, when they are JSON. -/
def importGenesis (json : String → Option JsonValue) (u256 : JsonValue → Option U256)
    (keccak256 : Bytes → B256) (σ : HashOrder) (db : StateDb) (contents : Option String) :
    StateDb × Except GenesisError Unit :=
  match contents with
  | none => (db, .error .read)
  | some text =>
      match (json text).bind (GenesisFile.ofJson u256) with
      | none => (db, .error .parse)
      | some genesis => (runGenesis keccak256 σ db genesis, .ok ())

end EvmState
