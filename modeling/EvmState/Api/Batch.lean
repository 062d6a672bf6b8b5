import EvmState.Api.Handlers

/-!
# The batch endpoint

`POST /v1/batch` looks up a list of items in one request. An item that cannot be
answered becomes an error in its place of the list: the closure for one item ends early
with a message, and the message is put into the result afterwards.
-/

namespace EvmState

/-- The text of an error of the database, `e.to_string()`. -/
def DbError.toText : DbError → String
  | .accountDecode e =>
      s!"failed to decode account: invalid account byte length: expected {e.expected}, got {e.got}"
  | .invalidStorageValue len =>
      s!"unexpected value length for storage slot: expected 32, got {len}"
  | .invalidHeadBlock len => s!"unexpected value length for head_block: expected 8, got {len}"

inductive BatchItem where
  | account (addr : String)
  | storage (addr slot : String)
  | code (addr : String)
deriving DecidableEq, Repr

inductive BatchResult where
  | account (r : AccountResponse)
  | storage (r : StorageResponse)
  | code (r : CodeResponse)
  | notFound (error : String)
  | error (error : String)
deriving DecidableEq, Repr

namespace Api

/-- The closure of `post_batch` for one item. -/
def batchItem (db : StateDb) : BatchItem → Except String BatchResult
  | .account addr =>
      match Address.parse addr with
      | none => .error s!"invalid address: {addr}"
      | some address =>
          match db.getAccount address with
          | .ok (some info) => .ok (.account (.ofInfo info))
          | .ok none => .ok (.notFound "not found")
          | .error e => .error e.toText
  | .storage addr slot =>
      match Address.parse addr with
      | none => .error s!"invalid address: {addr}"
      | some address =>
          match B256.parse slot with
          | none => .error s!"invalid slot: {slot}"
          | some slot =>
              match db.getStorage address slot with
              | .ok (some value) => .ok (.storage ⟨value.toHex⟩)
              | .ok none => .ok (.notFound "not found")
              | .error e => .error e.toText
  | .code addr =>
      match Address.parse addr with
      | none => .error s!"invalid address: {addr}"
      | some address =>
          match db.getAccount address with
          | .ok (some info) =>
              match db.getCode info.codeHash with
              | some code => .ok (.code ⟨bytesToHex code⟩)
              | none => .ok (.notFound "not found")
          | .ok none => .ok (.notFound "not found")
          | .error e => .error e.toText

/-- `post_batch`. -/
def postBatch (db : StateDb) (items : List BatchItem) : List BatchResult :=
  (items.map (batchItem db)).map fun r =>
    match r with
    | .ok result => result
    | .error msg => .error msg

end Api

end EvmState
