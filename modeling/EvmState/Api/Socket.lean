import EvmState.Api.Batch
import EvmState.Api.Body
import EvmState.Serde

/-!
# The WebSocket endpoint

A connection takes one query a text frame and answers each with one text frame, until
it is closed or an answer cannot be sent. A query is a JSON object with a `type`, the
fields of that type, and an `id` that is sent back with the answer.

How the text of an object is read is left to the JSON library; what `serde` makes of its
members is `WsRequest.ofMembers`. Members are collected first and then looked through
for the `type`, which may be given by name or as the index of its variant; a member that
is named twice is an error, and other members are passed over.
-/

namespace EvmState

open Json (Doc)

inductive WsQuery where
  | account (addr : String)
  | storage (addr slot : String)
  | code (addr : String)
  | head
deriving DecidableEq, Repr

structure WsRequest where
  id : Option JsonValue
  query : WsQuery

/-- The variant a `type` stands for. -/
inductive WsTag where
  | account
  | storage
  | code
  | head
deriving DecidableEq, Repr

def WsTag.ofValue : JsonValue → Option WsTag
  | .string "account" => some .account
  | .string "storage" => some .storage
  | .string "code" => some .code
  | .string "head" => some .head
  | .posInt 0 => some .account
  | .posInt 1 => some .storage
  | .posInt 2 => some .code
  | .posInt 3 => some .head
  | _ => none

def WsQuery.ofMembers (ms : JsonMembers) : Option WsQuery :=
  match ms.named "type" with
  | [tag] =>
      let fields := ms.others "type"
      match WsTag.ofValue tag with
      | some .account => (fields.str "addr").map .account
      | some .storage =>
          match fields.str "addr", fields.str "slot" with
          | some addr, some slot => some (.storage addr slot)
          | _, _ => none
      | some .code => (fields.str "addr").map .code
      | some .head => some .head
      | none => none
  | _ => none

def WsRequest.ofMembers (ms : JsonMembers) : Option WsRequest :=
  match ms.named "id" with
  | [] => (WsQuery.ofMembers (ms.others "id")).map fun query => ⟨none, query⟩
  | [id] => (WsQuery.ofMembers (ms.others "id")).map fun query => ⟨id.nonNull, query⟩
  | _ => none

inductive WsPayload where
  /-- The members of the result object. -/
  | result (members : List (String × Doc))
  | error (error : String)

structure WsResponse where
  id : Option JsonValue
  payload : WsPayload

/-- The JSON library: the members of a text that is an object, and what it says of one that is none. -/
structure JsonReader where
  members : String → Option JsonMembers
  /-- The message for a text that does not read as a request. -/
  complaint : String → String

namespace Api

/-- The `match` over the queries in `process_ws_message`. -/
def answerQuery (db : StateDb) : WsQuery → WsPayload
  | .head =>
      match db.getHeadBlock with
      | .ok (some n) => .result [("head_block", .num n.toNat)]
      | .ok none => .error "not found"
      | .error e => .error e.toText
  | .account addr =>
      match Address.parse addr with
      | none => .error s!"invalid address: {addr}"
      | some address =>
          match db.getAccount address with
          | .ok (some info) =>
              .result
                [("nonce", .num info.nonce.toNat), ("balance", .str info.balance.toHex),
                  ("code_hash", .str (B256.toHex info.codeHash))]
          | .ok none => .error "not found"
          | .error e => .error e.toText
  | .storage addr slot =>
      match Address.parse addr with
      | none => .error s!"invalid address: {addr}"
      | some address =>
          match B256.parse slot with
          | none => .error s!"invalid slot: {slot}"
          | some slot =>
              match db.getStorage address slot with
              | .ok (some value) => .result [("value", .str value.toHex)]
              | .ok none => .error "not found"
              | .error e => .error e.toText
  | .code addr =>
      match Address.parse addr with
      | none => .error s!"invalid address: {addr}"
      | some address =>
          match db.getAccount address with
          | .ok (some info) =>
              match db.getCode info.codeHash with
              | some code => .result [("code", .str (bytesToHex code))]
              | none => .error "not found"
          | .ok none => .error "not found"
          | .error e => .error e.toText

/-- `process_ws_message`. -/
def processWsMessage (json : JsonReader) (db : StateDb) (text : String) : WsResponse :=
  match (json.members text).bind WsRequest.ofMembers with
  -- no request, and so no id either
  | none => ⟨none, .error s!"invalid request: {json.complaint text}"⟩
  | some req => ⟨req.id, answerQuery db req.query⟩

/-- What `recv` gives, as long as there is something to receive. -/
inductive Frame where
  | text (s : String)
  | binary
  | ping
  | pong
  | close
  | failed
deriving DecidableEq, Repr

/-- `handle_socket`: the responses that were sent. `sends k` says whether the `k`-th send succeeds. -/
def handleSocket (respond : String → WsResponse) (sends : Nat → Bool) :
    Nat → List Frame → List WsResponse
  | _, [] => []
  | k, .text s :: frames =>
      if sends k then respond s :: handleSocket respond sends (k + 1) frames else []
  | _, .close :: _ => []
  | _, .failed :: _ => []
  | k, .binary :: frames => handleSocket respond sends k frames
  | k, .ping :: frames => handleSocket respond sends k frames
  | k, .pong :: frames => handleSocket respond sends k frames

end Api

end EvmState
