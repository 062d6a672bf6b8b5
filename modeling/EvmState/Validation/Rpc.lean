import EvmState.Lib.Json
import EvmState.StateDb

/-!
# The JSON-RPC client of the validator

`EthRpcClient` asks an archive node for balances, nonces, code and storage at a
block. A request body is put together as text and parsed before it is sent; the
parser, and whatever answers a parsed body, are parameters.

The validator itself sees the client as `EthRpc`, the four questions it can ask.
-/

namespace EvmState

open Json (Doc)

/-- `evm_state_validation::Error`. -/
inductive ValidationError where
  | db (e : DbError)
  | rpc (message : String)
  | json
  | http
  /-- No error of the source: `u64` arithmetic that overflows is a panic. -/
  | overflow
deriving DecidableEq, Repr

/-- What a node is asked for. -/
inductive EthCall where
  | getBalance (address : Address) (block : U64)
  | getTransactionCount (address : Address) (block : U64)
  | getCode (address : Address) (block : U64)
  | getStorageAt (address : Address) (slot : B256) (block : U64)
deriving DecidableEq, Repr

/-! ## The request -/

/-- `format!("\"0x{address:x}\"")`: all 40 digits, which bring no marker of their own. -/
def addressParam (address : Address) : String :=
  "\"0x" ++ String.ofList (Radix.padDigits 40 16 address.toNat) ++ "\""

/-- `format!("\"0x{block:x}\"")`. -/
def blockParam (block : U64) : String :=
  "\"0x" ++ String.ofList (Nat.toDigits 16 block.toNat) ++ "\""

/-- `format!("\"0x{slot}\"")`: a hash is displayed with its marker. -/
def slotParam (slot : B256) : String := "\"0x" ++ B256.toHex slot ++ "\""

def EthCall.method : EthCall → String
  | .getBalance _ _ => "eth_getBalance"
  | .getTransactionCount _ _ => "eth_getTransactionCount"
  | .getCode _ _ => "eth_getCode"
  | .getStorageAt _ _ _ => "eth_getStorageAt"

/-- The parameters, as JSON text. -/
def EthCall.params : EthCall → List String
  | .getBalance address block => [addressParam address, blockParam block]
  | .getTransactionCount address block => [addressParam address, blockParam block]
  | .getCode address block => [addressParam address, blockParam block]
  | .getStorageAt address slot block => [addressParam address, slotParam slot, blockParam block]

/-- The body that `call` puts together. -/
def bodyStr (method : String) (params : List String) : String :=
  "\x7b\"jsonrpc\":\"2.0\",\"id\":1,\"method\":\"" ++ method ++ "\",\"params\":["
    ++ ",".intercalate params ++ "]\x7d"

/-! ## The client -/

/-- `EthRpcClient`, with the library that parses JSON and what a posted body is answered with. -/
structure EthRpcClient where
  fromStr : String → Option Doc
  post : Doc → Except ValidationError Doc

/-- `parse_u256_hex` of a result. -/
def resultU256 (value : Doc) : Except ValidationError U256 :=
  match value.asStr with
  | none => .error (.rpc "expected string result")
  | some s =>
      match U256.fromStrRadix (hexBody s) 16 with
      | some v => .ok v
      | none => .error (.rpc "invalid U256 hex")

/-- `parse_u64_hex` of a result. -/
def resultU64 (value : Doc) : Except ValidationError U64 :=
  match value.asStr with
  | none => .error (.rpc "expected string result")
  | some s =>
      match U64.fromStrRadix (hexBody s) 16 with
      | some v => .ok v
      | none => .error (.rpc "invalid u64 hex")

/-- The reader of `get_code`. -/
def resultBytes (value : Doc) : Except ValidationError Bytes :=
  match value.asStr with
  | none => .error (.rpc "expected string result")
  | some s =>
      match hexDecode s.toList with
      | some bytes => .ok bytes
      | none => .error (.rpc "invalid hex in code")

/-- The `result` of a response, or the message of its `error`. -/
def responseResult (resp : Doc) : Except ValidationError Doc :=
  match resp.get "error" with
  | some error => .error (.rpc (((error.get "message").bind Doc.asStr).getD "unknown RPC error"))
  | none =>
      match resp.get "result" with
      | some result => .ok result
      | none => .error (.rpc "missing 'result' in JSON-RPC response")

namespace EthRpcClient

variable (rpc : EthRpcClient)

def call (method : String) (params : List String) : Except ValidationError Doc :=
  match rpc.fromStr (bodyStr method params) with
  | none => .error .json
  | some body =>
      match rpc.post body with
      | .error e => .error e
      | .ok resp => responseResult resp

/-- The call for one question. -/
def ask (q : EthCall) : Except ValidationError Doc := rpc.call q.method q.params

def getBalance (address : Address) (block : U64) : Except ValidationError U256 :=
  (rpc.ask (.getBalance address block)).bind resultU256

def getNonce (address : Address) (block : U64) : Except ValidationError U64 :=
  (rpc.ask (.getTransactionCount address block)).bind resultU64

def getCode (address : Address) (block : U64) : Except ValidationError Bytes :=
  (rpc.ask (.getCode address block)).bind resultBytes

def getStorageAt (address : Address) (slot : B256) (block : U64) : Except ValidationError U256 :=
  (rpc.ask (.getStorageAt address slot block)).bind resultU256

end EthRpcClient

/-- What the validator can ask. -/
structure EthRpc where
  getBalance : Address → U64 → Except ValidationError U256
  getNonce : Address → U64 → Except ValidationError U64
  getCode : Address → U64 → Except ValidationError Bytes
  getStorageAt : Address → B256 → U64 → Except ValidationError U256

/-- The client as the validator sees it. -/
def EthRpcClient.rpc (client : EthRpcClient) : EthRpc where
  getBalance := client.getBalance
  getNonce := client.getNonce
  getCode := client.getCode
  getStorageAt := client.getStorageAt

end EvmState
