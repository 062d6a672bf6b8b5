import EvmState.Api.Wire

/-!
# The WASM client's database

Everything a WASM client knows comes from prefetch responses it has filed. Reads
never go back to the server: what is not in the cache is an absent account, a zero
slot or empty code.
-/

namespace EvmState

open Std

/-- The WASM client's cache. -/
structure WasmCache where
  accounts : HashMap Address (Option AccountInfo)
  storage : HashMap (Address × U256) U256
  code : HashMap B256 Bytes

namespace WasmCache

def new : WasmCache := ⟨∅, ∅, ∅⟩

/-- Filing one entry of a slice. -/
def put (c : WasmCache) : CachePut → WasmCache
  | .account a info => { c with accounts := c.accounts.insert a (some info) }
  | .storage a i v => { c with storage := c.storage.insert (a, i) v }
  | .code h b => { c with code := c.code.insert h b }

/-- `do_prefetch`, from the response on. -/
def receive (c : WasmCache) (resp : PrefetchResponse) :
    WasmCache × Except ClientError PrefetchResult := resp.receive put c

/-- `do_prefetch` from the reply on: a response, or the error that came instead of one. -/
def takeReply (c : WasmCache) (reply : Except ClientError PrefetchResponse) :
    WasmCache × Except ClientError PrefetchResult :=
  match reply with
  | .ok resp => c.receive resp
  | .error e => (c, .error e)

/-- `basic_ref` of `WasmRemoteDB`; the code comes along if it is there. -/
def basicRef (c : WasmCache) (a : Address) : Option (AccountInfo × Option Bytes) :=
  match c.accounts[a]? with
  | some (some info) => some (info, c.code[info.codeHash]?)
  | _ => none

/-- `storage_ref`. -/
def storageRef (c : WasmCache) (a : Address) (index : U256) : U256 :=
  (c.storage[(a, index)]?).getD 0

/-- `code_by_hash_ref`. -/
def codeByHashRef (c : WasmCache) (h : B256) : Bytes := (c.code[h]?).getD []

/-- The cache as local executions see it. -/
def view (c : WasmCache) : (q : Query) → Except ClientError q.Answer
  | .basic a => .ok ((c.basicRef a).map Prod.fst)
  | .storage a i => .ok (c.storageRef a i)
  | .codeByHash h => .ok (c.codeByHashRef h)
  | .step _ => .ok ()

end WasmCache

end EvmState
