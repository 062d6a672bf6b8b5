import EvmState.Lib.Lru
import EvmState.Api.Prefetch

/-!
# The remote database

`RemoteDB` reads from a server through three caches of bounded size. An account or
a slot that is not cached is fetched. Code is not: it is filed when the account it
belongs to is fetched, or by a prefetch, and found by its hash or not at all.
-/

namespace EvmState

/-- The caches of a `RemoteDB`. -/
structure RemoteCache where
  accounts : Lru Address (Option AccountInfo)
  storage : Lru (Address × U256) U256
  code : Lru B256 Bytes

/-- `Cache::new`. -/
def RemoteCache.new (capacity : Nat) (pos : 0 < capacity) : RemoteCache :=
  ⟨.new capacity pos, .new capacity pos, .new capacity pos⟩

namespace RemoteDb

/-! ## Requests -/

/-- How a response is taken: its body at 200, nothing at 404, otherwise an error. -/
def fetch {α β : Type} (response : Except AppError α) (decode : α → Except ClientError β) :
    Except ClientError (Option β) :=
  match response with
  | .ok body => (decode body).map some
  | .error e => if e.status = 404 then .ok none else .error (.server e.status)

/-- `fetch_code_for_address`. -/
def fetchCodeForAddress (db : StateDb) (a : Address) (h : B256) (c : RemoteCache) :
    Except ClientError RemoteCache :=
  if c.code.contains h then .ok c
  else
    match fetch (Api.getCode db a.toHex) (fun r => decodeBytes r.code) with
    | .ok (some raw) => .ok { c with code := c.code.put h raw }
    -- no code at this address: nothing is filed under the hash
    | .ok none => .ok c
    | .error e => .error e

/-- `fetch_account`, which brings the code along. -/
def fetchAccount (db : StateDb) (a : Address) (c : RemoteCache) :
    Except ClientError (Option AccountInfo × RemoteCache) :=
  match fetch (Api.getAccount db a.toHex) AccountResponse.decode with
  | .error e => .error e
  | .ok none => .ok (none, c)
  | .ok (some info) =>
      if info.codeHash ≠ 0 ∧ info.codeHash ≠ KECCAK256_EMPTY then
        (fetchCodeForAddress db a info.codeHash c).map fun c' => (some info, c')
      else .ok (some info, c)

/-- `fetch_storage`. -/
def fetchStorage (db : StateDb) (a : Address) (index : U256) : Except ClientError U256 :=
  (fetch (Api.getStorage db a.toHex (B256.toHex index)) (fun r => parseU256 r.value)).map
    fun value => value.getD 0

/-! ## Reads -/

/-- `basic_ref`. -/
def basicRef (db : StateDb) (a : Address) (c : RemoteCache) :
    Except ClientError (Option AccountInfo × RemoteCache) :=
  match c.accounts.get a with
  -- a hit asks for nothing, its code included
  | (some cached, accounts) => .ok (cached, { c with accounts := accounts })
  | (none, _) =>
      match fetchAccount db a c with
      | .ok (result, c') => .ok (result, { c' with accounts := c'.accounts.put a result })
      | .error e => .error e

/-- `storage_ref`. -/
def storageRef (db : StateDb) (a : Address) (index : U256) (c : RemoteCache) :
    Except ClientError (U256 × RemoteCache) :=
  match c.storage.get (a, index) with
  | (some value, storage) => .ok (value, { c with storage := storage })
  | (none, _) =>
      match fetchStorage db a index with
      | .ok value => .ok (value, { c with storage := c.storage.put (a, index) value })
      | .error e => .error e

/-- `code_by_hash_ref`: the code should have been fetched; if it is not there, it is empty. -/
def codeByHashRef (h : B256) (c : RemoteCache) : Bytes × RemoteCache :=
  match c.code.get h with
  | (some raw, code) => (raw, { c with code := code })
  | (none, _) => ([], c)

/-- The reads together, as executions and callers ask for them. -/
def read (db : StateDb) : (q : Query) → RemoteCache → Except ClientError (q.Answer × RemoteCache)
  | .basic a, c => basicRef db a c
  | .storage a index, c => storageRef db a index c
  | .codeByHash h, c => .ok (codeByHashRef h c)
  | .step _, c => .ok ((), c)

/-! ## Prefetching -/

/-- Filing one entry of a slice. -/
def put (c : RemoteCache) : CachePut → RemoteCache
  | .account a info => { c with accounts := c.accounts.put a (some info) }
  | .storage a index v => { c with storage := c.storage.put (a, index) v }
  | .code h raw => { c with code := c.code.put h raw }

/-- The body of a prefetch request. -/
def prefetchRequest (toAddr : Address) (calldata : Bytes) (fromAddr : Option Address)
    (value : Option U256) : PrefetchRequest where
  toAddr := toAddr.toHex
  data := some (bytesToHex calldata)
  fromAddr := fromAddr.map Address.toHex
  value := value.map U256.toHex

/-- `RemoteDB::prefetch` from the reply on: a response, or the error that came instead of one. -/
def takeReply (reply : Except ClientError PrefetchResponse) (c : RemoteCache) :
    RemoteCache × Except ClientError PrefetchResult :=
  match reply with
  -- an error on the way leaves what was filed before it
  | .ok resp => resp.receive put c
  | .error e => (c, .error e)

/-- `RemoteDB::prefetch`. -/
def prefetch (evm : Evm) (spec : ChainSpec) (db : StateDb) (req : PrefetchRequest)
    (c : RemoteCache) : RemoteCache × Except ClientError PrefetchResult :=
  takeReply ((postPrefetch evm db spec req).mapError fun e => .server e.status) c

theorem prefetch_of_ok {evm : Evm} {spec : ChainSpec} {db : StateDb} {req : PrefetchRequest}
    {resp : PrefetchResponse} (h : postPrefetch evm db spec req = .ok resp) (c : RemoteCache) :
    prefetch evm spec db req c = resp.receive put c := by
  rw [prefetch, h]
  rfl

theorem prefetch_of_error {evm : Evm} {spec : ChainSpec} {db : StateDb} {req : PrefetchRequest}
    {e : AppError} (h : postPrefetch evm db spec req = .error e) (c : RemoteCache) :
    prefetch evm spec db req c = (c, .error (.server e.status)) := by
  rw [prefetch, h]
  rfl

/-- A call on a `RemoteDB`. -/
inductive Call where
  | prefetch (toAddr : Address) (calldata : Bytes) (fromAddr : Option Address)
      (value : Option U256)
  | read (q : Query)

/-- What a call leaves of the caches; a read that fails leaves them as they were. -/
def step (evm : Evm) (spec : ChainSpec) (db : StateDb) (c : RemoteCache) : Call → RemoteCache
  | .prefetch toAddr calldata fromAddr value =>
      (prefetch evm spec db (prefetchRequest toAddr calldata fromAddr value) c).1
  | .read q =>
      match read db q c with
      | .ok (_, c') => c'
      | .error _ => c

/-- One call after the other. -/
def run (evm : Evm) (spec : ChainSpec) (db : StateDb) (c : RemoteCache) (calls : List Call) :
    RemoteCache := calls.foldl (step evm spec db) c

/-- The server reads back the call that was asked for. -/
theorem parse_prefetchRequest (toAddr : Address) (calldata : Bytes) (fromAddr : Option Address)
    (value : Option U256) :
    (prefetchRequest toAddr calldata fromAddr value).parse
      = .ok ⟨toAddr, fromAddr.getD 0, calldata, value.getD 0⟩ := by
  cases fromAddr <;> cases value <;>
    simp [prefetchRequest, PrefetchRequest.parse, parseU256Hex_toHex]

end RemoteDb

end EvmState
