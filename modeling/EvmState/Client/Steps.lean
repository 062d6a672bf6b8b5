import EvmState.Client.Remote

/-!
# The remote database, step by step

A `RemoteDB` is shared by threads, and its methods hold the lock on the caches only
for a moment: between a look into them, a request and the filing of its answer,
other threads and the server go on. Here each method is a `Dialogue` whose
questions are what it does in one go. Played with nobody in between it is the
method of `RemoteDb` (`play_read`, `play_prefetch`).
-/

namespace EvmState

/-- What a method does in one go: a request, or something with the caches under their lock. -/
inductive Act where
  | getAccount (a : Address)
  /-- The code of an account; the hash is the one it will be filed under. -/
  | getCode (a : Address) (h : B256)
  | getStorage (a : Address) (index : U256)
  | postPrefetch (req : PrefetchRequest)
  | cachedAccount (a : Address)
  | putAccount (a : Address) (result : Option AccountInfo)
  | cachedSlot (a : Address) (index : U256)
  | putSlot (a : Address) (index value : U256)
  | containsCode (h : B256)
  | cachedCode (h : B256)
  | putCode (h : B256) (raw : Bytes)
  /-- A whole slice is filed under one lock. -/
  | file (resp : PrefetchResponse)

abbrev Act.Answer : Act → Type
  | .getAccount _ => Except ClientError (Option AccountInfo)
  | .getCode _ _ => Except ClientError (Option Bytes)
  | .getStorage _ _ => Except ClientError U256
  | .postPrefetch _ => Except ClientError PrefetchResponse
  | .cachedAccount _ => Option (Option AccountInfo)
  | .putAccount _ _ => Unit
  | .cachedSlot _ _ => Option U256
  | .putSlot _ _ _ => Unit
  | .containsCode _ => Bool
  | .cachedCode _ => Option Bytes
  | .putCode _ _ => Unit
  | .file _ => Except ClientError PrefetchResult

/-- One act, with the server at a database. -/
def Act.perform (evm : Evm) (spec : ChainSpec) (db : StateDb) :
    (act : Act) → RemoteCache → act.Answer × RemoteCache
  | .getAccount a, c => (RemoteDb.fetch (Api.getAccount db a.toHex) AccountResponse.decode, c)
  | .getCode a _, c => (RemoteDb.fetch (Api.getCode db a.toHex) (fun r => decodeBytes r.code), c)
  | .getStorage a index, c => (RemoteDb.fetchStorage db a index, c)
  | .postPrefetch req, c =>
      ((EvmState.postPrefetch evm db spec req).mapError (fun e => .server e.status), c)
  | .cachedAccount a, c => ((c.accounts.get a).1, { c with accounts := (c.accounts.get a).2 })
  | .putAccount a result, c => ((), { c with accounts := c.accounts.put a result })
  | .cachedSlot a index, c =>
      ((c.storage.get (a, index)).1, { c with storage := (c.storage.get (a, index)).2 })
  | .putSlot a index value, c => ((), { c with storage := c.storage.put (a, index) value })
  | .containsCode h, c => (c.code.contains h, c)
  | .cachedCode h, c => ((c.code.get h).1, { c with code := (c.code.get h).2 })
  | .putCode h raw, c => ((), { c with code := c.code.put h raw })
  | .file resp, c => ((resp.receive RemoteDb.put c).2, (resp.receive RemoteDb.put c).1)

/-- A method, as the acts it still has to do. -/
abbrev Steps (ρ : Type) := Dialogue Act Act.Answer ρ

namespace Steps

/-! ## Methods -/

/-- `fetch_code_for_address`. -/
def fetchCodeForAddress (a : Address) (h : B256) : Steps (Except ClientError Unit) :=
  .ask (.containsCode h) fun cached : Bool =>
    if cached then .done (.ok ())
    else
      .ask (.getCode a h) fun response =>
        match response with
        | .ok (some raw) => .ask (.putCode h raw) fun _ => .done (.ok ())
        -- no code at this address: nothing is filed under the hash
        | .ok none => .done (.ok ())
        | .error e => .done (.error e)

/-- `fetch_account`: the account first, its code in a request of its own. -/
def fetchAccount (a : Address) : Steps (Except ClientError (Option AccountInfo)) :=
  .ask (.getAccount a) fun response =>
    match response with
    | .error e => .done (.error e)
    | .ok none => .done (.ok none)
    | .ok (some info) =>
        if info.codeHash ≠ 0 ∧ info.codeHash ≠ KECCAK256_EMPTY then
          (fetchCodeForAddress a info.codeHash).bind fun result =>
            .done (result.map fun _ => some info)
        else .done (.ok (some info))

/-- `basic_ref`. -/
def basicRef (a : Address) : Steps (Except ClientError (Option AccountInfo)) :=
  .ask (.cachedAccount a) fun cached =>
    match cached with
    | some result => .done (.ok result)
    | none =>
        (fetchAccount a).bind fun fetched =>
          match fetched with
          | .ok result => .ask (.putAccount a result) fun _ => .done (.ok result)
          | .error e => .done (.error e)

/-- `storage_ref`. -/
def storageRef (a : Address) (index : U256) : Steps (Except ClientError U256) :=
  .ask (.cachedSlot a index) fun cached =>
    match cached with
    | some value => .done (.ok value)
    | none =>
        .ask (.getStorage a index) fun fetched =>
          match fetched with
          | .ok value => .ask (.putSlot a index value) fun _ => .done (.ok value)
          | .error e => .done (.error e)

/-- `code_by_hash_ref`. -/
def codeByHashRef (h : B256) : Steps (Except ClientError Bytes) :=
  .ask (.cachedCode h) fun cached : Option Bytes => .done (.ok (cached.getD []))

/-- The reads together. -/
def read : (q : Query) → Steps (Except ClientError q.Answer)
  | .basic a => basicRef a
  | .storage a index => storageRef a index
  | .codeByHash h => codeByHashRef h
  | .step _ => .done (.ok ())

/-- `RemoteDB::prefetch`. -/
def prefetch (req : PrefetchRequest) : Steps (Except ClientError PrefetchResult) :=
  .ask (.postPrefetch req) fun response =>
    match response with
    | .ok resp => .ask (.file resp) .done
    | .error e => .done (.error e)

/-! ## Alone -/

/-- The outcome of a method of `RemoteDb`; one that fails leaves the caches as they were. -/
def settle {α : Type} (c : RemoteCache) :
    Except ClientError (α × RemoteCache) → Except ClientError α × RemoteCache
  | .ok (result, c') => (.ok result, c')
  | .error e => (.error e, c)

section Alone

variable {evm : Evm} {spec : ChainSpec} {db : StateDb}

theorem play_fetchCodeForAddress (a : Address) (h : B256) (c : RemoteCache) :
    (fetchCodeForAddress a h).play (Act.perform evm spec db) c
      = match RemoteDb.fetchCodeForAddress db a h c with
        | .ok c' => (.ok (), c')
        | .error e => (.error e, c) := by
  rw [fetchCodeForAddress, RemoteDb.fetchCodeForAddress]
  simp only [Dialogue.play, Act.perform]
  by_cases hcached : c.code.contains h = true
  · simp [hcached, Dialogue.play]
  · simp only [hcached, Bool.false_eq_true, if_false, Dialogue.play, Act.perform]
    cases RemoteDb.fetch (Api.getCode db a.toHex) (fun r => decodeBytes r.code) with
    | error e => rfl
    | ok o => cases o <;> rfl

theorem play_fetchAccount (a : Address) (c : RemoteCache) :
    (fetchAccount a).play (Act.perform evm spec db) c
      = settle c (RemoteDb.fetchAccount db a c) := by
  rw [fetchAccount, RemoteDb.fetchAccount]
  simp only [Dialogue.play, Act.perform]
  cases RemoteDb.fetch (Api.getAccount db a.toHex) AccountResponse.decode with
  | error e => rfl
  | ok o =>
      cases o with
      | none => rfl
      | some info =>
          dsimp only
          split
          · rw [Dialogue.play_bind, play_fetchCodeForAddress]
            cases RemoteDb.fetchCodeForAddress db a info.codeHash c <;> rfl
          · rfl

theorem play_basicRef (a : Address) (c : RemoteCache) :
    (basicRef a).play (Act.perform evm spec db) c
      = settle c (RemoteDb.basicRef db a c) := by
  rw [basicRef, RemoteDb.basicRef]
  simp only [Dialogue.play, Act.perform, Lru.get_eq]
  cases c.accounts.peek a with
  | some result => rfl
  | none =>
      -- a miss leaves the cache as it is
      have hsame : ({ c with accounts := c.accounts.putAll [] } : RemoteCache) = c := rfl
      simp only [Option.map_none, Option.toList_none, hsame, Dialogue.play_bind, play_fetchAccount]
      cases RemoteDb.fetchAccount db a c <;> rfl

theorem play_storageRef (a : Address) (index : U256) (c : RemoteCache) :
    (storageRef a index).play (Act.perform evm spec db) c
      = settle c (RemoteDb.storageRef db a index c) := by
  rw [storageRef, RemoteDb.storageRef]
  simp only [Dialogue.play, Act.perform, Lru.get_eq]
  cases c.storage.peek (a, index) with
  | some value => rfl
  | none =>
      simp only [Option.map_none, Option.toList_none, Dialogue.play, Act.perform]
      cases RemoteDb.fetchStorage db a index <;> rfl

theorem play_codeByHashRef (h : B256) (c : RemoteCache) :
    (codeByHashRef h).play (Act.perform evm spec db) c
      = (.ok (RemoteDb.codeByHashRef h c).1, (RemoteDb.codeByHashRef h c).2) := by
  rw [codeByHashRef, RemoteDb.codeByHashRef]
  simp only [Dialogue.play, Act.perform, Lru.get_eq]
  cases c.code.peek h <;> rfl

/-- **A read with nobody in between is the read.** -/
theorem play_read (q : Query) (c : RemoteCache) :
    (read q).play (Act.perform evm spec db) c
      = settle c (RemoteDb.read db q c) := by
  cases q with
  | basic a => exact play_basicRef a c
  | storage a index => exact play_storageRef a index c
  | codeByHash h => exact play_codeByHashRef h c
  | step i => rfl

/-- **So is a prefetch.** -/
theorem play_prefetch (req : PrefetchRequest) (c : RemoteCache) :
    (prefetch req).play (Act.perform evm spec db) c
      = ((RemoteDb.prefetch evm spec db req c).2, (RemoteDb.prefetch evm spec db req c).1) := by
  rw [prefetch, RemoteDb.prefetch]
  simp only [Dialogue.play, Act.perform]
  cases postPrefetch evm db spec req <;> rfl

end Alone

end Steps

end EvmState
