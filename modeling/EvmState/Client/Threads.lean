import EvmState.Client.Calls
import EvmState.Lib.Threads

/-!
# A client shared by threads

A `Connection` is what the threads of a client share: its caches, and the database the
server is at. Any thread may be in the middle of any method; an act of one is one step
of the pool (`Connection.perform`). What an act files is all that it can add to the
caches (`of_cached_perform`).
-/

namespace EvmState

/-- The caches of a client, and the database of the server it asks. -/
structure Connection where
  db : StateDb
  cache : RemoteCache

/-- One act of some thread. -/
def Connection.perform (evm : Evm) (spec : ChainSpec) (act : Act) (s : Connection) :
    act.Answer × Connection :=
  ((act.perform evm spec s.db s.cache).1,
    { s with cache := (act.perform evm spec s.db s.cache).2 })

/-- Alone, a method does with a connection what it does with its caches. -/
theorem play_connection {evm : Evm} {spec : ChainSpec} {ρ : Type} (d : Steps ρ) (s : Connection) :
    d.play (Connection.perform evm spec) s
      = ((d.play (Act.perform evm spec s.db) s.cache).1,
        { s with cache := (d.play (Act.perform evm spec s.db) s.cache).2 }) := by
  induction d generalizing s with
  | done r => rfl
  | ask act k ih => exact ih _ _

/-- What threads do with a client. -/
inductive Method where
  | read (q : Query)
  | prefetch (toAddr : Address) (calldata : Bytes) (fromAddr : Option Address)
      (value : Option U256)
  | call (specId : SpecId) (mode : TrustMode) (toAddr : Address) (calldata : Bytes)
      (fromAddr : Option Address) (value : Option U256)

/-- What they get. -/
inductive Outcome where
  | read (q : Query) (result : Except ClientError q.Answer)
  | prefetch (result : Except ClientError PrefetchResult)
  | call (reads : ReadLog) (result : Except ClientError CallResult)

/-- A method, as a thread runs it. -/
def Method.program (evm : Evm) : Method → Steps Outcome
  | .read q => (Steps.read q).bind fun result => .done (.read q result)
  | .prefetch toAddr calldata fromAddr value =>
      (Steps.prefetch (RemoteDb.prefetchRequest toAddr calldata fromAddr value)).bind
        fun result => .done (.prefetch result)
  | .call specId mode toAddr calldata fromAddr value =>
      (StateClient.call evm specId mode toAddr calldata fromAddr value).bind
        fun result => .done (.call result.1 result.2)

/-- A client with its threads. -/
abbrev Client := Threads.Pool Act Act.Answer Outcome Connection

/-- A step of a client whose threads run its methods. -/
abbrev ClientStep (evm : Evm) (spec : ChainSpec) (env : Connection → Connection → Prop) :
    Client → Threads.Event Act → Client → Prop :=
  Threads.Step (Connection.perform evm spec) env fun d => ∃ m : Method, d = m.program evm

/-- The runs of a client whose threads run its methods. -/
abbrev ClientRun (evm : Evm) (spec : ChainSpec) (env : Connection → Connection → Prop)
    (ok : Client → Threads.Event Act → Prop) : Client → Client → Prop :=
  Threads.Run (Connection.perform evm spec) env (fun d => ∃ m : Method, d = m.program evm) ok

/-! ## What an act files -/

/-- An entry of the caches, as the read it answers. -/
def RemoteCache.cached (c : RemoteCache) : (q : Query) → Option q.Answer
  | .basic a => c.accounts.peek a
  | .storage a index => c.storage.peek (a, index)
  | .codeByHash h => c.code.peek h
  | .step _ => none

/-- A read with an answer to it. -/
abbrev Entry := (q : Query) × q.Answer

def CachePut.entry : CachePut → Entry
  | .account a info => ⟨.basic a, some info⟩
  | .storage a index value => ⟨.storage a index, value⟩
  | .code h raw => ⟨.codeByHash h, raw⟩

/-- The entries a response has for the caches. -/
def PrefetchResponse.entries (resp : PrefetchResponse) : List Entry :=
  resp.stateSlice.puts.filterMap fun put => put.toOption.map CachePut.entry

/-- The entries an act files. -/
def Act.files : Act → List Entry
  | .putAccount a result => [⟨.basic a, result⟩]
  | .putSlot a index value => [⟨.storage a index, value⟩]
  | .putCode h raw => [⟨.codeByHash h, raw⟩]
  | .file resp => resp.entries
  | _ => []

section Filing

variable {c : RemoteCache} {l : List Entry} {q : Query} {v : q.Answer}

/-- What a change of the accounts alone adds. -/
theorem of_cached_accounts {m : Lru Address (Option AccountInfo)}
    (hm : ∀ a o, m.peek a = some o → ⟨.basic a, o⟩ ∈ l ∨ c.accounts.peek a = some o)
    (h : RemoteCache.cached { c with accounts := m } q = some v) : ⟨q, v⟩ ∈ l ∨ c.cached q = some v := by
  cases q with
  | basic a => exact hm a v h
  | storage a index => exact .inr h
  | codeByHash hash => exact .inr h
  | step i => exact .inr h

theorem of_cached_storage {m : Lru (Address × U256) U256}
    (hm : ∀ a index v, m.peek (a, index) = some v →
      ⟨.storage a index, v⟩ ∈ l ∨ c.storage.peek (a, index) = some v)
    (h : RemoteCache.cached { c with storage := m } q = some v) : ⟨q, v⟩ ∈ l ∨ c.cached q = some v := by
  cases q with
  | basic a => exact .inr h
  | storage a index => exact hm a index v h
  | codeByHash hash => exact .inr h
  | step i => exact .inr h

theorem of_cached_code {m : Lru B256 Bytes}
    (hm : ∀ hash raw, m.peek hash = some raw → ⟨.codeByHash hash, raw⟩ ∈ l ∨ c.code.peek hash = some raw)
    (h : RemoteCache.cached { c with code := m } q = some v) : ⟨q, v⟩ ∈ l ∨ c.cached q = some v := by
  cases q with
  | basic a => exact .inr h
  | storage a index => exact .inr h
  | codeByHash hash => exact hm hash v h
  | step i => exact .inr h

theorem of_cached_putAccount {a : Address} {result : Option AccountInfo}
    (h : RemoteCache.cached { c with accounts := c.accounts.put a result } q = some v) :
    ⟨q, v⟩ ∈ [(⟨.basic a, result⟩ : Entry)] ∨ c.cached q = some v := by
  refine of_cached_accounts (fun b o hb => ?_) h
  rcases Lru.of_peek_put hb with heq | hb
  · cases heq
    exact .inl (List.mem_singleton_self _)
  · exact .inr hb

theorem of_cached_putSlot {a : Address} {index value : U256}
    (h : RemoteCache.cached { c with storage := c.storage.put (a, index) value } q = some v) :
    ⟨q, v⟩ ∈ [(⟨.storage a index, value⟩ : Entry)] ∨ c.cached q = some v := by
  refine of_cached_storage (fun b i w hb => ?_) h
  rcases Lru.of_peek_put hb with heq | hb
  · cases heq
    exact .inl (List.mem_singleton_self _)
  · exact .inr hb

theorem of_cached_putCode {hash : B256} {raw : Bytes}
    (h : RemoteCache.cached { c with code := c.code.put hash raw } q = some v) :
    ⟨q, v⟩ ∈ [(⟨.codeByHash hash, raw⟩ : Entry)] ∨ c.cached q = some v := by
  refine of_cached_code (fun hash' raw' hb => ?_) h
  rcases Lru.of_peek_put hb with heq | hb
  · cases heq
    exact .inl (List.mem_singleton_self _)
  · exact .inr hb

theorem of_cached_put {p : CachePut} (h : (RemoteDb.put c p).cached q = some v) :
    ⟨q, v⟩ ∈ [p.entry] ∨ c.cached q = some v := by
  cases p with
  | account a info => exact of_cached_putAccount h
  | storage a index value => exact of_cached_putSlot h
  | code hash raw => exact of_cached_putCode h

/-- Filing a slice adds nothing but entries of the slice, also if it fails on the way. -/
theorem of_cached_puts {puts : List (Except ClientError CachePut)} {c : RemoteCache}
    (h : (Lists.runUntil RemoteDb.put puts c).1.cached q = some v) :
    ⟨q, v⟩ ∈ puts.filterMap (fun put => put.toOption.map CachePut.entry)
      ∨ c.cached q = some v := by
  induction puts generalizing c with
  | nil => exact .inr h
  | cons put puts ih =>
      cases put with
      | error e => exact .inr h
      | ok p =>
          have hcons : (Except.ok p :: puts).filterMap
              (fun put : Except ClientError CachePut => put.toOption.map CachePut.entry)
              = p.entry :: puts.filterMap fun put => put.toOption.map CachePut.entry := rfl
          rw [hcons]
          rcases ih h with h | h
          · exact .inl (List.mem_cons_of_mem _ h)
          · rcases of_cached_put h with h | h
            · exact .inl (List.mem_cons.mpr (.inl (List.mem_singleton.mp h)))
            · exact .inr h

end Filing

/-- **An act adds nothing to the caches but what it files.** -/
theorem of_cached_perform {evm : Evm} {spec : ChainSpec} {s : Connection} {act : Act} {q : Query}
    {v : q.Answer} (h : (s.perform evm spec act).2.cache.cached q = some v) :
    ⟨q, v⟩ ∈ act.files ∨ s.cache.cached q = some v := by
  cases act with
  | getAccount a => exact .inr h
  | getCode a hash => exact .inr h
  | getStorage a index => exact .inr h
  | postPrefetch req => exact .inr h
  | containsCode hash => exact .inr h
  | cachedAccount a => exact of_cached_accounts (fun _ _ hb => .inr (Lru.of_peek_get hb)) h
  | cachedSlot a index => exact of_cached_storage (fun _ _ _ hb => .inr (Lru.of_peek_get hb)) h
  | cachedCode hash => exact of_cached_code (fun _ _ hb => .inr (Lru.of_peek_get hb)) h
  | putAccount a result => exact of_cached_putAccount h
  | putSlot a index value => exact of_cached_putSlot h
  | putCode hash raw => exact of_cached_putCode h
  | file resp =>
      have h' : (resp.receive RemoteDb.put s.cache).1.cached q = some v := h
      rw [PrefetchResponse.receive_fst] at h'
      exact of_cached_puts h'

end EvmState
