import EvmState.Client.Threads
import EvmState.Proof.CodeRefs
import EvmState.Proof.Remote

/-!
# Code under a foreign hash

An account and its code come in two requests, and the second one names the account,
not the hash. Between them the server may replay a block that gives the account other
code, which the client then files under the hash it read first
(`code_under_foreign_hash`). Whenever each request for code finds the account with the
hash it was read with, everything filed has the hash it is filed under, whatever the
threads of the client do and in whatever order (`codeCache_sound`).
-/

namespace EvmState

open Threads

/-- Every entry of the code table is filed under its hash. -/
def StateDb.ContentAddressed (keccak256 : Bytes → B256) (db : StateDb) : Prop :=
  ∀ h raw, db.getCode h = some raw → keccak256 raw = h

/-- The same of the client's code cache. -/
def RemoteCache.ContentAddressed (keccak256 : Bytes → B256) (c : RemoteCache) : Prop :=
  ∀ h raw, c.code.peek h = some raw → keccak256 raw = h

/-- The server's database is replaced by one that the replay of some block commits. -/
def Connection.Advances (evm : Evm) (keccak256 : Bytes → B256) (spec : ChainSpec)
    (s s' : Connection) : Prop :=
  s'.cache = s.cache ∧ ∃ σ block, s'.db ∈ (replayBlock evm keccak256 σ s.db block spec).commits

/-- The server of a client: its database moves with replayed blocks and stays content-addressed. -/
def Connection.Serves (evm : Evm) (keccak256 : Bytes → B256) (spec : ChainSpec)
    (s s' : Connection) : Prop :=
  s.Advances evm keccak256 spec s' ∧ s'.db.ContentAddressed keccak256

/-- If the server has code to answer with, it is that of the hash it will be filed under. -/
def CodeStays (db : StateDb) : Act → Prop
  | .getCode a h => ∀ info raw, db.getAccount a = .ok (some info) →
      db.getCode info.codeHash = some raw → info.codeHash = h
  | _ => True

/-- The step is no request for code that a replayed block has overtaken. -/
def NotOvertaken (client : Client) (e : Event Act) : Prop :=
  ∀ i act, e = .answer i act → CodeStays client.shared.db act

section Sound

variable {evm : Evm} {keccak256 : Bytes → B256} {spec : ChainSpec}

/-- What is kept: database and cache are both content-addressed. -/
structure CodeFiled (keccak256 : Bytes → B256) (s : Connection) : Prop where
  db : s.db.ContentAddressed keccak256
  cache : s.cache.ContentAddressed keccak256

/-- An act keeps it if the code it files has the hash it is filed under. -/
theorem CodeFiled.perform {s : Connection} (hs : CodeFiled keccak256 s) {act : Act}
    (hfiles : ∀ h raw, ⟨.codeByHash h, raw⟩ ∈ act.files → keccak256 raw = h) :
    CodeFiled keccak256 (s.perform evm spec act).2 := by
  refine ⟨hs.db, fun h raw hraw => ?_⟩
  have hcached : (s.perform evm spec act).2.cache.cached (.codeByHash h) = some raw := hraw
  rcases of_cached_perform hcached with hm | hm
  · exact hfiles h raw hm
  · exact hs.cache h raw hm

variable (evm keccak256 spec) in
/-- A program whose every act keeps it, as long as requests for code are not overtaken. -/
def SafeCode {ρ : Type} (d : Steps ρ) : Prop :=
  Safe (Connection.perform evm spec) (CodeFiled keccak256) (fun s act => CodeStays s.db act)
    (fun _ => True) d

/-- An act that files no code. -/
theorem SafeCode.ask {ρ : Type} {act : Act} {k : act.Answer → Steps ρ}
    (hfiles : ∀ h raw, ⟨.codeByHash h, raw⟩ ∈ act.files → keccak256 raw = h)
    (hk : ∀ s, CodeFiled keccak256 s → CodeStays s.db act →
      SafeCode evm keccak256 spec (k (s.perform evm spec act).1)) :
    SafeCode evm keccak256 spec (.ask act k) :=
  fun s hs hstays => ⟨hs.perform hfiles, hk s hs hstays⟩

theorem safeCode_done {ρ : Type} (r : ρ) : SafeCode evm keccak256 spec (.done r) := trivial

theorem SafeCode.bind {ρ τ : Type} {d : Steps ρ} {f : ρ → Steps τ}
    (hd : SafeCode evm keccak256 spec d) (hf : ∀ r, SafeCode evm keccak256 spec (f r)) :
    SafeCode evm keccak256 spec (d.bind f) := Safe.bind hd fun r _ => hf r

/-! ## The methods -/

theorem safeCode_fetchCodeForAddress (a : Address) (h : B256) :
    SafeCode evm keccak256 spec (Steps.fetchCodeForAddress a h) := by
  refine SafeCode.ask (fun _ _ hm => by cases hm) fun s hs _ => ?_
  cases (s.perform evm spec (.containsCode h)).1 with
  | true => exact safeCode_done _
  | false =>
      refine SafeCode.ask (fun _ _ hm => by cases hm) fun s hs hstays => ?_
      cases hr : (s.perform evm spec (.getCode a h)).1 with
      | error e => exact safeCode_done _
      | ok o =>
          cases o with
          | none => exact safeCode_done _
          | some raw =>
              -- what the server answered with is the code of this very hash
              simp only [Connection.perform, Act.perform] at hr
              obtain ⟨info, hinfo, hraw⟩ := RemoteDb.of_fetch_code hr
              have hhash : keccak256 raw = h :=
                (hs.db _ _ hraw).trans (hstays info raw hinfo hraw)
              refine SafeCode.ask (fun h' raw' hm => ?_) fun _ _ _ => safeCode_done _
              cases List.mem_singleton.mp hm
              exact hhash

theorem safeCode_basicRef (a : Address) : SafeCode evm keccak256 spec (Steps.basicRef a) := by
  refine SafeCode.ask (fun _ _ hm => by cases hm) fun s hs _ => ?_
  cases (s.perform evm spec (.cachedAccount a)).1 with
  | some result => exact safeCode_done _
  | none =>
      -- what is cached under the address at the end holds no code
      have hfetch : SafeCode evm keccak256 spec (Steps.fetchAccount a) := by
        refine SafeCode.ask (fun _ _ hm => by cases hm) fun s hs _ => ?_
        cases (s.perform evm spec (.getAccount a)).1 with
        | error e => exact safeCode_done _
        | ok o =>
            cases o with
            | none => exact safeCode_done _
            | some info =>
                dsimp only
                split
                · exact (safeCode_fetchCodeForAddress a info.codeHash).bind fun _ => safeCode_done _
                · exact safeCode_done _
      refine hfetch.bind fun fetched => ?_
      cases fetched with
      | error e => exact safeCode_done _
      | ok result =>
          refine SafeCode.ask (fun _ _ hm => ?_) fun _ _ _ => safeCode_done _
          cases List.mem_singleton.mp hm

theorem safeCode_storageRef (a : Address) (index : U256) :
    SafeCode evm keccak256 spec (Steps.storageRef a index) := by
  refine SafeCode.ask (fun _ _ hm => by cases hm) fun s hs _ => ?_
  cases (s.perform evm spec (.cachedSlot a index)).1 with
  | some value => exact safeCode_done _
  | none =>
      refine SafeCode.ask (fun _ _ hm => by cases hm) fun s hs _ => ?_
      cases (s.perform evm spec (.getStorage a index)).1 with
      | error e => exact safeCode_done _
      | ok value =>
          refine SafeCode.ask (fun _ _ hm => ?_) fun _ _ _ => safeCode_done _
          cases List.mem_singleton.mp hm

theorem safeCode_read (q : Query) : SafeCode evm keccak256 spec (Steps.read q) := by
  cases q with
  | basic a => exact safeCode_basicRef a
  | storage a index => exact safeCode_storageRef a index
  | codeByHash h =>
      exact SafeCode.ask (fun _ _ hm => by cases hm) fun _ _ _ => safeCode_done _
  | step i => exact safeCode_done _

/-- A slice has code from the database that answers, under its hash there. -/
theorem entries_contentAddressed {db : StateDb} (hdb : db.ContentAddressed keccak256)
    {req : PrefetchRequest} {resp : PrefetchResponse} (h : postPrefetch evm db spec req = .ok resp)
    {hash : B256} {raw : Bytes} (hm : ⟨.codeByHash hash, raw⟩ ∈ resp.entries) :
    keccak256 raw = hash := by
  unfold postPrefetch at h
  split at h
  · cases h
  · obtain ⟨_, slice, _, hslice, hresp, _, _⟩ := prefetch_ok h
    obtain ⟨put, hput, hentry⟩ := List.mem_filterMap.mp hm
    rw [hresp] at hput
    -- code in a slice is what the database files under the hash of its account
    obtain ⟨p, rfl, hp⟩ := filed_of_mem_puts hslice hput
    cases p <;> cases hentry
    exact hdb hash raw hp.2.2.2

theorem safeCode_prefetch (req : PrefetchRequest) :
    SafeCode evm keccak256 spec (Steps.prefetch req) := by
  refine SafeCode.ask (fun _ _ hm => by cases hm) fun s hs _ => ?_
  have hanswer : (s.perform evm spec (.postPrefetch req)).1
      = (postPrefetch evm s.db spec req).mapError (fun e => .server e.status) := rfl
  rw [hanswer]
  cases hp : postPrefetch evm s.db spec req with
  | error e => exact safeCode_done _
  | ok resp =>
      exact SafeCode.ask (fun _ _ hm => entries_contentAddressed hs.db hp hm)
        fun _ _ _ => safeCode_done _

/-- **Every method is safe.** -/
theorem safeCode_program (m : Method) : SafeCode evm keccak256 spec (m.program evm) := by
  cases m with
  | read q => exact (safeCode_read q).bind fun _ => safeCode_done _
  | prefetch toAddr calldata fromAddr value =>
      exact (safeCode_prefetch _).bind fun _ => safeCode_done _
  | call specId mode toAddr calldata fromAddr value =>
      have hcall : SafeCode evm keccak256 spec
          (StateClient.call evm specId mode toAddr calldata fromAddr value) := by
        refine (safeCode_prefetch _).bind fun prefetched => ?_
        cases prefetched with
        | error e => exact safeCode_done _
        | ok prefetched =>
            cases mode with
            | trustServer => exact safeCode_done _
            | verify =>
                -- a local run only reads, and each read is safe
                have hlocal : SafeCode evm keccak256 spec
                    ((localExecution evm specId toAddr calldata fromAddr value).interp Steps.read []) :=
                  Safe.interp safeCode_read _ _
                exact (hlocal.bind fun _ => safeCode_done _).bind fun _ => safeCode_done _
      exact hcall.bind fun _ => safeCode_done _

end Sound

/--
**No code under a foreign hash.** A new client of a server whose database stays
content-addressed while it replays blocks: if each request for code finds the account
with the hash that it was read with, every code in the cache has the hash it is filed
under, whatever methods its threads run and however these and the server interleave.
-/
theorem codeCache_sound {evm : Evm} {keccak256 : Bytes → B256} {spec : ChainSpec} {capacity : Nat}
    (pos : 0 < capacity) {db : StateDb} (hdb : db.ContentAddressed keccak256) {client : Client}
    (hrun : ClientRun evm spec (Connection.Serves evm keccak256 spec) NotOvertaken
      ⟨⟨db, .new capacity pos⟩, []⟩ client) :
    client.shared.cache.ContentAddressed keccak256 := by
  have hstart : CodeFiled keccak256 ⟨db, .new capacity pos⟩ := ⟨hdb, fun _ _ h => by cases h⟩
  have hinv := hrun.invariant hstart (fun _ hm => by cases hm)
    (fun s s' hmove hs => ⟨hmove.2, hmove.1.1 ▸ hs.cache⟩)
    (fun d ⟨m, hd⟩ => hd ▸ safeCode_program m)
    (fun client i act hok => hok i act rfl)
  exact hinv.1.cache

/-! ## A request that is overtaken -/

/-- A thread's read of an account, from the answers to its requests on. -/
def readFetched (a : Address) (fetched : Except ClientError (Option AccountInfo)) : Steps Outcome :=
  Dialogue.bind
    (match fetched with
    | .ok result => .ask (.putAccount a result) fun _ => .done (.ok result)
    | .error e => .done (.error e)) fun result => .done (.read (.basic a) result)

/-- The same read from the cache on. -/
def readCached (a : Address) : Option (Option AccountInfo) → Steps Outcome
  | some result => .done (.read (.basic a) (.ok result))
  | none => (Steps.fetchAccount a).bind (readFetched a)

theorem program_readBasic (evm : Evm) (a : Address) :
    (Method.read (.basic a)).program evm = .ask (.cachedAccount a) (readCached a) := by
  simp only [Method.program, Steps.read, Steps.basicRef, Dialogue.bind]
  congr 1
  funext cached
  cases cached with
  | some result => rfl
  | none => exact Dialogue.bind_assoc _ _ _

section Overtaken

variable {evm : Evm} {spec : ChainSpec} {env : Connection → Connection → Prop}
  {ok : Client → Event Act → Prop} {capacity : Nat}

/--
One `basic_ref` on a new client, with the server moving on between the two requests:
what it has for the account by then is filed under the hash the account had before.
-/
theorem basicRef_overtaken (pos : 0 < capacity) {db db' : StateDb} {a : Address}
    {info info' : AccountInfo} {raw : Bytes} (hinfo : db.getAccount a = .ok (some info))
    (hne : ¬ RemoteDb.EmptyHash info.codeHash) (hinfo' : db'.getAccount a = .ok (some info'))
    (hraw : db'.getCode info'.codeHash = some raw)
    (hmove : env ⟨db, .new capacity pos⟩ ⟨db', .new capacity pos⟩)
    (hok : ∀ client e, (∀ i a' h, e ≠ .answer i (.getCode a' h)) → ok client e)
    (hcodeok : ∀ client : Client, client.shared.db = db' →
      ok client (.answer 0 (.getCode a info.codeHash))) :
    ∃ client, ClientRun evm spec env ok ⟨⟨db, .new capacity pos⟩, []⟩ client
      ∧ client.shared.cache.code.peek info.codeHash = some raw := by
  have hne' : info.codeHash ≠ 0 ∧ info.codeHash ≠ KECCAK256_EMPTY :=
    ⟨fun h => hne (.inl h), fun h => hne (.inr h)⟩
  let c : RemoteCache := .new capacity pos
  let start : Client := ⟨⟨db, c⟩, []⟩
  have hstarted : ClientRun evm spec env ok start
      ⟨⟨db, c⟩, [(Method.read (.basic a)).program evm]⟩ :=
    (Run.refl start).step (hok _ _ fun _ _ _ h => by cases h) (.start ⟨_, rfl⟩)
  have haccount : ∀ s : Connection, s.db = db →
      (Connection.perform evm spec (.getAccount a) s).1 = .ok (some info) := by
    intro s hs
    simp only [Connection.perform, Act.perform]
    rw [hs, RemoteDb.fetch_account, hinfo]
    rfl
  have hcode : ∀ s : Connection, s.db = db' →
      (Connection.perform evm spec (.getCode a info.codeHash) s).1 = .ok (some raw) := by
    intro s hs
    simp only [Connection.perform, Act.perform]
    rw [hs, RemoteDb.fetch_code hinfo', hraw]
  -- the account is not cached and is requested
  have hmissed : ClientRun evm spec env ok start
      ⟨⟨db, c⟩, [(Steps.fetchAccount a).bind (readFetched a)]⟩ := by
    rw [program_readBasic] at hstarted
    exact hstarted.ask (hok _ _ fun _ _ _ h => by cases h)
  have hfetched : ClientRun evm spec env ok start
      ⟨⟨db, c⟩, [(Steps.fetchCodeForAddress a info.codeHash).bind fun result =>
        readFetched a (result.map fun _ => some info)]⟩ := by
    have hasked := hmissed.ask (hok _ _ fun _ _ _ h => by cases h)
    rw [haccount _ rfl] at hasked
    simp only [Dialogue.bind, if_pos hne', Dialogue.bind_assoc] at hasked
    exact hasked
  -- its code is not cached either, and the server moves on before that request
  have hlooked := hfetched.ask (hok _ _ fun _ _ _ h => by cases h)
  have hcontains : (Connection.perform evm spec (.containsCode info.codeHash) ⟨db, c⟩).1 = false := rfl
  rw [hcontains] at hlooked
  simp only [Bool.false_eq_true, if_false, Dialogue.bind] at hlooked
  have hmove' : env (Connection.perform evm spec (.containsCode info.codeHash) ⟨db, c⟩).2 ⟨db', c⟩ :=
    hmove
  have hmoved := hlooked.step (hok _ _ fun _ _ _ h => by cases h) (.environment hmove')
  have hanswered := hmoved.ask (hcodeok _ rfl)
  rw [hcode _ rfl] at hanswered
  exact ⟨_, hanswered.ask (hok _ _ fun _ _ _ h => by cases h), Lru.peek_put_self ..⟩

end Overtaken

/-- keccak256 of the empty string, of a single zero byte and of `abc`. -/
def zeroAbcKeccak256 (code : Bytes) : B256 :=
  if code = [] then KECCAK256_EMPTY
  else if code = [0] then 0xbc36789e7a1e281436464229828f817d6612f7b477d66591ff96a9e064bcc98a
  else 0x4e03657aea45a94fc7d47ba826c8d667c0d1e6e33a64a036ec44f58fa12d6c45

/-- A block whose diffs give the contract of `codeGenesis` other code. -/
def recodingBlock : Block where
  header := { number := 1 }
  stateDiffs := [{ address := some 0xC, key := some "code", kind := some "*", next := some "0x00" }]

/-- The contract with its first code. -/
def codedDb : StateDb := runGenesis zeroAbcKeccak256 .sorted .empty codeGenesis

/-- The replay of a block on it. -/
def codedReplay (block : Block) : Replay :=
  replayBlock (.counting zeroAbcKeccak256) zeroAbcKeccak256 .sorted codedDb block ethereumMainnet

theorem codeSound_codedDb : codedDb.CodeSound zeroAbcKeccak256 :=
  (codeSound_empty.commit (keepsCode_genesis (by decide) .sorted .empty codeGenesis)).1

/-- The replay is a move that a server may make. -/
theorem serves_codedReplay {block : Block} (hsome : (codedReplay block).commits.getLast?.isSome = true)
    (c : RemoteCache) :
    Connection.Serves (.counting zeroAbcKeccak256) zeroAbcKeccak256 ethereumMainnet ⟨codedDb, c⟩
      ⟨(codedReplay block).db codedDb, c⟩ := by
  obtain ⟨d, hd⟩ := Option.isSome_iff_exists.mp hsome
  have hmem : d ∈ (codedReplay block).commits := List.mem_of_getLast? hd
  have hdb : (codedReplay block).db codedDb = d := by rw [Replay.db, hd, Option.getD_some]
  rw [hdb]
  exact ⟨⟨rfl, .sorted, block, hmem⟩,
    (codeSound_replayBlock counting_codeRules codeSound_codedDb .sorted hmem).1.filed⟩

/-- **A zero byte under the hash of `abc`**: the contract changes between the two requests. -/
theorem code_under_foreign_hash : ∃ client,
    ClientRun (.counting zeroAbcKeccak256) ethereumMainnet
        (Connection.Serves (.counting zeroAbcKeccak256) zeroAbcKeccak256 ethereumMainnet)
        (fun _ _ => True) ⟨⟨codedDb, .new 1 (by decide)⟩, []⟩ client
      ∧ codedDb.ContentAddressed zeroAbcKeccak256
      ∧ client.shared.cache.code.peek (zeroAbcKeccak256 [0x61, 0x62, 0x63]) = some [0]
      ∧ ¬ client.shared.cache.ContentAddressed zeroAbcKeccak256 := by
  have hbefore : codedDb.getAccount 0xC = .ok (some ⟨0, 0, zeroAbcKeccak256 [0x61, 0x62, 0x63]⟩) := by
    decide
  -- block 1 gives 0xC new code between the two requests of the client
  have hafter : ((codedReplay recodingBlock).db codedDb).getAccount 0xC
      = .ok (some ⟨0, 0, zeroAbcKeccak256 [0]⟩) := by decide
  have hcode : ((codedReplay recodingBlock).db codedDb).getCode (zeroAbcKeccak256 [0]) = some [0] := by
    decide
  obtain ⟨client, hrun, hforeign⟩ := basicRef_overtaken (by decide) hbefore (by decide) hafter hcode
    (serves_codedReplay (by decide) (.new 1 (by decide))) (fun _ _ _ => trivial) (fun _ _ => trivial)
  refine ⟨client, hrun, codeSound_codedDb.filed, hforeign, fun hsound => ?_⟩
  exact absurd (hsound _ _ hforeign) (by decide)

/-- Behind a block that leaves the contract alone, its code is what is filed. -/
theorem codeCache_sound_codedDb : ∃ client : Client,
    client.shared.cache.code.peek (zeroAbcKeccak256 [0x61, 0x62, 0x63]) = some [0x61, 0x62, 0x63]
      ∧ client.shared.cache.ContentAddressed zeroAbcKeccak256 := by
  have hbefore : codedDb.getAccount 0xC = .ok (some ⟨0, 0, zeroAbcKeccak256 [0x61, 0x62, 0x63]⟩) := by
    decide
  have hafter : ((codedReplay { header := { number := 1 } }).db codedDb).getAccount 0xC
      = .ok (some ⟨0, 0, zeroAbcKeccak256 [0x61, 0x62, 0x63]⟩) := by decide
  have hcode : ((codedReplay { header := { number := 1 } }).db codedDb).getCode
      (zeroAbcKeccak256 [0x61, 0x62, 0x63]) = some [0x61, 0x62, 0x63] := by decide
  -- only the second request for the code can be overtaken
  have hok : ∀ (client : Client) e, (∀ i a h, e ≠ .answer i (.getCode a h)) →
      NotOvertaken client e := by
    intro client e hne i act he
    cases act with
    | getCode a h => exact absurd he (hne i a h)
    | _ => trivial
  have hcodeok : ∀ client : Client,
      client.shared.db = (codedReplay { header := { number := 1 } }).db codedDb →
      NotOvertaken client (.answer 0 (.getCode 0xC (zeroAbcKeccak256 [0x61, 0x62, 0x63]))) := by
    intro client hdb i act he
    cases he
    intro info raw hinfo _
    rw [hdb, hafter] at hinfo
    cases hinfo
    rfl
  obtain ⟨client, hrun, hfiled⟩ := basicRef_overtaken (by decide) hbefore (by decide) hafter hcode
    (serves_codedReplay (by decide) (.new 1 (by decide))) hok hcodeok
  exact ⟨client, hfiled, codeCache_sound (by decide) codeSound_codedDb.filed hrun⟩

end EvmState
