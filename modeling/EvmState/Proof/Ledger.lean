import EvmState.Proof.CodeRefs
import EvmState.Proof.DiffState
import EvmState.Replayer.Ledger

/-!
# Replaying refines the chain

The overlay of a block and the database under it stand for one ledger: reads of an
execution are reads of it, a commit is a step of it, and the flush leaves a database that
stands for it alone. What the flush forgets, slots of accounts that were destroyed or
created anew, is nothing as long as these have no storage when the block begins. So blocks
without diffs, replayed one after another and cut off anywhere, leave the ledger that
their transactions lead to (`pipelineStates_ledger`).
-/

namespace EvmState

open Std Ledger

/-- The overlay reads as the ledger, and its zeros of its own are zeros of the database. -/
structure Cache.Shows (db : StateDb) (c : Cache) (L : Ledger) : Prop where
  accounts : ∀ a, c.basic db a = .ok (L.accounts a)
  storage : ∀ a s, c.storage db a s = .ok (L.storage a s)
  code : ∀ h, c.codeByHash db h = L.code h
  cleared : ∀ (a : Address) (acct : DbAccount), c.accounts[a]? = some acct →
    acct.accountState.cleared = true → ∀ s, db.storageRef a s = .ok 0

/-- There is no storage without an account. -/
def StateDb.Tidy (db : StateDb) : Prop :=
  ∀ a, db.basicRef a = .ok none → ∀ s, db.storageRef a s = .ok 0

theorem StateDb.Shows.tidy {db : StateDb} {L : Ledger} (h : db.Shows L) (hL : L.Tidy) : db.Tidy := by
  intro a ha s
  rw [h.accounts a, Except.ok.injEq] at ha
  rw [h.storage, hL.absent a ha]

section Overlay

variable {evm : Evm} {hashSlow : Bytes → B256} {db : StateDb} {c c' : Cache} {L : Ledger}

/-- A fresh overlay reads as its database. -/
theorem shows_new (h : db.Shows L) (hL : L.Tidy) : Cache.new.Shows db L := by
  have hnone : ∀ a : Address, Cache.new.accounts[a]? = none := fun a => by simp [Cache.new]
  refine ⟨fun a => ?_, fun a s => ?_, fun hash => ?_, fun a acct ha => ?_⟩
  · rw [Cache.basic_uncached (hnone a), h.accounts]
  · rw [Cache.storage, hnone a, h.storage]
  · -- a new overlay caches two codes of its own, under 0 and under the hash of no code
    have hbuiltin : Cache.new.contracts[hash]?
        = if (0 : B256) = hash then some [] else if KECCAK256_EMPTY = hash then some [] else none := by
      simp only [Cache.new, ExtTreeMap.getElem?_insert, Std.compare_eq_iff_eq]
      rfl
    rw [Cache.codeByHash, hbuiltin]
    by_cases h0 : (0 : B256) = hash
    · rw [if_pos h0, ← h0, hL.zeroCode]
    · rw [if_neg h0]
      by_cases h1 : KECCAK256_EMPTY = hash
      · rw [if_pos h1, ← h1, hL.emptyCode]
      · rw [if_neg h1]
        exact h.code hash
  · rw [hnone a] at ha
    cases ha

/-- **What the overlay answers an execution** is what the ledger does. -/
theorem answer_shows (hdb : db.Tidy) (h : c.Shows db L) (q : Query) : c.answer db q = L.view q := by
  cases q with
  | basic a => exact h.accounts a
  | storage a s =>
      simp only [Cache.answer, Cache.loadStorage, view]
      cases ha : c.accounts[a]? with
      | some acct => exact h.storage a s
      | none =>
          -- an uncached account is loaded before its slot, which is 0 unasked if it is missing
          have hstorage : db.storageRef a s = .ok (L.storage a s) := by
            rw [← h.storage a s, Cache.storage, ha]
          have hbasic : db.basicRef a = .ok (L.accounts a) := by
            rw [← h.accounts a, Cache.basic_uncached ha]
          rw [hbasic]
          cases ho : L.accounts a with
          | some info => exact hstorage
          | none =>
              rw [ho] at hbasic
              exact (hdb a hbasic s).symm.trans hstorage
  | codeByHash hash => exact congrArg Except.ok (h.code hash)
  | step i => rfl

/-- Reading changes nothing of what the overlay stands for. -/
theorem Cache.Shows.loaded (h : c.Shows db L) (hdb : db.Tidy) (hl : Loaded db c c') :
    c'.Shows db L := by
  refine ⟨fun a => (hl.basic a).trans (h.accounts a), fun a s => ?_, fun hash => ?_, ?_⟩
  · have he := hl.accounts a
    rw [← h.storage a s]
    unfold Cache.storage
    -- one case for each way a read fills the entry
    generalize c.accounts[a]? = e, c'.accounts[a]? = e' at he
    cases he with
    | same => rfl
    | missing hnone => simp [DbAccount.newNotExisting, AccountState.cleared, hdb a hnone s]
    | @account info slots _ hslots =>
        cases hv : slots[s]? with
        | none => simp [hv, AccountState.cleared]
        | some v => simp [hv, hslots s v hv]
    | @slots acct slots hclear hslots =>
        rcases hslots s with hsame | ⟨hnone, v, hv, hdbv⟩
        · simp [hsame]
        · simp [hnone, hv, hclear, hdbv]
  · rw [← h.code hash, Cache.codeByHash, Cache.codeByHash]
    rcases hl.contracts hash with hsame | ⟨hnone, hnew⟩
    · rw [hsame]
    · rw [hnone, hnew]
  · intro a acct' ha hclear s
    have he := hl.accounts a
    rw [ha] at he
    generalize hc : c.accounts[a]? = e at he
    cases he with
    | same => exact h.cleared a acct' hc hclear s
    | missing hnone => exact hdb a hnone s
    | account _ _ => cases hclear
    | slots hnot _ =>
        rw [hnot] at hclear
        cases hclear

/-- On a ledger no read fails. -/
theorem eval_view (L : Ledger) (e : Execution) : ∃ r, e.eval L.view = .ok r := by
  induction e with
  | done r => exact ⟨r, rfl⟩
  | ask q k ih => cases q <;> exact ih _

variable (evm) in
/-- **An execution on the overlay** is that execution on the ledger. -/
theorem run_shows (hdb : db.Tidy) (h : c.Shows db L) (e : Execution) :
    (∃ r c', evm.run db e c = .ok (r, c') ∧ e.eval L.view = .ok (.ok r) ∧ c'.Shows db L)
      ∨ ∃ err, evm.run db e c = .error err ∧ e.eval L.view = .ok (.error err) := by
  have hanswer : ∀ q c, Cache.Shows db c L →
      evm.overlay db q c = (L.view q).map fun a => (a, evm.load db c q) :=
    fun q c hc => by rw [Evm.overlay, answer_shows hdb hc]
  -- a read is answered as the ledger says and files only what the ledger holds
  have hkeep : ∀ q c, Cache.Shows db c L → Cache.Shows db (evm.load db c q) L :=
    fun q c hc => hc.loaded hdb (evm.load_spec db c q)
  have hexec := Dialogue.exec_eq_eval hanswer (fun q c _ hc _ => hkeep q c hc) e c h
  obtain ⟨res, hres⟩ := eval_view L e
  rw [hres] at hexec
  cases res with
  | ok r =>
      have hrun : evm.run db e c = .ok (r, (e.asked L.view).foldl (evm.load db) c) := by
        rw [Evm.run, hexec]
        rfl
      refine .inl ⟨r, _, hrun, hres, ?_⟩
      exact Evm.run_inv (fun c q hc => hkeep q c hc) h hrun
  | error err =>
      refine .inr ⟨err, ?_, hres⟩
      rw [Evm.run, hexec]
      rfl

/-- The accounts a transaction destroys or creates have no storage in the database. -/
def FreshStorage (db : StateDb) (st : Changes) : Prop :=
  ∀ (a : Address) (acc : Account), st[a]? = some acc → acc.touched = true →
    acc.selfdestructed = true ∨ acc.created = true → ∀ s, db.storageRef a s = .ok 0

/-- What a commit leaves of one account. -/
theorem entry_shows {st : Changes} (h : c.Shows db L) (hst : Committed hashSlow st c c')
    (hfresh : FreshStorage db st) (a : Address) :
    ∃ o slots, AccountStep hashSlow st[a]? (L.accounts a) (L.storage a) o slots
      ∧ c'.basic db a = .ok o ∧ (∀ s, c'.storage db a s = .ok (slots s))
      ∧ ∀ acct, c'.accounts[a]? = some acct → acct.accountState.cleared = true →
          ∀ s, db.storageRef a s = .ok 0 := by
  have he := hst.accounts a
  generalize hchg : st[a]? = chg at he ⊢
  generalize hc : c.accounts[a]? = e at he
  generalize hc' : c'.accounts[a]? = e' at he
  cases he with
  | untouched hu =>
      refine ⟨_, _, .untouched hu, ?_, fun s => ?_, fun acct ha => h.cleared a acct (hc.trans ha)⟩
      · rw [← h.accounts a, Cache.basic, Cache.basic, hc, hc']
      · rw [← h.storage a s, Cache.storage, Cache.storage, hc, hc']
  | @destroyed acc _ ht hd =>
      refine ⟨_, _, .destroyed ht hd, ?_, fun s => ?_, fun _ _ _ => hfresh a acc hchg ht (.inl hd)⟩
      · rw [Cache.basic_cached hc']
        rfl
      · rw [Cache.storage_uncached hc' (by simp [DbAccount.newNotExisting])]
        rfl
  | @created acc _ info ht hd hcr hinfo =>
      refine ⟨_, _, .created ht hd hcr hinfo, ?_, fun s => ?_,
        fun _ _ _ => hfresh a acc hchg ht (.inr hcr)⟩
      · rw [Cache.basic_cached hc']
        rfl
      · cases hv : acc.storage[s]? with
        | some v => rw [Cache.storage_cached hc' hv, Option.getD_some]
        | none =>
            rw [Cache.storage_uncached hc' hv]
            rfl
  | @changed acc _ info state slots ht hd hcr hinfo hstate hcleared hslots =>
      refine ⟨_, _, .changed ht hd hcr hinfo, ?_, fun s => ?_, fun acct ha hclear => ?_⟩
      · rw [Cache.basic_cached hc']
        rcases hstate with rfl | rfl <;> rfl
      · have hslot := hslots s
        have hold := h.storage a s
        cases hv : acc.storage[s]? with
        | some v =>
            rw [hv, Option.some_or] at hslot
            rw [Cache.storage_cached hc' hslot, Option.getD_some]
        | none =>
            rw [hv, Option.none_or] at hslot
            rw [Option.getD_none, ← hold]
            cases e with
            | none =>
                have hplain : state = .touched := hstate.resolve_right fun hcl => by
                  obtain ⟨old, heq, _⟩ := hcleared.mp hcl
                  cases heq
                rw [Cache.storage_uncached hc' hslot, hplain, Cache.storage, hc]
                rfl
            | some old =>
                rw [Option.bind_some] at hslot
                cases hu : old.storage[s]? with
                | some u => rw [Cache.storage_cached hc' (hslot.trans hu), Cache.storage_cached hc hu]
                | none =>
                    rw [Cache.storage_uncached hc' (hslot.trans hu), Cache.storage_uncached hc hu]
                    rcases hstate with rfl | rfl
                    · -- the account may have been gone, and then the database has no slots of it
                      cases hcl : old.accountState.cleared with
                      | true => exact h.cleared a old hc hcl s
                      | false => rfl
                    · obtain ⟨old', heq, hcl⟩ := hcleared.mp rfl
                      cases heq
                      rw [hcl]
      · cases ha
        obtain ⟨old, rfl, hcl⟩ : ∃ old, e = some old ∧ old.accountState = .storageCleared := by
          refine hcleared.mp (hstate.resolve_left fun ht => ?_)
          rw [ht] at hclear
          cases hclear
        exact h.cleared a old hc (by rw [hcl]; rfl)

/-- **A commit is a step of the ledger.** -/
theorem commit_shows {st : Changes} (h : c.Shows db L) (hst : Committed hashSlow st c c')
    (hfresh : FreshStorage db st) : ∃ L', Ledger.Step hashSlow st L L' ∧ c'.Shows db L' := by
  choose accounts slots hstep hbasic hstorage hcleared using entry_shows h hst hfresh
  refine ⟨⟨accounts, slots, c'.codeByHash db⟩, ⟨hstep, fun hash => ?_⟩,
    ⟨hbasic, hstorage, fun _ => rfl, hcleared⟩⟩
  rcases hst.contracts hash with hsame | ⟨_, a, acc, raw, hacc, hcode, hne, hnew, hhash⟩
  · have hkept : c'.codeByHash db hash = c.codeByHash db hash := by
      simp only [Cache.codeByHash, hsame]
    exact .inl (hkept.trans (h.code hash))
  · have hraw : c'.codeByHash db hash = raw := by simp only [Cache.codeByHash, hnew]
    subst hraw
    exact .inr ⟨a, acc, hacc, hcode, hne, hhash⟩

end Overlay

/-! ## Blocks without diffs -/

section Blocks

variable {evm : Evm} {db : StateDb} {spec : ChainSpec} {block : Block} {L : Ledger}

/-- What the transactions of a block destroy or create has no storage when it begins. -/
def Block.FreshStorage (evm : Evm) (db : StateDb) (spec : ChainSpec) (block : Block) : Prop :=
  ∀ step ∈ blockStates evm db spec block, EvmState.FreshStorage db step.state

theorem executeTxs_shows (hdb : db.Tidy) (hplain : block.stateDiffs = []) {txs : List Transaction}
    {idx : Nat} {c c' : Cache} {rs : List TxResult} (h : c.Shows db L)
    (hfresh : ∀ step ∈ committedStates evm db spec block txs c, FreshStorage db step.state)
    (hx : executeTxs evm db spec block idx txs c = .ok (rs, c')) :
    ∃ L', Executes evm spec block txs L rs L' ∧ c'.Shows db L' := by
  induction txs generalizing idx c rs L with
  | nil =>
      cases hx
      exact ⟨L, .nil L, h⟩
  | cons tx txs ih =>
      obtain ⟨r, c₁, rs', htx, htxs, rfl⟩ := executeTxs_cons hx
      -- without diffs every transaction is executed
      have hrun : (isSystemTx tx && !block.stateDiffs.isEmpty) = false := by simp [hplain]
      rw [committedStates, hrun, if_neg Bool.false_ne_true] at hfresh
      rw [executeTx, hrun, if_neg Bool.false_ne_true] at htx
      rcases run_shows evm hdb h (replayExecution evm spec block tx) with
        ⟨res, c₂, hok, heval, hread⟩ | ⟨err, herr, _⟩
      · rw [hok] at hfresh htx
        cases htx
        obtain ⟨hhere, hlater⟩ := List.forall_mem_cons.mp hfresh
        obtain ⟨L₁, hstep, hshows⟩ := commit_shows hread (evm.commit_spec c₂ res.state) hhere
        obtain ⟨L', hexec, hend⟩ := ih hshows hlater htxs
        exact ⟨L', .cons heval hstep hexec, hend⟩
      · rw [herr] at htx
        cases htx

theorem Ledger.Step.absent {hashSlow : Bytes → B256} {st : Changes} {L L' : Ledger}
    (h : Ledger.Step hashSlow st L L')
    (hL : ∀ a, L.accounts a = none → ∀ s, L.storage a s = 0) :
    ∀ a, L'.accounts a = none → ∀ s, L'.storage a s = 0 := by
  intro a ha s
  have hstep := h.accounts a
  generalize st[a]? = chg, hacc : L'.accounts a = o at hstep
  generalize hstore : L'.storage a = slots at hstep
  rw [ha] at hacc
  cases hacc
  generalize hold : L.accounts a = o at hstep
  cases hstep with
  | untouched _ => exact hL a hold s
  | destroyed _ _ => rfl

theorem Ledger.Executes.absent {txs : List Transaction} {L L' : Ledger} {rs : List TxResult}
    (h : Executes evm spec block txs L rs L')
    (hL : ∀ a, L.accounts a = none → ∀ s, L.storage a s = 0) :
    ∀ a, L'.accounts a = none → ∀ s, L'.storage a s = 0 := by
  induction h with
  | nil => exact hL
  | cons _ hstep _ ih => exact ih (hstep.absent hL)

/-- **The flush leaves the ledger of the overlay.** -/
theorem flush_shows {c : Cache} (hinv : CacheInv db c) (h : c.Shows db L)
    (hcode : ∀ hash, hash = 0 ∨ hash = KECCAK256_EMPTY → db.codeByHashRef hash = [])
    (σ : HashOrder) (n : Option U64) : (flushCacheToDb σ db c n).Shows L := by
  refine ⟨fun a => (basicRef_flush hinv σ n a).trans (h.accounts a), fun a s => ?_, fun hash => ?_⟩
  · refine ((storageRef_flush_iff hinv σ n a s).mpr fun hwiped => ?_).trans (h.storage a s)
    obtain ⟨acct, ha, hclear, _⟩ := hwiped
    exact h.cleared a acct ha hclear s
  · exact ((codeByHashRef_flush_iff hinv σ n hash).mpr (hcode hash)).trans (h.code hash)

/-- **A block without diffs** leaves the ledger that its transactions lead to. -/
theorem replayBlock_ledger {keccak256 : Bytes → B256} {σ : HashOrder} (hdb : db.Shows L)
    (hL : L.Tidy) (hplain : block.stateDiffs = []) (hfresh : block.FreshStorage evm db spec)
    {res : BlockResult} (h : (replayBlock evm keccak256 σ db block spec).result = .ok res) :
    ∃ rs L', res = ⟨block.header.number, rs⟩
      ∧ Executes evm spec block block.transactions L rs L' ∧ L'.Tidy
      ∧ ((replayBlock evm keccak256 σ db block spec).db db).Shows L' := by
  have hcases := replayBlock_cases evm keccak256 σ db block spec
  generalize replayBlock evm keccak256 σ db block spec = r at hcases h
  cases hcases with
  | failed _ => cases h
  | @plain rs c hx _ =>
      cases h
      obtain ⟨L', hexec, hshows⟩ := executeTxs_shows (hdb.tidy hL) hplain (shows_new hdb hL) hfresh hx
      have hinv : CacheInv db c := cacheInv_executeTxs hx
      have hcode : ∀ hash, hash = 0 ∨ hash = KECCAK256_EMPTY → db.codeByHashRef hash = [] := by
        intro hash hhash
        rw [hdb.code]
        rcases hhash with rfl | rfl
        · exact hL.zeroCode
        · exact hL.emptyCode
      refine ⟨rs, L', rfl, hexec, ⟨hexec.absent hL.absent, ?_, ?_⟩, flush_shows hinv hshows hcode σ _⟩
      · rw [← hshows.code, Cache.codeByHash, hinv.builtin.1]
      · rw [← hshows.code, Cache.codeByHash, hinv.builtin.2]
  | hybrid _ hne _ => exact absurd hplain hne
  | half _ hne _ => exact absurd hplain hne

end Blocks

/-! ## Runs -/

section Runs

variable {evm : Evm} {keccak256 : Bytes → B256} {call : PipelineCall}

/-- So does what every block of a call destroys or creates, in the database it comes to. -/
def FreshStorageAll (evm : Evm) (keccak256 : Bytes → B256) (call : PipelineCall) (i : Nat)
    (db : StateDb) (blocks : List Block) : Prop :=
  ∀ done next rest d, blocks = done ++ next :: rest →
    replayAll evm keccak256 call i db done = .ok d → next.FreshStorage evm d call.spec

theorem FreshStorageAll.next {i : Nat} {db : StateDb} {b : Block} {blocks : List Block}
    (h : FreshStorageAll evm keccak256 call i db (b :: blocks)) {res : BlockResult}
    (hres : (replayBlock evm keccak256 (call.order i) db b call.spec).result = .ok res) :
    FreshStorageAll evm keccak256 call (i + 1)
      ((replayBlock evm keccak256 (call.order i) db b call.spec).db db) blocks := by
  intro done next rest d hsplit hdone
  refine h (b :: done) next rest d (by rw [hsplit]; rfl) ?_
  simp only [replayAll, hres, hdone]

/-- Blocks that were replayed leave the ledger they lead to. -/
theorem replayAll_ledger {done rest : List Block} {i : Nat} {db d : StateDb} {L : Ledger}
    (hdb : db.Shows L) (hL : L.Tidy) (hplain : ∀ b ∈ done, b.stateDiffs = [])
    (hfresh : FreshStorageAll evm keccak256 call i db (done ++ rest))
    (h : replayAll evm keccak256 call i db done = .ok d) :
    ∃ L', Replays evm call.spec done L L' ∧ d.Shows L' := by
  induction done generalizing i db L with
  | nil =>
      cases h
      exact ⟨L, .nil L, hdb⟩
  | cons b done ih =>
      obtain ⟨hb, hdone⟩ := List.forall_mem_cons.mp hplain
      rw [replayAll] at h
      split at h
      · rename_i res hres
        have hhere : b.FreshStorage evm db call.spec := hfresh [] b (done ++ rest) db rfl rfl
        obtain ⟨rs, L₁, _, hexec, hL₁, hshows⟩ := replayBlock_ledger hdb hL hb hhere hres
        obtain ⟨L', hreplays, hend⟩ := ih hshows hL₁ hdone (hfresh.next hres) h
        exact ⟨L', .cons hexec hreplays, hend⟩
      · cases h

theorem codeReaches_replayAll {done : List Block} {i : Nat} {db d : StateDb}
    (h : replayAll evm keccak256 call i db done = .ok d) : CodeReaches evm keccak256 db d := by
  induction done generalizing i db with
  | nil =>
      cases h
      exact .refl
  | cons b done ih =>
      rw [replayAll] at h
      split at h
      · -- the block stops behind the last of its commits
        have hstep : CodeStep evm keccak256 db
            ((replayBlock evm keccak256 (call.order i) db b call.spec).dbAfter _ db) :=
          .replay (call.order i) b call.spec
            (replayBlock evm keccak256 (call.order i) db b call.spec).commits.length
        rw [Replay.dbAfter, List.take_length] at hstep
        exact .head hstep (ih h)
      · cases h

/-- A ledger that a sound database stands for has its code under the hashes of it. -/
theorem hashed_of_shows {d : StateDb} {L : Ledger} (hd : d.CodeSound keccak256) (hshows : d.Shows L)
    (h : B256) (hne : L.code h ≠ []) : keccak256 (L.code h) = h := by
  rw [← hshows.code h, StateDb.codeByHashRef] at hne ⊢
  cases hraw : d.getCode h with
  | none =>
      rw [hraw] at hne
      exact absurd rfl hne
  | some raw => exact hd.filed h raw hraw

/-- Without diffs every state of a call is that after a first part of its blocks. -/
theorem plainState_pipelineStates {db d : StateDb} {head : Option U64}
    (hhead : db.getHeadBlock = .ok head)
    (hplain : ∀ b ∈ pending head call.blocks, b.stateDiffs = [])
    (hd : d ∈ pipelineStates evm keccak256 db call) :
    ∃ done rest, pending head call.blocks = done ++ rest ∧ d.getHeadBlock = headAfter db done
      ∧ replayAll evm keccak256 call 0 db done = .ok d := by
  obtain ⟨done, rest, d', hsplit, hdone, hdhead, hsame, hstate⟩ := isPrefixState_pipelineStates hhead hd
  have hd' : d = d' := by
    rcases hstate with rfl | ⟨next, rest', rfl, hne, _⟩
    · rfl
    · exact absurd (hplain next (by rw [hsplit]; simp)) hne
  subst hd'
  refine ⟨done, rest, hsplit, ?_, hdone⟩
  rw [hdhead, headAfter]
  cases done.getLast? <;> rfl

end Runs

/--
**Replaying refines the chain.** Take a database that stands for a ledger, and a call whose
blocks have no diffs and neither destroy nor create accounts with storage. Every state of
the database during the call and after it, a process that stops anywhere included, stands
for the ledger that the transactions of the first blocks lead to, the last of which is the
head; and all code of that ledger is under its own hash, if the code of the database was.
-/
theorem pipelineStates_ledger {evm : Evm} {keccak256 : Bytes → B256} {call : PipelineCall}
    {db : StateDb} {L : Ledger} (hdb : db.Shows L) (hL : L.Tidy) {head : Option U64}
    (hhead : db.getHeadBlock = .ok head)
    (hplain : ∀ b ∈ pending head call.blocks, b.stateDiffs = [])
    (hfresh : FreshStorageAll evm keccak256 call 0 db (pending head call.blocks)) :
    ∀ d ∈ pipelineStates evm keccak256 db call, ∃ done rest L',
      pending head call.blocks = done ++ rest ∧ d.getHeadBlock = headAfter db done
        ∧ Replays evm call.spec done L L' ∧ d.Shows L'
        ∧ (evm.CodeRules keccak256 → keccak256 [] = KECCAK256_EMPTY → db.CodeSound keccak256 →
            ∀ h, L'.code h ≠ [] → keccak256 (L'.code h) = h) := by
  intro d hd
  obtain ⟨done, rest, hsplit, hdhead, hdone⟩ := plainState_pipelineStates hhead hplain hd
  have hdone_plain : ∀ b ∈ done, b.stateDiffs = [] := fun b hb =>
    hplain b (hsplit ▸ List.mem_append_left _ hb)
  obtain ⟨L', hreplays, hshows⟩ := replayAll_ledger hdb hL hdone_plain (hsplit ▸ hfresh) hdone
  refine ⟨done, rest, L', hsplit, hdhead, hreplays, hshows, fun hcode hempty hsound => ?_⟩
  obtain ⟨hd, _⟩ := codeReaches_codeSound hcode hempty hsound (codeReaches_replayAll hdone)
  exact hashed_of_shows hd hshows

/-! ## A ledger to start from -/

/-- The ledger a database stands for. -/
def StateDb.ledger (db : StateDb) : Ledger where
  accounts a := (db.basicRef a).toOption.join
  storage a s := (db.storageRef a s).toOption.getD 0
  code := db.codeByHashRef

/-- Where nothing is corrupt there is one. -/
theorem StateDb.WellFormed.shows {db : StateDb} (h : db.WellFormed) : db.Shows db.ledger := by
  refine ⟨fun a => ?_, fun a s => ?_, fun _ => rfl⟩
  · obtain ⟨o, ho⟩ := h.getAccount_ok a
    have hbasic : db.basicRef a = .ok o := ho
    simp [StateDb.ledger, hbasic, Except.toOption]
  · obtain ⟨o, ho⟩ := h.getStorage_ok a s
    have hslot : db.storageRef a s = .ok (o.getD 0) := StateDb.storageRef_eq_ok.mpr ⟨o, ho, rfl⟩
    simp [StateDb.ledger, hslot, Except.toOption]

/-- The counted block, as a portal without diffs sends it. -/
def countedPlain : PipelineCall where
  blocks := [.ok { countedBlock with stateDiffs := [] }]
  spec := polygonMainnet

theorem storageRef_senderDb (a : Address) (s : U256) : senderDb.storageRef a s = .ok 0 := by
  have hempty : senderDb.getStorage a s = StateDb.empty.getStorage a s :=
    StateDb.getStorage_commit_none rfl
  rw [StateDb.storageRef, hempty]
  rfl

theorem tidy_senderDb : senderDb.ledger.Tidy where
  absent a _ s := by simp [StateDb.ledger, storageRef_senderDb, Except.toOption]
  zeroCode := by decide
  emptyCode := by decide

theorem withoutDiffs_countedPlain : ∀ b ∈ pending none countedPlain.blocks, b.stateDiffs = [] := by
  intro b hb
  obtain rfl := List.mem_singleton.mp hb
  rfl

/-- Counted transactions destroy and create nothing. -/
theorem freshStorage_counting {keccak256 : Bytes → B256} {db d : StateDb} {spec : ChainSpec}
    {block : Block} {txs : List Transaction} {c : Cache} :
    ∀ step ∈ committedStates (.counting keccak256) db spec block txs c, FreshStorage d step.state := by
  induction txs generalizing c with
  | nil => simp [committedStates]
  | cons tx txs ih =>
      rw [committedStates]
      split
      · exact ih
      · split
        · rename_i r c' hrun
          refine List.forall_mem_cons.mpr ⟨fun a acc ha _ hchanged => ?_, ih⟩
          rw [replayExecution] at hrun
          split at hrun
          · -- a system call changes nothing
            obtain ⟨rfl, _⟩ := Prod.mk.inj (Except.ok.inj hrun)
            simp at ha
          · -- the only entry is the sender's
            obtain ⟨info, _, _, _, rfl, _⟩ := counting_accepted hrun
            simp only [countingResult, Std.ExtTreeMap.getElem?_insert, Std.compare_eq_iff_eq,
              Std.ExtTreeMap.getElem?_empty] at ha
            split at ha
            · rw [← Option.some.inj ha] at hchanged
              simp at hchanged
            · cases ha
        · simp

theorem freshStorageAll_counting {hashed keccak256 : Bytes → B256} {call : PipelineCall} {i : Nat}
    {db : StateDb} {blocks : List Block} :
    FreshStorageAll (.counting hashed) keccak256 call i db blocks :=
  fun _ _ _ _ _ _ => freshStorage_counting

theorem codeSound_senderDb {keccak256 : Bytes → B256} : senderDb.CodeSound keccak256 := by
  refine (codeSound_empty.commit ⟨fun h v hv => ?_, fun a info hv => ?_⟩).1
  · rw [WriteBatch.lastVal_singleton, if_neg (by simp [Write.key])] at hv
    cases hv
  · -- the only record has the hash of empty code
    rw [WriteBatch.lastVal_singleton] at hv
    split at hv
    · obtain rfl := AccountInfo.toBytes_inj (Option.some.inj (Option.some.inj hv))
      exact .inr (.inl rfl)
    · cases hv

/-- The counted block leads where its transaction does. -/
theorem pipelineStates_ledger_countedPlain :
    let keccak256 : Bytes → B256 := fun _ => KECCAK256_EMPTY
    let d := (runPipeline (.counting keccak256) keccak256 senderDb countedPlain).db
    d.getHeadBlock = .ok (some 10) ∧ ∃ done rest L',
      pending none countedPlain.blocks = done ++ rest ∧ d.getHeadBlock = headAfter senderDb done
        ∧ Replays (.counting keccak256) countedPlain.spec done senderDb.ledger L' ∧ d.Shows L'
        ∧ ∀ h, L'.code h ≠ [] → keccak256 (L'.code h) = h := by
  intro keccak256 d
  obtain ⟨done, rest, L', hsplit, hhead, hreplays, hshows, hhashed⟩ :=
    pipelineStates_ledger wellFormed_senderDb.shows tidy_senderDb (by decide)
      withoutDiffs_countedPlain freshStorageAll_counting d (db_mem_pipelineStates _ _)
  exact ⟨by decide, done, rest, L', hsplit, hhead, hreplays, hshows,
    hhashed counting_codeRules rfl codeSound_senderDb⟩

end EvmState
