import EvmState.Cli.Validate
import EvmState.Proof.Callers
import EvmState.Proof.Ledger
import EvmState.Proof.Validator
import EvmState.Proof.Verify

/-!
# What users of a replayed database see

A database that stands for a ledger passes it on: whatever a client that is new to it has
asked since, the accounts and slots it is told are those of the ledger, and a call it
trusts the server with has the result it has on the ledger. So does a database that blocks
without diffs are replayed into, at any moment (`pipelineStates_tell`). A node of the same
chain confirms it where it answers for slots at all, up to how the validator treats
accounts without code (`pipelineStates_validated`).
-/

namespace EvmState

open Ledger

/-! ## Clients -/

/-- What a call at a head returns on a ledger. -/
def Ledger.call (evm : Evm) (spec : ChainSpec) (head : U64) (L : Ledger) (call : ViewCall) :
    Option PrefetchResult := outcome ((prefetchExecution evm spec head call).eval L.view)

/-- Whatever a client that is new to the database has asked since, it is told what the ledger says. -/
structure Tells (evm : Evm) (spec : ChainSpec) (db : StateDb) (L : Ledger) : Prop where
  account : ∀ (capacity : Nat) (pos : 0 < capacity) (calls : List RemoteDb.Call) (a : Address),
    (RemoteDb.basicRef db a (RemoteDb.run evm spec db (.new capacity pos) calls)).map Prod.fst
      = .ok (L.accounts a)
  slot : ∀ (capacity : Nat) (pos : 0 < capacity) (calls : List RemoteDb.Call) (a : Address)
      (index : U256),
    (RemoteDb.storageRef db a index (RemoteDb.run evm spec db (.new capacity pos) calls)).map Prod.fst
      = .ok (L.storage a index)
  /-- A call has the result that it has on the ledger, and none if it has none there. -/
  call : ∀ (capacity : Nat) (pos : 0 < capacity) (calls : List RemoteDb.Call) (specId : SpecId)
      (toAddr : Address) (calldata : Bytes) (fromAddr : Option Address) (value : Option U256)
      (result : CallResult),
    ((StateClient.call evm specId .trustServer toAddr calldata fromAddr value).play
        (Act.perform evm spec db) (RemoteDb.run evm spec db (.new capacity pos) calls)).1.2 = .ok result
      ↔ ∃ ran, L.call evm spec db.headOrZero ⟨toAddr, fromAddr.getD 0, calldata, value.getD 0⟩
            = some ran
          ∧ result = ⟨ran.result, ran.success, none⟩

section Clients

variable {evm : Evm} {spec : ChainSpec} {db : StateDb} {L : Ledger}

theorem view_shows (h : db.Shows L) : db.view = L.view := by
  funext q
  cases q with
  | basic a => exact h.accounts a
  | storage a s => exact h.storage a s
  | codeByHash hash => exact congrArg Except.ok (h.code hash)
  | step i => rfl

theorem outcome_eq_some {ε : Type} {r : Except ε (Except EvmError ResultAndState)}
    {ran : PrefetchResult} :
    outcome r = some ran
      ↔ ∃ res, r = .ok (.ok res) ∧ ran = ⟨res.result.output.getD [], res.result.isSuccess⟩ := by
  rcases r with e | (e | res)
  · simp [outcome]
  · simp [outcome]
  · simp [outcome, eq_comm]

/-- A call that the server is trusted with. -/
theorem play_call_trusted (specId : SpecId) (toAddr : Address) (calldata : Bytes)
    (fromAddr : Option Address) (value : Option U256) (c : RemoteCache) :
    ((StateClient.call evm specId .trustServer toAddr calldata fromAddr value).play
        (Act.perform evm spec db) c).1.2
      = (RemoteDb.prefetch evm spec db
          (RemoteDb.prefetchRequest toAddr calldata fromAddr value) c).2.map
            fun prefetched => ⟨prefetched.result, prefetched.success, none⟩ := by
  simp only [StateClient.call, Dialogue.play_bind, Steps.play_prefetch]
  cases (RemoteDb.prefetch evm spec db
    (RemoteDb.prefetchRequest toAddr calldata fromAddr value) c).2 <;> rfl

/-- **A prefetch returns** what its execution on the database comes to. -/
theorem prefetch_eq_ok_iff (hdb : db.WellFormed) {toAddr : Address} {calldata : Bytes}
    {fromAddr : Option Address} {value : Option U256} {c : RemoteCache} {ran : PrefetchResult} :
    (RemoteDb.prefetch evm spec db
        (RemoteDb.prefetchRequest toAddr calldata fromAddr value) c).2 = .ok ran
      ↔ outcome ((serverExecution evm spec db toAddr calldata fromAddr value).eval db.view)
          = some ran := by
  constructor
  · intro h
    cases hpost : postPrefetch evm db spec
        (RemoteDb.prefetchRequest toAddr calldata fromAddr value) with
    | error e =>
        rw [RemoteDb.prefetch_of_error hpost] at h
        cases h
    | ok resp =>
        obtain ⟨server, houtcome, _, _, hserver⟩ := prefetch_result hpost
        rw [hserver, Except.ok.injEq] at h
        rw [houtcome, h]
  · intro h
    obtain ⟨r, hr, _⟩ := outcome_eq_some.mp h
    obtain ⟨resp, hresp⟩ := (prefetch_of_eval hdb hr).1 r rfl
    have hpost : postPrefetch evm db spec
        (RemoteDb.prefetchRequest toAddr calldata fromAddr value) = .ok resp := by
      rw [postPrefetch, RemoteDb.parse_prefetchRequest]
      exact hresp
    obtain ⟨server, houtcome, _, _, hserver⟩ := prefetch_result hpost
    rw [hserver, ← Option.some.inj (houtcome.symm.trans h)]

/-- **What a database tells** is the ledger it stands for. -/
theorem StateDb.Shows.tells (hdb : db.WellFormed) (h : db.Shows L) : Tells evm spec db L where
  account capacity pos calls a := by
    -- whatever the client has cached since, it has from this database
    have ht := @RemoteDb.Tracks.run evm spec db _ _ (RemoteDb.tracks_new db capacity pos) calls
    refine (RemoteDb.read_served ht (q := .basic a) (by simp)).trans ?_
    rw [RemoteDb.served, view_shows h]
    rfl
  slot capacity pos calls a index := by
    have ht := @RemoteDb.Tracks.run evm spec db _ _ (RemoteDb.tracks_new db capacity pos) calls
    refine (RemoteDb.read_served ht (q := .storage a index) (by simp)).trans ?_
    rw [RemoteDb.served, view_shows h]
    rfl
  call capacity pos calls specId toAddr calldata fromAddr value result := by
    -- a call that trusts the server returns what the prefetch did
    rw [play_call_trusted, Ledger.call, ← view_shows h]
    constructor
    · intro hr
      cases hran : (RemoteDb.prefetch evm spec db
          (RemoteDb.prefetchRequest toAddr calldata fromAddr value)
          (RemoteDb.run evm spec db (.new capacity pos) calls)).2 with
      | error e =>
          rw [hran] at hr
          cases hr
      | ok ran =>
          rw [hran] at hr
          exact ⟨ran, (prefetch_eq_ok_iff hdb).mp hran, (Except.ok.inj hr).symm⟩
    · rintro ⟨ran, hran, rfl⟩
      rw [(prefetch_eq_ok_iff hdb).mpr hran]
      rfl

end Clients

/--
**A replayed chain is served.** Take a database that stands for a ledger, and a call whose
blocks have no diffs and neither destroy nor create accounts with storage. In every state
of the database during the call and after it, a process that stops anywhere included, every
client that is new since is told the ledger that the transactions of the first blocks lead
to: accounts and slots whatever it has asked already, and the results that calls have on
that ledger at its head.
-/
theorem pipelineStates_tell {evm : Evm} {keccak256 : Bytes → B256} {call : PipelineCall}
    {db : StateDb} {L : Ledger} (hwf : db.WellFormed) (hdb : db.Shows L) (hL : L.Tidy)
    {head : Option U64} (hhead : db.getHeadBlock = .ok head)
    (hplain : ∀ b ∈ pending head call.blocks, b.stateDiffs = [])
    (hfresh : FreshStorageAll evm keccak256 call 0 db (pending head call.blocks)) :
    ∀ d ∈ pipelineStates evm keccak256 db call, ∃ done rest L',
      pending head call.blocks = done ++ rest ∧ d.getHeadBlock = headAfter db done
        ∧ Replays evm call.spec done L L' ∧ Tells evm call.spec d L' := by
  intro d hd
  obtain ⟨done, rest, hsplit, hdhead, hdone⟩ := plainState_pipelineStates hhead hplain hd
  have hdone_plain : ∀ b ∈ done, b.stateDiffs = [] := fun b hb =>
    hplain b (hsplit ▸ List.mem_append_left _ hb)
  obtain ⟨L', hreplays, hshows⟩ := replayAll_ledger hdb hL hdone_plain (hsplit ▸ hfresh) hdone
  exact ⟨done, rest, L', hsplit, hdhead, hreplays, hshows.tells (wellFormed_replayAll hwf hdone)⟩

/-- Clients see the counted transaction. -/
theorem pipelineStates_tell_countedPlain :
    let d := (runPipeline countingEvm (fun _ => KECCAK256_EMPTY) senderDb countedPlain).db
    d.getHeadBlock = .ok (some 10) ∧ ∃ done rest L',
      pending none countedPlain.blocks = done ++ rest
        ∧ d.getHeadBlock = headAfter senderDb done
        ∧ Replays countingEvm countedPlain.spec done senderDb.ledger L'
        ∧ Tells countingEvm countedPlain.spec d L' :=
  ⟨by decide, pipelineStates_tell wellFormed_senderDb wellFormed_senderDb.shows tidy_senderDb
    (by decide) withoutDiffs_countedPlain freshStorageAll_counting _
    (db_mem_pipelineStates _ _)⟩

/-! ## A node of the same chain -/

/-- A node has this state: each account's record, and all of the storage. -/
structure RemoteState.Holds (keccak256 : Bytes → B256) (remote : RemoteState) (L : Ledger) :
    Prop where
  account : ∀ a info, L.accounts a = some info →
    ∀ field, FieldAgrees keccak256 info (remote.account a) field
  storage : ∀ a s, remote.storage a s = L.storage a s

/-- The accounts that the validator takes for others: those with the hash of empty code. -/
def emptyHashed (accounts : List (Address × AccountInfo)) : Nat :=
  accounts.countP fun e => e.2.codeHash == KECCAK256_EMPTY

section Validated

variable {keccak256 : Bytes → B256} {remote : RemoteState}

/-- Of a field on which both agree, the comparison fails for the hash of empty code alone. -/
theorem fieldMatch_of_agrees (hk : NoEmptyHash keccak256) {info : AccountInfo}
    {acct : RemoteAccount} (h : ∀ field, FieldAgrees keccak256 info acct field) :
    fieldMatch keccak256 info acct .nonce = true ∧ fieldMatch keccak256 info acct .balance = true
      ∧ fieldMatch keccak256 info acct .codeHash = !(info.codeHash == KECCAK256_EMPTY) := by
  refine ⟨beq_iff_eq.mpr (h .nonce), beq_iff_eq.mpr (h .balance), ?_⟩
  have hexact : fieldMatch keccak256 info acct .codeHash = true
      ↔ (info.codeHash = KECCAK256_EMPTY → acct.code ≠ []) :=
    ⟨fun hm => (codeHash_exact_iff hk).mp (iff_of_true hm (h .codeHash)),
      fun hne => ((codeHash_exact_iff hk).mpr hne).mpr (h .codeHash)⟩
  rw [Bool.eq_iff_iff, hexact, Bool.not_eq_true', beq_eq_false_iff_ne]
  refine ⟨fun hcond hempty => ?_, fun hne hempty => absurd hempty hne⟩
  -- an account that agrees and has the hash of empty code has none on the node either
  have hcode : codeOfHash info.codeHash = codeOfBytes keccak256 acct.code := h .codeHash
  rw [codeOfHash, if_pos (.inr hempty), codeOfBytes, if_neg (hcond hempty)] at hcode
  cases hcode

/-- The checks that fail of accounts on which both agree. -/
theorem countP_accountChecks (hk : NoEmptyHash keccak256) {accounts : List (Address × AccountInfo)}
    {checks : List AccountCheck}
    (hagree : ∀ e ∈ accounts, ∀ field, FieldAgrees keccak256 e.2 (remote.account e.1) field)
    (h : List.Forall₂ (fun e c => c.address = e.1.1 ∧ c.field = e.2
      ∧ c.isMatch = fieldMatch keccak256 e.1.2 (remote.account e.1.1) e.2)
      (checkedFields accounts) checks) :
    checks.countP (fun c => !c.isMatch) = emptyHashed accounts
      ∧ checks.length = 3 * accounts.length := by
  induction accounts generalizing checks with
  | nil =>
      cases h
      exact ⟨rfl, rfl⟩
  | cons e accounts ih =>
      obtain ⟨hhere, hlater⟩ := List.forall_mem_cons.mp hagree
      -- three checks are made of each account
      cases h with
      | cons hn h =>
      cases h with
      | cons hb h =>
      cases h with
      | cons hc h =>
      obtain ⟨hnonce, hbalance, hcode⟩ := fieldMatch_of_agrees hk hhere
      obtain ⟨hcount, hlength⟩ := ih hlater h
      rw [emptyHashed] at hcount
      constructor
      · simp only [List.countP_cons, hn.2.2, hb.2.2, hc.2.2, hnonce, hbalance, hcode, hcount,
          emptyHashed, Bool.not_true, Bool.not_not, Bool.false_eq_true, if_false, Nat.add_zero]
      · simp only [List.length_cons, hlength]
        omega

/-- What the command comes to where the node agrees with all that is sampled. -/
def validated (accounts : List (Address × AccountInfo)) (slots : Nat) :
    Except ValidateFailure Unit :=
  if emptyHashed accounts = 0 then .ok ()
  else .error (.mismatches (emptyHashed accounts) (3 * accounts.length + slots))

/-- **Validating against a node of the same state**: what it answers is found to be the same. -/
theorem runValidate_shows (hk : NoEmptyHash keccak256) {db : StateDb} {L : Ledger}
    (hwf : db.WellFormed) (hdb : db.Shows L) {head : U64} (hhead : db.getHeadBlock = .ok (some head))
    {connect : String → EthRpcClient} {url : String} (hjson : Json.Reads (connect url).fromStr)
    (hnode : (connect url).Node head remote) (hremote : remote.Holds keccak256 L) (sampler : Sampler)
    (cliUrl configUrl : Option String) (hurl : cliUrl.or configUrl = some url) (samples : Nat)
    (hanswers : ∀ e ∈ sampler.sample db.iterStorage samples,
      (connect url).Answers remote (.getStorageAt e.1 e.2.1 head)) :
    ∃ all, db.iterAccounts = .ok all
      ∧ runValidate keccak256 connect sampler cliUrl configUrl samples db
        = validated (sampler.sample all samples) (sampler.sample db.iterStorage samples).length := by
  obtain ⟨all, hall, hentries⟩ := hwf.iterAccounts_ok
  obtain ⟨report, hreport, haccounts, hstorage⟩ := validateEntries_of_answers keccak256 hjson
    (hnode.servesAccounts hjson) (sampler.sample all samples) hanswers
  -- what is sampled of the accounts is in the ledger, and the node has the ledger
  have hagree : ∀ e ∈ sampler.sample all samples,
      ∀ field, FieldAgrees keccak256 e.2 (remote.account e.1) field := by
    intro e he
    have hget : db.getAccount e.1 = .ok (some e.2) := by
      rw [StateDb.getAccount, (hentries e.1 e.2).mp (sampler.mem all samples e he)]
      simp
    have hledger : L.accounts e.1 = some e.2 := Except.ok.inj ((hdb.accounts e.1).symm.trans hget)
    exact hremote.account e.1 e.2 hledger
  have hslots : ∀ e ∈ sampler.sample db.iterStorage samples, e.2.2 = remote.storage e.1 e.2.1 := by
    intro e he
    have hkey := StateDb.mem_iterStorage.mp (sampler.mem db.iterStorage samples e he)
    have hget : db.storageRef e.1 e.2.1 = .ok e.2.2 := by
      refine StateDb.storageRef_eq_ok.mpr ⟨some e.2.2, ?_, rfl⟩
      rw [StateDb.getStorage, hkey]
      simp [ofBe_beOf]
    rw [hremote.storage, ← Except.ok.inj ((hdb.storage e.1 e.2.1).symm.trans hget)]
  obtain ⟨hmismatches, hlength⟩ := countP_accountChecks hk hagree haccounts
  -- so no slot differs
  have hnone : report.storageChecks.countP (fun c => !c.isMatch) = 0 := by
    rw [List.countP_eq_zero]
    intro c hc
    obtain ⟨e, he, _, _, hmatch⟩ := Lists.exists_mem_left hstorage hc
    simp [hmatch.mpr (hslots e he)]
  have hrun : validateRandom keccak256 (connect url).rpc sampler db samples head = .ok report := by
    rw [validateRandom, hall]
    exact hreport
  refine ⟨all, hall, ?_⟩
  simp only [runValidate, hurl, hhead, hrun, validated, ValidationReport.isValid,
    ValidationReport.mismatches, ValidationReport.totalChecks, hmismatches, hlength, hnone,
    Nat.add_zero, beq_iff_eq, hstorage.length_eq]

/-- A sampled slot that the node refuses fails the command. -/
theorem runValidate_refused {db : StateDb} (hwf : db.WellFormed) {head : U64}
    (hhead : db.getHeadBlock = .ok (some head)) {connect : String → EthRpcClient} {url : String}
    (hjson : Json.Reads (connect url).fromStr) (sampler : Sampler) (cliUrl configUrl : Option String)
    (hurl : cliUrl.or configUrl = some url) (samples : Nat) {e : Address × B256 × U256}
    (he : e ∈ sampler.sample db.iterStorage samples)
    (h : (connect url).Refuses (.getStorageAt e.1 e.2.1 head)) :
    ∃ err, runValidate keccak256 connect sampler cliUrl configUrl samples db
      = .error (.validation err) := by
  obtain ⟨all, hall, _⟩ := hwf.iterAccounts_ok
  obtain ⟨err, herr⟩ := validateEntries_of_refuses keccak256 hjson (sampler.sample all samples) he h
  have hrun : validateRandom keccak256 (connect url).rpc sampler db samples head = .error err := by
    rw [validateRandom, hall]
    exact herr
  exact ⟨err, by simp only [runValidate, hurl, hhead, hrun]⟩

end Validated

/--
**What validating a replayed chain comes to.** Take a database that stands for a ledger, and
a call whose blocks have no diffs and neither destroy nor create accounts with storage, and
in every state of the database during the call and after it a node of the chain at its
head. If the node answers what is posted for each sampled slot, the command reports the
sampled accounts with the hash of empty code, and nothing else; it passes exactly if there
are none. If it refuses one, the command fails, and a node that reads requests by the rules
of JSON-RPC refuses them all.
-/
theorem pipelineStates_validated {evm : Evm} {keccak256 : Bytes → B256} (hk : NoEmptyHash keccak256)
    {call : PipelineCall} {db : StateDb} {L : Ledger} (hwf : db.WellFormed) (hdb : db.Shows L)
    (hL : L.Tidy) {head : Option U64} (hhead : db.getHeadBlock = .ok head)
    (hplain : ∀ b ∈ pending head call.blocks, b.stateDiffs = [])
    (hfresh : FreshStorageAll evm keccak256 call 0 db (pending head call.blocks))
    (connect : String → EthRpcClient) (sampler : Sampler) (url : String)
    (hjson : Json.Reads (connect url).fromStr) (samples : Nat) :
    ∀ d ∈ pipelineStates evm keccak256 db call, ∃ done rest L' all,
      pending head call.blocks = done ++ rest ∧ d.getHeadBlock = headAfter db done
        ∧ Replays evm call.spec done L L' ∧ d.iterAccounts = .ok all
        ∧ ∀ (n : U64) (remote : RemoteState), d.getHeadBlock = .ok (some n) →
            (connect url).Node n remote → remote.Holds keccak256 L' →
            let slots := sampler.sample d.iterStorage samples
            ((∀ e ∈ slots, (connect url).Answers remote (.getStorageAt e.1 e.2.1 n)) →
              runValidate keccak256 connect sampler (some url) none samples d
                = validated (sampler.sample all samples) slots.length)
            ∧ ((∃ e ∈ slots, (connect url).Refuses (.getStorageAt e.1 e.2.1 n)) →
              ∃ err, runValidate keccak256 connect sampler (some url) none samples d
                = .error (.validation err))
            ∧ ((connect url).ByTheRules →
              ∀ e ∈ slots, (connect url).Refuses (.getStorageAt e.1 e.2.1 n)) := by
  intro d hd
  obtain ⟨done, rest, hsplit, hdhead, hdone⟩ := plainState_pipelineStates hhead hplain hd
  have hdone_plain : ∀ b ∈ done, b.stateDiffs = [] := fun b hb =>
    hplain b (hsplit ▸ List.mem_append_left _ hb)
  -- the state is that of a replay, which stands for a ledger
  obtain ⟨L', hreplays, hshows⟩ := replayAll_ledger hdb hL hdone_plain (hsplit ▸ hfresh) hdone
  have hwf' := wellFormed_replayAll hwf hdone
  obtain ⟨all, hall, _⟩ := hwf'.iterAccounts_ok
  refine ⟨done, rest, L', all, hsplit, hdhead, hreplays, hall, fun n remote hn hnode hremote => ?_⟩
  refine ⟨fun hanswers => ?_, fun ⟨e, he, hrefused⟩ => ?_, fun hrules e _ => hrules.refuses _ _ _⟩
  · obtain ⟨all', hall', hrun⟩ := runValidate_shows hk hwf' hshows hn hjson hnode hremote sampler
      (some url) none rfl samples hanswers
    rw [hrun, Except.ok.inj (hall.symm.trans hall')]
  · exact runValidate_refused hwf' hn hjson sampler (some url) none rfl samples he hrefused

/-- The sender with a slot. -/
def slottedDb : StateDb := senderDb.commit [.setStorage 0xA 1 7]

/-- A node that has executed the counted transaction. -/
def countedState : RemoteState where
  account := fun a => if a = 0xA then ⟨1, 100, []⟩ else ⟨0, 0, []⟩
  storage := fun a s => if a = 0xA ∧ s = 1 then 7 else 0

theorem eval_countedTx {L : Ledger} {info : AccountInfo} (hinfo : L.accounts 0xA = some info)
    (hnonce : info.nonce = 0) :
    (replayExecution countingEvm countedPlain.spec { countedBlock with stateDiffs := [] }
        countedTx).eval L.view
      = .ok (.ok (countingResult (replayTxEnv countedPlain.spec countedBlock countedTx) info)) := by
  have hview : L.view (.basic 0xA) = .ok (some info) := congrArg Except.ok hinfo
  have hnext : info.nonce = 0 ∧ (0 : U64) < 0 + 1 := ⟨hnonce, by decide⟩
  change Dialogue.eval L.view (.ask (.basic 0xA) _) = _
  rw [Dialogue.eval, hview]
  change Dialogue.eval L.view (if info.nonce = 0 ∧ (0 : U64) < 0 + 1 then _ else _) = _
  rw [if_pos hnext]
  rfl

/-- A change that neither destroys nor creates. -/
theorem Ledger.AccountStep.of_changed {hashSlow : Bytes → B256} {acc : Account}
    {o o' : Option AccountInfo} {slots slots' : U256 → U256}
    (h : AccountStep hashSlow (some acc) o slots o' slots')
    (htouched : acc.touched = true) (hlive : acc.selfdestructed = false)
    (hold : acc.created = false) :
    ∃ info, o' = some info ∧ CommittedInfo hashSlow acc info
      ∧ slots' = fun s => (acc.storage[s]?).getD (slots s) := by
  cases h with
  | untouched hun => rw [hun acc rfl] at htouched; cases htouched
  | destroyed _ hdestroyed => rw [hlive] at hdestroyed; cases hdestroyed
  | created _ _ hcreated _ => rw [hold] at hcreated; cases hcreated
  | changed _ _ _ hinfo => exact ⟨_, rfl, hinfo, rfl⟩

/-- An account without changes. -/
theorem Ledger.AccountStep.of_none {hashSlow : Bytes → B256} {o o' : Option AccountInfo}
    {slots slots' : U256 → U256} (h : AccountStep hashSlow none o slots o' slots') : o' = o ∧ slots' = slots := by
  cases h with
  | untouched _ => exact ⟨rfl, rfl⟩

theorem accounts_slottedDb (a : Address) :
    slottedDb.ledger.accounts a = if 0xA = a then some ⟨0, 100, KECCAK256_EMPTY⟩ else none := by
  have hslot : slottedDb.getAccount a = senderDb.getAccount a := StateDb.getAccount_commit_none rfl
  split
  · rename_i ha
    subst ha
    decide
  · rename_i ha
    have hbatch : WriteBatch.lastVal [.setAccount 0xA ⟨0, 100, KECCAK256_EMPTY⟩] (.account a) = none := by
      rw [WriteBatch.lastVal_singleton, if_neg]
      exact fun hkey => ha (Key.account.inj hkey)
    have hempty : senderDb.getAccount a = StateDb.empty.getAccount a :=
      StateDb.getAccount_commit_none hbatch
    have hbasic : slottedDb.basicRef a = .ok none := hslot.trans hempty
    simp [StateDb.ledger, hbasic, Except.toOption]

theorem storage_slottedDb (a : Address) (s : U256) :
    slottedDb.ledger.storage a s = if a = 0xA ∧ s = 1 then 7 else 0 := by
  split
  · rename_i hslot
    obtain ⟨rfl, rfl⟩ := hslot
    decide
  · rename_i hslot
    have hbatch : WriteBatch.lastVal [.setStorage 0xA 1 7] (.slot a s) = none := by
      rw [WriteBatch.lastVal_singleton, if_neg]
      intro hkey
      obtain ⟨ha, hs⟩ := Key.slot.inj hkey
      exact hslot ⟨ha.symm, hs.symm⟩
    have hnone : slottedDb.getStorage a s = senderDb.getStorage a s :=
      StateDb.getStorage_commit_none hbatch
    have hzero : slottedDb.storageRef a s = .ok 0 := by
      rw [StateDb.storageRef, hnone]
      exact storageRef_senderDb a s
    simp [StateDb.ledger, hzero, Except.toOption]

theorem wellFormed_slottedDb : slottedDb.WellFormed :=
  StateDb.wellFormed_commit wellFormed_senderDb _

theorem tidy_slottedDb : slottedDb.ledger.Tidy where
  absent a ha s := by
    rw [accounts_slottedDb] at ha
    rw [storage_slottedDb, if_neg]
    rintro ⟨rfl, _⟩
    cases ha
  zeroCode := by decide
  emptyCode := by decide

/-- A ledger after the counted transaction is that of the node. -/
theorem holds_countedState {L : Ledger}
    (h : Replays countingEvm countedPlain.spec [{ countedBlock with stateDiffs := [] }]
      slottedDb.ledger L) :
    countedState.Holds smallKeccak256 L := by
  cases h with
  | cons hblock hrest =>
  cases hrest
  cases hblock with
  | cons heval hstep hrest =>
  cases hrest
  have hinfo : slottedDb.ledger.accounts 0xA = some ⟨0, 100, KECCAK256_EMPTY⟩ := by
    rw [accounts_slottedDb, if_pos rfl]
  -- the block has one transaction, whose changes are known
  obtain rfl := Except.ok.inj (Except.ok.inj ((eval_countedTx hinfo rfl).symm.trans heval))
  have hentry : ∀ a : Address, (countingResult (replayTxEnv countedPlain.spec countedBlock countedTx)
      ⟨0, 100, KECCAK256_EMPTY⟩).state[a]?
      = if 0xA = a then some
          { info := ⟨1, 100, KECCAK256_EMPTY⟩, code := none, storage := ∅, touched := true,
            selfdestructed := false, created := false }
        else none := by
    intro a
    simp only [countingResult, Std.ExtTreeMap.getElem?_insert, Std.compare_eq_iff_eq,
      Std.ExtTreeMap.getElem?_empty]
    rfl
  constructor
  · intro a info ha field
    have hstep := hstep.accounts a
    rw [hentry, ha, accounts_slottedDb] at hstep
    -- only the sender is changed
    by_cases hsender : (0xA : Address) = a
    · rw [if_pos hsender] at hstep
      obtain ⟨info', hinfo', hcommitted, _⟩ := hstep.of_changed rfl rfl rfl
      obtain rfl := Option.some.inj hinfo'
      have hnode : countedState.account a = ⟨1, 100, []⟩ := if_pos hsender.symm
      rw [hnode]
      cases field with
      | nonce => exact hcommitted.nonce
      | balance => exact hcommitted.balance
      | codeHash =>
          have hempty : info.codeHash = KECCAK256_EMPTY := hcommitted.emptyCode rfl (.inr rfl)
          rw [FieldAgrees, codeOfHash, if_pos (.inr hempty)]
          rfl
    · rw [if_neg hsender, if_neg hsender] at hstep
      cases hstep.of_none.1
  · intro a s
    have hstep := hstep.accounts a
    rw [hentry] at hstep
    by_cases hsender : (0xA : Address) = a
    · rw [if_pos hsender] at hstep
      obtain ⟨_, _, _, hslots⟩ := hstep.of_changed rfl rfl rfl
      rw [hslots]
      simp [storage_slottedDb, countedState]
    · rw [if_neg hsender] at hstep
      rw [hstep.of_none.2, storage_slottedDb]
      rfl

/--
So does the counted transaction: a node that overlooks second markers finds the hash of its
sender different, and one that does not fails the command at the slot.
-/
theorem pipelineStates_validated_countedPlain :
    let d := (runPipeline countingEvm smallKeccak256 slottedDb countedPlain).db
    runValidate smallKeccak256 (fun _ => countedState.client readLenient) .first (some "node") none
        10 d = .error (.mismatches 1 4)
      ∧ ∃ err, runValidate smallKeccak256 (fun _ => countedState.client readRequest) .first
          (some "node") none 10 d = .error (.validation err) := by
  intro d
  have hhead : d.getHeadBlock = .ok (some 10) := by decide
  have haccounts : d.iterAccounts = .ok [(0xA, ⟨1, 100, KECCAK256_EMPTY⟩)] := by decide +kernel
  have hslots : Sampler.first.sample d.iterStorage 10 = [(0xA, 1, 7)] := by decide +kernel
  -- behind block 10 stands the ledger its one block leads to
  have hheld : ∀ {done rest : List Block} {L' : Ledger},
      pending none countedPlain.blocks = done ++ rest → d.getHeadBlock = headAfter slottedDb done →
      Replays countingEvm countedPlain.spec done slottedDb.ledger L' →
      countedState.Holds smallKeccak256 L' := by
    intro done rest L' hsplit hdone hreplays
    have hpending : pending none countedPlain.blocks = [{ countedBlock with stateDiffs := [] }] := rfl
    rw [hpending] at hsplit
    obtain ⟨b, done', rfl⟩ : ∃ b done', done = b :: done' := by
      cases done with
      | nil => exact absurd (hhead.symm.trans hdone) (by decide)
      | cons b done' => exact ⟨b, done', rfl⟩
    obtain ⟨rfl, hnil⟩ := List.cons.inj hsplit
    obtain ⟨rfl, _⟩ := List.append_eq_nil_iff.mp hnil.symm
    exact holds_countedState hreplays
  constructor
  · obtain ⟨done, rest, L', all, hsplit, hdone, hreplays, hall, hvalid⟩ :=
      pipelineStates_validated noEmptyHash_smallKeccak256 wellFormed_slottedDb
        wellFormed_slottedDb.shows tidy_slottedDb (by decide) withoutDiffs_countedPlain
        freshStorageAll_counting (fun _ => countedState.client readLenient) .first "node"
        Json.parse_render 10 _ (db_mem_pipelineStates _ _)
    obtain ⟨hanswered, _⟩ := hvalid 10 countedState hhead (countedState.lenient_node 10)
      (hheld hsplit hdone hreplays)
    have hrun := hanswered fun e _ => RemoteState.client_answers (readLenient_body _)
    rw [← Except.ok.inj (haccounts.symm.trans hall)] at hrun
    refine hrun.trans ?_
    show validated _ (Sampler.first.sample d.iterStorage 10).length = _
    rw [hslots]
    decide
  · obtain ⟨done, rest, L', all, hsplit, hdone, hreplays, hall, hvalid⟩ :=
      pipelineStates_validated noEmptyHash_smallKeccak256 wellFormed_slottedDb
        wellFormed_slottedDb.shows tidy_slottedDb (by decide) withoutDiffs_countedPlain
        freshStorageAll_counting (fun _ => countedState.client readRequest) .first "node"
        Json.parse_render 10 _ (db_mem_pipelineStates _ _)
    obtain ⟨_, hrefused, hrules⟩ := hvalid 10 countedState hhead (countedState.strict_node 10)
      (hheld hsplit hdone hreplays)
    have hslot : (0xA, 1, 7) ∈ Sampler.first.sample d.iterStorage 10 := by simp [hslots]
    exact hrefused ⟨_, hslot, hrules countedState.strict_byTheRules _ hslot⟩

end EvmState
