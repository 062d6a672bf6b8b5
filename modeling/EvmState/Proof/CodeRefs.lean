import Mathlib.Data.Set.Function
import Mathlib.Logic.Relation
import EvmState.Cli.Genesis
import EvmState.Proof.BaseState
import EvmState.Proof.Diffs
import EvmState.Proof.Execute
import EvmState.Proof.Flush
import EvmState.Proof.SmallEvm

/-!
# Code references

Accounts point into the code table by hash. Four writers keep the two in step:
genesis import, the flush of an overlay, state diffs, and the rewrites of an
account record that keep its hash or replace it. `CodeSound` is what they keep: a
hash in use is filed, and what is filed has the hash it is filed under. Since
nothing deletes from the code table, an entry once there can only be overwritten by
code of the same hash (`reaches_codeSound`).

The overlay of a block has the same invariant in two layers, `CacheCodeSound`, with
code that is only cached so far.
-/

namespace EvmState

open Std

/-- The codes a database holds. -/
def StateDb.codes (db : StateDb) : Set Bytes := { raw | ∃ h, db.getCode h = some raw }

variable {evm : Evm} {keccak256 : Bytes → B256}

theorem codeSound_empty : StateDb.empty.CodeSound keccak256 := by
  constructor
  · intro a info h
    simp [StateDb.getAccount, StateDb.getCf, StateDb.empty] at h
  · intro h raw hraw
    simp [StateDb.getCode, StateDb.getCf, StateDb.empty] at hraw

/-! ## A batch that keeps the references -/

/-- What a batch must do: file code under its hash, and point accounts at what is filed. -/
structure WriteBatch.KeepsCode (keccak256 : Bytes → B256) (db : StateDb) (b : WriteBatch) : Prop where
  code : ∀ h v, b.lastVal (.code h) = some v → ∃ raw, v = some raw ∧ keccak256 raw = h
  account : ∀ (a : Address) (info : AccountInfo), b.lastVal (.account a) = some (some info.toBytes) →
    info.codeHash = 0 ∨ info.codeHash = KECCAK256_EMPTY
      ∨ (db.getCode info.codeHash).isSome ∨ (b.lastVal (.code info.codeHash)).isSome

/-- No entry of the code table is removed. -/
def KeepsEntries (db db' : StateDb) : Prop :=
  ∀ h, (db.getCode h).isSome → (db'.getCode h).isSome

theorem WriteBatch.KeepsCode.isSome_getCode {db : StateDb} {b : WriteBatch}
    (hb : b.KeepsCode keccak256 db) {h : B256}
    (hh : (db.getCode h).isSome ∨ (b.lastVal (.code h)).isSome) :
    ((db.commit b).getCode h).isSome := by
  rw [StateDb.getCode_commit]
  cases hl : b.lastVal (.code h) with
  | none => simpa [hl] using hh
  | some v =>
      obtain ⟨raw, rfl, _⟩ := hb.code h v hl
      rfl

/-- **Such a batch keeps the references**, and every entry. -/
theorem StateDb.CodeSound.commit {db : StateDb} {b : WriteBatch} (h : db.CodeSound keccak256)
    (hb : b.KeepsCode keccak256 db) :
    (db.commit b).CodeSound keccak256 ∧ KeepsEntries db (db.commit b) := by
  refine ⟨⟨fun a info hacc => ?_, fun hash raw hraw => ?_⟩,
    fun hash hh => hb.isSome_getCode (.inl hh)⟩
  · cases hl : b.lastVal (.account a) with
    | none =>
        rw [StateDb.getAccount_commit_none hl] at hacc
        rcases h.hashes a info hacc with h0 | h0 | h0
        · exact .inl h0
        · exact .inr (.inl h0)
        · exact .inr (.inr (hb.isSome_getCode (.inl h0)))
    | some v =>
        cases v with
        | none =>
            rw [StateDb.getAccount_commit_deleted hl] at hacc
            cases hacc
        | some bytes =>
            -- a record that was written is one that was encoded
            obtain ⟨w, _, hk, hv⟩ := WriteBatch.mem_of_lastVal hl
            obtain ⟨i, rfl⟩ : ∃ i : AccountInfo, bytes = i.toBytes := by
              cases w <;> cases hk <;> simp only [Write.val, Option.some.injEq, reduceCtorEq] at hv
              exact ⟨_, hv.symm⟩
            rw [StateDb.getAccount_commit_set hl] at hacc
            obtain rfl := Option.some.inj (Except.ok.inj hacc)
            rcases hb.account a i hl with h0 | h0 | h0
            · exact .inl h0
            · exact .inr (.inl h0)
            · exact .inr (.inr (hb.isSome_getCode h0))
  · rw [StateDb.getCode_commit] at hraw
    cases hl : b.lastVal (.code hash) with
    | none =>
        rw [hl] at hraw
        exact h.filed hash raw hraw
    | some v =>
        obtain ⟨raw', rfl, hhash⟩ := hb.code hash v hl
        rw [hl] at hraw
        exact Option.some.inj hraw ▸ hhash

/-! ## Genesis -/

theorem keepsCode_genesis (hempty : keccak256 [] = KECCAK256_EMPTY) (σ : HashOrder) (db : StateDb)
    (genesis : GenesisFile) : (genesisWrites keccak256 σ genesis).KeepsCode keccak256 db := by
  constructor
  · intro h v hv
    obtain ⟨w, hw, hk, rfl⟩ := WriteBatch.mem_of_lastVal hv
    rcases mem_genesisWrites.mp hw with ⟨a, account, _, hw⟩ | rfl
    · rcases mem_genesisBatch hw with ⟨code, _, _, rfl⟩ | rfl | ⟨_, _, _, _, _, rfl⟩
      · cases hk
        exact ⟨code, rfl, rfl⟩
      · cases hk
      · cases hk
    · cases hk
  · intro a info hv
    obtain ⟨w, hw, hk, hval⟩ := WriteBatch.mem_of_lastVal hv
    rcases mem_genesisWrites.mp hw with ⟨a', account, hacc, hw⟩ | rfl
    · rcases mem_genesisBatch hw with ⟨code, _, _, rfl⟩ | rfl | ⟨_, _, _, _, _, rfl⟩
      · cases hk
      · cases hk
        obtain rfl := AccountInfo.toBytes_inj (Option.some.inj hval)
        cases hcode : account.code with
        | none => exact .inl (by simp [GenesisAccount.info, hcode])
        | some code =>
            by_cases hne : code = []
            · exact .inr (.inl (by simp [GenesisAccount.info, hcode, hne, hempty]))
            · -- the entry files its own code next to its record
              refine .inr (.inr (.inr ?_))
              have hmem : Write.setCode (keccak256 code) code ∈ genesisWrites keccak256 σ genesis :=
                mem_genesisWrites.mpr (.inl ⟨a, account, hacc, List.mem_append_left _ (by
                  simp [GenesisAccount.codeBatch, hcode, hne])⟩)
              rw [Option.isSome_iff_ne_none, Ne, WriteBatch.lastVal_eq_none_iff]
              intro hnone
              exact hnone _ hmem (by simp [GenesisAccount.info, hcode, Write.key])
      · cases hk
    · cases hk

/-! ## The overlay of a block -/

/-- The same in two layers: code is filed in the database, or in the overlay so far. -/
structure CacheCodeSound (keccak256 : Bytes → B256) (db : StateDb) (c : Cache) : Prop where
  filed : ∀ (h : B256) (raw : Bytes), c.contracts[h]? = some raw → raw = [] ∨ keccak256 raw = h
  hashes : ∀ a info, c.basic db a = .ok (some info) →
    info.codeHash = 0 ∨ info.codeHash = KECCAK256_EMPTY ∨ (db.getCode info.codeHash).isSome
      ∨ ∃ raw, c.contracts[info.codeHash]? = some raw ∧ raw ≠ []

section Overlay

variable {db : StateDb} {c c' : Cache}

theorem cacheCodeSound_new (h : db.CodeSound keccak256) : CacheCodeSound keccak256 db .new := by
  constructor
  · intro hash raw hraw
    simp only [Cache.new, ExtTreeMap.getElem?_insert, Std.compare_eq_iff_eq] at hraw
    split at hraw
    · exact .inl (Option.some.inj hraw).symm
    · split at hraw
      · exact .inl (Option.some.inj hraw).symm
      · simp at hraw
  · intro a info hb
    rw [Cache.basic_uncached (by simp [Cache.new])] at hb
    rcases h.hashes a info hb with h0 | h0 | h0
    · exact .inl h0
    · exact .inr (.inl h0)
    · exact .inr (.inr (.inl h0))

/-- Code that is filed stays filed, where only free hashes are filed anew. -/
theorem contracts_kept (hkept : ∀ h : B256, c'.contracts[h]? = c.contracts[h]?
    ∨ c.contracts[h]? = none) {h : B256} {raw : Bytes} (hraw : c.contracts[h]? = some raw) :
    c'.contracts[h]? = some raw := by
  rcases hkept h with hk | hk
  · rw [hk, hraw]
  · rw [hraw] at hk
    cases hk

theorem CacheCodeSound.loaded (hdb : db.CodeSound keccak256) (h : CacheCodeSound keccak256 db c)
    (hl : Loaded db c c') : CacheCodeSound keccak256 db c' := by
  constructor
  · intro hash raw hraw
    rcases hl.contracts hash with hk | ⟨_, hk⟩
    · exact h.filed hash raw (hk ▸ hraw)
    · -- loaded from the database, where it is filed under its hash or missing
      rw [hk] at hraw
      obtain rfl := Option.some.inj hraw
      cases hcode : db.getCode hash with
      | none => exact .inl (by rw [StateDb.codeByHashRef, hcode]; rfl)
      | some raw =>
          right
          rw [StateDb.codeByHashRef, hcode]
          exact hdb.filed hash raw hcode
  · intro a info hb
    rw [hl.basic] at hb
    rcases h.hashes a info hb with h0 | h0 | h0 | ⟨raw, hraw, hne⟩
    · exact .inl h0
    · exact .inr (.inl h0)
    · exact .inr (.inr (.inl h0))
    · exact .inr (.inr (.inr
        ⟨raw, contracts_kept (fun hash => (hl.contracts hash).imp_right And.left) hraw, hne⟩))

/-- An account that a transaction left alone is answered as before; one that is gone is not. -/
theorem basic_of_uncommitted {st : Changes} {a : Address} {acc : Account} {info : AccountInfo}
    (hst : st[a]? = some acc) (hkept : ¬ (acc.touched = true ∧ acc.selfdestructed = false))
    (hb : (evm.commit c st).basic db a = .ok (some info)) : c.basic db a = .ok (some info) := by
  have hentry := (evm.commit_spec c st).accounts a
  rw [hst] at hentry
  rw [← hb]
  unfold Cache.basic at hb ⊢
  generalize c.accounts[a]? = old, (evm.commit c st).accounts[a]? = new at hentry hb
  cases hentry with
  | untouched _ => rfl
  | destroyed _ _ => simp [DbAccount.newNotExisting] at hb
  | created h1 h2 _ _ => exact absurd ⟨h1, h2⟩ hkept
  | changed h1 h2 _ _ _ _ _ => exact absurd ⟨h1, h2⟩ hkept

/-- An account that a transaction touched is in the overlay. -/
theorem isSome_of_committed {st : Changes} {a : Address} {acc : Account} (hst : st[a]? = some acc)
    (htouched : acc.touched = true) : ((evm.commit c st).accounts[a]?).isSome = true := by
  have hentry := (evm.commit_spec c st).accounts a
  rw [hst] at hentry
  generalize c.accounts[a]? = old, (evm.commit c st).accounts[a]? = new at hentry
  cases hentry with
  | untouched hu => exact absurd (hu acc rfl) (by simp [htouched])
  | destroyed _ _ => rfl
  | created _ _ _ _ => rfl
  | changed _ _ _ _ _ _ _ => rfl

/-- **A transaction keeps it.** -/
theorem CacheCodeSound.transaction (hcode : evm.CodeRules keccak256) (hdb : db.CodeSound keccak256)
    (hr : evm.Executed db c) (h : CacheCodeSound keccak256 db c) {e : Execution}
    {r : ResultAndState} (he : evm.Starts e) (hrun : evm.run db e c = .ok (r, c')) :
    CacheCodeSound keccak256 db (evm.commit c' r.state) := by
  have h' : CacheCodeSound keccak256 db c' :=
    Evm.run_inv (fun s q hs => hs.loaded hdb (evm.load_spec db s q)) h hrun
  have hc := evm.commit_spec c' r.state
  have hkeep : ∀ {hash : B256}, (∃ raw, c'.contracts[hash]? = some raw ∧ raw ≠ []) →
      ∃ raw, (evm.commit c' r.state).contracts[hash]? = some raw ∧ raw ≠ [] := by
    intro hash hx
    obtain ⟨raw, hraw, hne⟩ := hx
    exact ⟨raw, contracts_kept (fun hash => (hc.contracts hash).imp_right And.left) hraw, hne⟩
  -- what the overlay answered before the commit is filed after it
  have hold : ∀ a info, c'.basic db a = .ok (some info) →
      info.codeHash = 0 ∨ info.codeHash = KECCAK256_EMPTY ∨ (db.getCode info.codeHash).isSome
        ∨ ∃ raw, (evm.commit c' r.state).contracts[info.codeHash]? = some raw ∧ raw ≠ [] :=
    fun a info hb => (h'.hashes a info hb).imp_right (Or.imp_right (Or.imp_right hkeep))
  constructor
  · intro hash raw hraw
    rcases hc.contracts hash with hk | ⟨hfree, _⟩
    · exact h'.filed hash raw (hk ▸ hraw)
    · exact .inr (hcode.filed hdb hr he hrun hfree hraw)
  · intro a info hb
    cases hst : r.state[a]? with
    | none => exact hold a info (hc.basic_untouched hst ▸ hb)
    | some acc =>
        by_cases htouched : acc.touched = true ∧ acc.selfdestructed = false
        · obtain ⟨acct, hacct⟩ := Option.isSome_iff_exists.mp (isSome_of_committed hst htouched.1)
          rw [Cache.basic_cached hacct] at hb
          split at hb
          · cases hb
          · obtain rfl := Option.some.inj (Except.ok.inj hb)
            rcases hcode.committed hdb hr he hrun hst htouched.1 htouched.2 hacct with
              h0 | ⟨a', info', hread, heq⟩ | hfiled
            · exact .inr (.inl h0)
            · rw [← heq]
              exact hold a' info' ((Evm.basic_run hrun a').trans hread)
            · exact .inr (.inr (.inr hfiled))
        · exact hold a info (basic_of_uncommitted hst htouched hb)

end Overlay

section Block

variable {db : StateDb} {spec : ChainSpec} {block : Block}

theorem CacheCodeSound.executeTx (hcode : evm.CodeRules keccak256) (hdb : db.CodeSound keccak256)
    {idx : Nat} {tx : Transaction} {c c' : Cache} {r : TxResult} (hr : evm.Executed db c)
    (h : CacheCodeSound keccak256 db c) (hx : executeTx evm db spec block idx tx c = .ok (r, c')) :
    CacheCodeSound keccak256 db c' := by
  unfold EvmState.executeTx at hx
  split at hx
  · simp only [Except.ok.injEq, Prod.mk.injEq] at hx
    exact hx.2 ▸ h
  · split at hx
    · rename_i res c₁ hrun
      simp only [Except.ok.injEq, Prod.mk.injEq] at hx
      exact hx.2 ▸ h.transaction hcode hdb hr (starts_replayExecution tx) hrun
    · cases hx

theorem CacheCodeSound.executeTxs (hcode : evm.CodeRules keccak256) (hdb : db.CodeSound keccak256)
    {idx : Nat} {txs : List Transaction} {c c' : Cache} {rs : List TxResult}
    (hr : evm.Executed db c) (h : CacheCodeSound keccak256 db c)
    (hx : executeTxs evm db spec block idx txs c = .ok (rs, c')) : CacheCodeSound keccak256 db c' := by
  induction txs generalizing idx c rs with
  | nil =>
      simp only [EvmState.executeTxs, Except.ok.injEq, Prod.mk.injEq] at hx
      exact hx.2 ▸ h
  | cons tx txs ih =>
      obtain ⟨r, c₁, rs', h1, h2, _⟩ := executeTxs_cons hx
      exact ih (executed_executeTx hr h1) (h.executeTx hcode hdb hr h1) h2

/-- **A flush keeps the references.** -/
theorem keepsCode_flush {c : Cache} (h : CacheCodeSound keccak256 db c) (σ : HashOrder)
    (n : Option U64) : (flushBatch σ c n).KeepsCode keccak256 db := by
  constructor
  · intro hash v hv
    rw [lastVal_flushBatch] at hv
    simp only [flushVal] at hv
    split at hv
    · rename_i raw hraw
      split at hv
      · cases hv
      · rename_i hne
        refine ⟨raw, (Option.some.inj hv).symm, (h.filed hash raw hraw).resolve_left fun h0 => ?_⟩
        simp [h0] at hne
    · cases hv
  · intro a info hv
    rw [lastVal_flushBatch] at hv
    simp only [flushVal] at hv
    split at hv
    · rename_i acct hacct
      have hbasic : acct.accountState ≠ .notExisting → acct.info.toBytes = info.toBytes →
          c.basic db a = .ok (some info) := by
        intro hstate hbytes
        rw [Cache.basic_cached hacct, if_neg hstate, AccountInfo.toBytes_inj hbytes]
      have hb : c.basic db a = .ok (some info) := by
        cases hstate : acct.accountState <;>
          simp only [hstate, Option.some.injEq, reduceCtorEq] at hv
        · exact hbasic (by simp [hstate]) hv
        · exact hbasic (by simp [hstate]) hv
      rcases h.hashes a info hb with h0 | h0 | h0 | ⟨raw, hraw, hne⟩
      · exact .inl h0
      · exact .inr (.inl h0)
      · exact .inr (.inr (.inl h0))
      · -- only cached so far: the flush files it
        refine .inr (.inr (.inr ?_))
        rw [lastVal_flushBatch]
        simp [flushVal, hraw, hne]
    · cases hv

/-! ## State diffs -/

/-- The hash of a group's record is the one it started with, or that of code the group files. -/
theorem foldl_applyDiff_codeHash (a : Address) (ds : List StateDiff) (st : AccountInfo × WriteBatch) :
    (ds.foldl (applyDiff keccak256 a) st).1.codeHash = st.1.codeHash
      ∨ ∃ raw, Write.setCode (keccak256 raw) raw ∈ (ds.foldl (applyDiff keccak256 a) st).2
        ∧ (ds.foldl (applyDiff keccak256 a) st).1.codeHash = keccak256 raw := by
  induction ds generalizing st with
  | nil => exact .inl rfl
  | cons d ds ih =>
      have hstep : (applyDiff keccak256 a st d).1.codeHash = st.1.codeHash
          ∨ ∃ raw, Write.setCode (keccak256 raw) raw ∈ (applyDiff keccak256 a st d).2
            ∧ (applyDiff keccak256 a st d).1.codeHash = keccak256 raw := by
        -- only a "code" diff whose text decodes changes the hash
        unfold applyDiff
        split
        · split
          · exact .inl rfl
          · exact .inl rfl
          · split
            · rename_i bytecode _
              exact .inr ⟨bytecode, by simp, rfl⟩
            · exact .inl rfl
          · split
            · split <;> exact .inl rfl
            · exact .inl rfl
        · exact .inl rfl
      rw [List.foldl_cons]
      rcases ih (applyDiff keccak256 a st d) with hrest | hrest
      · rw [hrest]
        refine hstep.imp_right fun hx => ?_
        obtain ⟨raw, hmem, hhash⟩ := hx
        refine ⟨raw, ?_, hhash⟩
        rw [foldl_applyDiff_snd]
        exact List.mem_append_left _ hmem
      · exact .inr hrest

/-- The record a group writes. -/
theorem setAccount_of_addressBatch {a a' : Address} {ds : List StateDiff} {q : WriteBatch}
    {info : AccountInfo} (hq : addressBatch keccak256 db (a', ds) = .ok q) {w : Write} (hw : w ∈ q)
    (hk : w.key = .account a) (hv : w.val = some info.toBytes) :
    ∃ acct, db.getAccount a = .ok acct ∧ (info.codeHash = (acct.getD .zero).codeHash
      ∨ ∃ raw, Write.setCode (keccak256 raw) raw ∈ q ∧ info.codeHash = keccak256 raw) := by
  rcases mem_addressBatch hq hw with ⟨_, _, _, _, rfl⟩ | howner
  · cases hk
  obtain rfl : a = a' := by
    rw [hk] at howner
    exact Option.some.inj howner
  unfold addressBatch at hq
  split at hq
  · obtain rfl := Except.ok.inj hq
    obtain rfl := List.mem_singleton.mp hw
    cases hv
  · split at hq
    · rename_i acct hacct
      obtain rfl := Except.ok.inj hq
      refine ⟨acct, hacct, ?_⟩
      simp only at hw ⊢
      rcases List.mem_append.mp hw with hw | hw
      · -- the writes of single diffs are code and slots
        rw [foldl_applyDiff_snd, List.nil_append] at hw
        obtain ⟨d, _, hw⟩ := List.mem_flatMap.mp hw
        rcases mem_diffWrites hw with ⟨_, _, rfl⟩ | ⟨s, hs⟩
        · cases hk
        · rw [hs] at hk
          cases hk
      · obtain rfl := List.mem_singleton.mp hw
        obtain rfl := AccountInfo.toBytes_inj (Option.some.inj hv)
        refine (foldl_applyDiff_codeHash a ds _).imp_right fun hx => ?_
        obtain ⟨raw, hmem, hhash⟩ := hx
        exact ⟨raw, List.mem_append_left _ hmem, hhash⟩
    · cases hq

/-- **State diffs keep the references.** -/
theorem keepsCode_diffBatch (hdb : db.CodeSound keccak256) {σ : HashOrder} {b : WriteBatch}
    (h : diffBatch keccak256 σ db block = .ok b) : b.KeepsCode keccak256 db := by
  constructor
  · intro hash v hv
    obtain ⟨w, hw, hk, rfl⟩ := WriteBatch.mem_of_lastVal hv
    obtain ⟨_, d, _, raw, _, rfl⟩ := mem_diffBatch_code h hw hk
    exact ⟨raw, rfl, Key.code.inj hk⟩
  · intro a info hv
    obtain ⟨w, hw, hk, hval⟩ := WriteBatch.mem_of_lastVal hv
    obtain ⟨parts, rfl, _, hof⟩ := diffBatch_parts h
    rcases List.mem_append.mp hw with hw | hw
    · obtain ⟨q, hq, hw⟩ := List.mem_flatten.mp hw
      obtain ⟨a', _, hq'⟩ := hof q hq
      obtain ⟨acct, hacct, hkept | ⟨raw, hmem, hhash⟩⟩ := setAccount_of_addressBatch hq' hw hk hval
      · cases acct with
        | none => exact .inl hkept
        | some old =>
            rw [Option.getD_some] at hkept
            rw [hkept]
            exact (hdb.hashes a old hacct).imp_right (Or.imp_right .inl)
      · refine .inr (.inr (.inr ?_))
        rw [Option.isSome_iff_ne_none, Ne, WriteBatch.lastVal_eq_none_iff]
        intro hnone
        exact hnone _ (List.mem_append_left _ (List.mem_flatten.mpr ⟨q, hq, hmem⟩))
          (by rw [hhash]; rfl)
    · obtain rfl := List.mem_singleton.mp hw
      cases hk

/-! ## Runs -/

theorem codeSound_applyStateDiffs (h : db.CodeSound keccak256) {σ : HashOrder} {db' : StateDb}
    (hx : applyStateDiffs keccak256 σ db block = .ok db') :
    db'.CodeSound keccak256 ∧ KeepsEntries db db' := by
  obtain ⟨b, hb, rfl⟩ := diffBatch_of_applyStateDiffs hx
  exact h.commit (keepsCode_diffBatch h hb)

/-- **Every commit of a replay keeps the references.** -/
theorem codeSound_replayBlock (hcode : evm.CodeRules keccak256) (h : db.CodeSound keccak256)
    (σ : HashOrder) {d : StateDb} (hd : d ∈ (replayBlock evm keccak256 σ db block spec).commits) :
    d.CodeSound keccak256 ∧ KeepsEntries db d := by
  have hcases := replayBlock_cases evm keccak256 σ db block spec
  generalize replayBlock evm keccak256 σ db block spec = r at hd hcases
  have hflush : ∀ {rs c}, executeTxs evm db spec block 0 block.transactions .new = .ok (rs, c) →
      ∀ n, (flushCacheToDb σ db c n).CodeSound keccak256
        ∧ KeepsEntries db (flushCacheToDb σ db c n) := fun hx n =>
    h.commit (keepsCode_flush ((cacheCodeSound_new h).executeTxs hcode h .new hx) σ n)
  cases hcases with
  | failed _ => cases hd
  | plain hx _ =>
      obtain rfl := List.mem_singleton.mp hd
      exact hflush hx _
  | hybrid hx _ happly =>
      obtain ⟨hs₁, hk₁⟩ := hflush hx none
      obtain ⟨hs₂, hk₂⟩ := codeSound_applyStateDiffs hs₁ happly
      rcases List.mem_cons.mp hd with rfl | hd
      · exact ⟨hs₁, hk₁⟩
      · obtain rfl := List.mem_singleton.mp hd
        exact ⟨hs₂, fun hash hh => hk₂ hash (hk₁ hash hh)⟩
  | half hx _ _ =>
      obtain rfl := List.mem_singleton.mp hd
      exact hflush hx none

end Block

/-- What may be done to a database, a replay stopping behind any number of its commits. -/
inductive CodeStep (evm : Evm) (keccak256 : Bytes → B256) : StateDb → StateDb → Prop
  | genesis {db : StateDb} (σ : HashOrder) (genesis : GenesisFile) :
      CodeStep evm keccak256 db (runGenesis keccak256 σ db genesis)
  | replay {db : StateDb} (σ : HashOrder) (block : Block) (spec : ChainSpec) (k : Nat) :
      CodeStep evm keccak256 db ((replayBlock evm keccak256 σ db block spec).dbAfter k db)
  | diffs {db db' : StateDb} (σ : HashOrder) (block : Block) :
      applyStateDiffs keccak256 σ db block = .ok db' → CodeStep evm keccak256 db db'

/-- Any number of steps. -/
abbrev CodeReaches (evm : Evm) (keccak256 : Bytes → B256) : StateDb → StateDb → Prop :=
  Relation.ReflTransGen (CodeStep evm keccak256)

/-- State diffs are one commit. -/
theorem built_applyStateDiffs {db db' : StateDb} {σ : HashOrder} {block : Block} (hdb : db.Built)
    (h : applyStateDiffs keccak256 σ db block = .ok db') : db'.Built := by
  obtain ⟨b, _, rfl⟩ := diffBatch_of_applyStateDiffs h
  exact hdb.commit b

/-- So is a flush, and a replay is one or both of them. -/
theorem built_replayBlock {db d : StateDb} {σ : HashOrder} {block : Block} {spec : ChainSpec}
    (hdb : db.Built) (hd : d ∈ (replayBlock evm keccak256 σ db block spec).commits) : d.Built := by
  have hcases := replayBlock_cases evm keccak256 σ db block spec
  generalize replayBlock evm keccak256 σ db block spec = r at hd hcases
  have hflush : ∀ c n, (flushCacheToDb σ db c n).Built := fun c n => hdb.commit _
  cases hcases with
  | failed _ => cases hd
  | plain _ _ => exact List.mem_singleton.mp hd ▸ hflush _ _
  | hybrid _ _ happly =>
      rcases List.mem_cons.mp hd with rfl | hd
      · exact hflush _ _
      · exact List.mem_singleton.mp hd ▸ built_applyStateDiffs (hflush _ _) happly
  | half _ _ _ => exact List.mem_singleton.mp hd ▸ hflush _ _

/-- **What is reached from an empty database is built by its own operations.** -/
theorem codeReaches_built {db db' : StateDb} (hdb : db.Built)
    (hreach : CodeReaches evm keccak256 db db') : db'.Built := by
  induction hreach with
  | refl => exact hdb
  | tail _ hstep ih =>
      cases hstep with
      | genesis σ genesis => exact ih.commit _
      | replay σ block spec k =>
          unfold Replay.dbAfter
          cases hlast : ((replayBlock evm keccak256 σ _ block spec).commits.take k).getLast? with
          | none => exact ih
          | some d => exact built_replayBlock ih (List.mem_of_mem_take (List.mem_of_getLast? hlast))
      | diffs σ block happly => exact built_applyStateDiffs ih happly

theorem codeStep_codeSound (hcode : evm.CodeRules keccak256)
    (hempty : keccak256 [] = KECCAK256_EMPTY) {db db' : StateDb} (h : db.CodeSound keccak256)
    (hstep : CodeStep evm keccak256 db db') : db'.CodeSound keccak256 ∧ KeepsEntries db db' := by
  cases hstep with
  | genesis σ genesis => exact h.commit (keepsCode_genesis hempty σ db genesis)
  | replay σ block spec k =>
      unfold Replay.dbAfter
      cases hlast : ((replayBlock evm keccak256 σ db block spec).commits.take k).getLast? with
      | none => exact ⟨h, fun _ hh => hh⟩
      | some d =>
          exact codeSound_replayBlock hcode h σ
            (List.mem_of_mem_take (List.mem_of_getLast? hlast))
  | diffs σ block happly => exact codeSound_applyStateDiffs h happly

theorem codeReaches_codeSound (hcode : evm.CodeRules keccak256)
    (hempty : keccak256 [] = KECCAK256_EMPTY) {db db' : StateDb} (h : db.CodeSound keccak256)
    (hreach : CodeReaches evm keccak256 db db') : db'.CodeSound keccak256 ∧ KeepsEntries db db' := by
  induction hreach with
  | refl => exact ⟨h, fun _ hh => hh⟩
  | tail _ hstep ih =>
      obtain ⟨hs, hk⟩ := ih
      obtain ⟨hs', hk'⟩ := codeStep_codeSound hcode hempty hs hstep
      exact ⟨hs', fun hash hh => hk' hash (hk hash hh)⟩

/--
**Code is content-addressed and never dangling.** In every database reached from an
empty one, an account's hash is zero, that of empty code, or filed, and code is
filed under its own hash. And whatever happens next, each entry is still there with
the same bytes, unless two codes in the tables share a hash.
-/
theorem codeReaches_sound (hcode : evm.CodeRules keccak256)
    (hempty : keccak256 [] = KECCAK256_EMPTY) {db : StateDb}
    (hdb : CodeReaches evm keccak256 .empty db) :
    (∀ a info, db.getAccount a = .ok (some info) →
        info.codeHash = 0 ∨ info.codeHash = keccak256 [] ∨ (db.getCode info.codeHash).isSome)
      ∧ (∀ h raw, db.getCode h = some raw → keccak256 raw = h)
      ∧ ∀ db', CodeReaches evm keccak256 db db' → Set.InjOn keccak256 (db.codes ∪ db'.codes) →
          ∀ h raw, db.getCode h = some raw → db'.getCode h = some raw := by
  obtain ⟨hsound, _⟩ := codeReaches_codeSound hcode hempty codeSound_empty hdb
  refine ⟨fun a info hacc => hempty ▸ hsound.hashes a info hacc, hsound.filed, ?_⟩
  intro db' hreach hinj h raw hraw
  obtain ⟨hsound', hkept⟩ := codeReaches_codeSound hcode hempty hsound hreach
  obtain ⟨raw', hraw'⟩ := Option.isSome_iff_exists.mp (hkept h (by rw [hraw]; rfl))
  have heq : keccak256 raw = keccak256 raw' :=
    (hsound.filed h raw hraw).trans (hsound'.filed h raw' hraw').symm
  rw [hinj (.inl ⟨h, hraw⟩) (.inr ⟨h, hraw'⟩) heq, hraw']

/-- A genesis file with one contract, whose code is `abc`. -/
def codeGenesis : GenesisFile where
  alloc := (∅ : HashMap Address GenesisAccount).insert 0xC { code := some [0x61, 0x62, 0x63] }

/-- A block in which `0x..0A` deploys a contract. -/
def deployBlock : Block where
  header := { number := 1 }
  transactions :=
    [{ fromAddr := some 0xA, input := some oneInitCode, nonce := some 0, gas := some 100000 }]

/-- The database after it, on top of that file. -/
def deployedDb : StateDb :=
  let db := runGenesis smallKeccak256 .sorted .empty codeGenesis
  (replayBlock (.small smallKeccak256) smallKeccak256 .sorted db deployBlock
    ethereumMainnet).dbAfter 1 db

theorem codeReaches_sound_deployed :
    deployedDb.getAccount (SmallEvm.createAddress smallKeccak256 0xA 0)
        = .ok (some ⟨1, 0, smallKeccak256 oneCode⟩)
      ∧ (∀ a info, deployedDb.getAccount a = .ok (some info) →
          info.codeHash = 0 ∨ info.codeHash = smallKeccak256 []
            ∨ (deployedDb.getCode info.codeHash).isSome)
      ∧ (∀ h raw, deployedDb.getCode h = some raw → smallKeccak256 raw = h)
      ∧ ∀ db', CodeReaches (.small smallKeccak256) smallKeccak256 deployedDb db' →
          Set.InjOn smallKeccak256 (deployedDb.codes ∪ db'.codes) →
          ∀ h raw, deployedDb.getCode h = some raw → db'.getCode h = some raw :=
  ⟨by decide, codeReaches_sound (small_codeRules (by decide)) (by decide)
    (.tail (.single (.genesis .sorted codeGenesis)) (.replay .sorted deployBlock ethereumMainnet 1))⟩

end EvmState
