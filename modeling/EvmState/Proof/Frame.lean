import EvmState.Proof.Execute
import EvmState.Proof.Flush
import EvmState.Proof.Groups

/-!
# What a block leaves alone

A flush writes back whole records and every cached slot, and a diff pass writes whole
records from partial information. What the block did not touch still reads as before
(`replayBlock_frame`): a cached slot that no transaction changed holds what the database
has (`SlotKept`), and a field without a diff is taken over from the record before.
-/

namespace EvmState

open Std Lists

/-! ## What the transactions touch -/

/-- A state that was committed, with the overlay it was committed to. -/
structure CommitStep where
  before : Cache
  state : Changes

/-- The states the loop over the transactions commits. -/
def committedStates (evm : Evm) (db : StateDb) (spec : ChainSpec) (block : Block) :
    List Transaction → Cache → List CommitStep
  | [], _ => []
  | tx :: txs, c =>
      if isSystemTx tx && !block.stateDiffs.isEmpty then committedStates evm db spec block txs c
      else
        match evm.run db (replayExecution evm spec block tx) c with
        | .ok (r, c') => ⟨c', r.state⟩ :: committedStates evm db spec block txs (evm.commit c' r.state)
        | .error _ => []

namespace CommitStep

def Touches (step : CommitStep) (a : Address) : Prop :=
  ∃ acc, step.state[a]? = some acc ∧ acc.touched = true

def Destroys (step : CommitStep) (a : Address) : Prop :=
  ∃ acc, step.state[a]? = some acc ∧ acc.touched = true ∧ acc.selfdestructed = true

/-- A contract is created, or an account is there that was not. -/
def Creates (db : StateDb) (step : CommitStep) (a : Address) : Prop :=
  ∃ acc, step.state[a]? = some acc ∧ acc.touched = true
    ∧ (acc.created = true ∨ step.before.basic db a = .ok none)

/-- A slot has another value than before; slots that were read only keep theirs. -/
def Changes (db : StateDb) (step : CommitStep) (a : Address) (s : U256) : Prop :=
  ∃ acc v, step.state[a]? = some acc ∧ acc.touched = true ∧ acc.storage[s]? = some v
    ∧ step.before.storage db a s ≠ .ok v

end CommitStep

/-- What reads and the block's own commits preserve, the loop over its transactions does. -/
theorem executeTxs_inv {evm : Evm} {db : StateDb} {spec : ChainSpec} {block : Block}
    {I : Cache → Prop} (hload : ∀ c q, I c → I (evm.load db c q)) {txs : List Transaction} {idx : Nat}
    {c c' : Cache} {rs : List TxResult}
    (hcommit : ∀ step ∈ committedStates evm db spec block txs c,
      I step.before → I (evm.commit step.before step.state))
    (hc : I c) (h : executeTxs evm db spec block idx txs c = .ok (rs, c')) : I c' := by
  induction txs generalizing idx c rs with
  | nil =>
      rw [executeTxs] at h
      cases h
      exact hc
  | cons tx txs ih =>
      obtain ⟨r, c₁, rs', htx, htxs, rfl⟩ := executeTxs_cons h
      rw [committedStates] at hcommit
      rw [executeTx] at htx
      by_cases hskip : (isSystemTx tx && !block.stateDiffs.isEmpty) = true
      · rw [if_pos hskip] at hcommit htx
        cases htx
        exact ih hcommit hc htxs
      · rw [if_neg hskip] at hcommit htx
        cases hrun : evm.run db (replayExecution evm spec block tx) c with
        | error e =>
            rw [hrun] at htx
            cases htx
        | ok p =>
            obtain ⟨res, c₂⟩ := p
            rw [hrun] at htx hcommit
            cases htx
            -- reading what is missing keeps it, and then committing does
            have hread : I c₂ := Evm.run_inv hload hc hrun
            have hnew : I (evm.commit c₂ res.state) := hcommit _ List.mem_cons_self hread
            exact ih (fun step hs => hcommit step (List.mem_cons_of_mem _ hs)) hnew htxs

/-! ## The overlay -/

section Overlay

variable {hashSlow : Bytes → B256} {db : StateDb} {c c' : Cache} {st : Changes} {a : Address} {s : U256}

/-- A commit that does not touch an account changes no answer about it. -/
theorem basic_not_touched (h : Committed hashSlow st c c')
    (ha : ¬ (CommitStep.mk c st).Touches a) : c'.basic db a = c.basic db a := by
  have he := h.accounts a
  unfold Cache.basic
  generalize hst : st[a]? = chg at he
  generalize c.accounts[a]? = e, c'.accounts[a]? = e' at he
  cases he with
  | untouched _ => rfl
  | destroyed ht _ => exact absurd ⟨_, hst, ht⟩ ha
  | created ht _ _ _ => exact absurd ⟨_, hst, ht⟩ ha
  | changed ht _ _ _ _ _ _ => exact absurd ⟨_, hst, ht⟩ ha

/-- If a slot is cached, then with what the database has, and the account was not cleared. -/
def SlotKept (db : StateDb) (c : Cache) (a : Address) (s : U256) : Prop :=
  ∀ acct, c.accounts[a]? = some acct → acct.accountState ≠ .storageCleared
    ∧ ∀ v, acct.storage[s]? = some v → db.storageRef a s = .ok v

theorem slotKept_new (db : StateDb) (a : Address) (s : U256) : SlotKept db .new a s := by
  intro acct h
  simp [Cache.new] at h

theorem slotKept_loaded (h : SlotKept db c a s) (hl : Loaded db c c') : SlotKept db c' a s := by
  intro acct' ha
  have he := hl.accounts a
  rw [ha] at he
  generalize hc : c.accounts[a]? = e at he
  cases he with
  | same => exact h acct' hc
  | missing _ =>
      refine ⟨by simp [DbAccount.newNotExisting], fun v hv => ?_⟩
      simp [DbAccount.newNotExisting] at hv
  | account _ hslots => exact ⟨by simp, fun v hv => hslots s v hv⟩
  | @slots acct _ _ hslots =>
      obtain ⟨hstate, hvals⟩ := h acct hc
      refine ⟨hstate, fun v hv => ?_⟩
      rcases hslots s with hold | ⟨_, u, hu, hdb⟩
      · exact hvals v (hold ▸ hv)
      · have huv : u = v := Option.some.inj (hu.symm.trans hv)
        exact huv ▸ hdb

/-- The overlay answers for such a slot what the database has, unless there is no account. -/
theorem storage_of_slotKept (h : SlotKept db c a s) (hthere : c.basic db a ≠ .ok none) :
    c.storage db a s = db.storageRef a s := by
  cases ha : c.accounts[a]? with
  | none => rw [Cache.storage, ha]
  | some acct =>
      obtain ⟨hstate, hvals⟩ := h acct ha
      cases hs : acct.storage[s]? with
      | some v => rw [Cache.storage_cached ha hs, hvals v hs]
      | none =>
          rw [Cache.storage_uncached ha hs, if_neg]
          intro hcleared
          rw [Cache.basic_cached ha] at hthere
          cases hst : acct.accountState with
          | notExisting => exact hthere (if_pos hst)
          | storageCleared => exact hstate hst
          | touched => simp [hst, AccountState.cleared] at hcleared
          | none => simp [hst, AccountState.cleared] at hcleared

theorem slotKept_committed (h : SlotKept db c a s) (hl : Committed hashSlow st c c')
    (hcreate : ¬ (CommitStep.mk c st).Creates db a) (hdestroy : ¬ (CommitStep.mk c st).Destroys a)
    (hchange : ¬ (CommitStep.mk c st).Changes db a s) : SlotKept db c' a s := by
  intro acct' ha
  have he := hl.accounts a
  rw [ha] at he
  generalize hst : st[a]? = chg at he
  generalize hc : c.accounts[a]? = e at he
  cases he with
  | untouched _ => exact h acct' hc
  | destroyed ht hd => exact absurd ⟨_, hst, ht, hd⟩ hdestroy
  | created ht _ hcr _ => exact absurd ⟨_, hst, ht, .inl hcr⟩ hcreate
  | @changed acc _ info state slots ht _ _ _ _ hcleared hslots =>
      refine ⟨fun hstate => ?_, fun v hv => ?_⟩
      · obtain ⟨old, rfl, hold⟩ := hcleared.mp hstate
        exact (h old hc).1 hold
      · have hthere : c.basic db a ≠ .ok none := fun hnone => hcreate ⟨acc, hst, ht, .inr hnone⟩
        have hv : slots[s]? = some v := hv
        rw [hslots s] at hv
        cases hacc : acc.storage[s]? with
        | some u =>
            -- the transaction had the slot and left it as the overlay had it
            have hu : u = v := by
              rw [hacc] at hv
              exact Option.some.inj hv
            by_contra hdb
            rw [← storage_of_slotKept h hthere, ← hu] at hdb
            exact hchange ⟨acc, u, hst, ht, hacc, hdb⟩
        | none =>
            rw [hacc, Option.none_or] at hv
            obtain ⟨old, rfl, hold⟩ := Option.bind_eq_some_iff.mp hv
            exact (h old hc).2 v hold

/-- A flush leaves such a slot as it is. -/
theorem storageRef_flush_kept (h : SlotKept db c a s) (σ : HashOrder) (n : Option U64) :
    (flushCacheToDb σ db c n).storageRef a s = db.storageRef a s := by
  cases hval : flushVal c n (.slot a s) with
  | none => exact storageRef_flush_none hval
  | some u =>
      have hval' := hval
      simp only [flushVal] at hval'
      split at hval'
      · rename_i acct ha
        -- what the overlay has for the slot is what the database has
        obtain ⟨_, hvals⟩ := h acct ha
        split at hval'
        · obtain ⟨v, hv, rfl⟩ := Option.map_eq_some_iff.mp hval'
          rw [storageRef_flush_set hval, hvals v hv]
        · obtain ⟨v, hv, rfl⟩ := Option.map_eq_some_iff.mp hval'
          rw [storageRef_flush_set hval, hvals v hv]
        · cases hval'
        · cases hval'
      · cases hval'

end Overlay

/-! ## Commits -/

/-- What a commit does to an entry of a table, by the bytes of its key. -/
theorem commit_entry (db : StateDb) (b : WriteBatch) (t : TableName) (kb : Bytes) :
    ((db.commit b).cf t)[kb]? = (db.cf t)[kb]?
      ∨ ∃ w ∈ b, w.key.table = t ∧ w.key.bytes = kb ∧ ((db.commit b).cf t)[kb]? = w.val := by
  have hrun : ((db.commit b).cf t)[kb]?
      = (Tables.lastOp (b.map Write.op) t kb).getD (db.cf t)[kb]? :=
    Tables.run_getElem? db.cf (b.map Write.op) t kb
  rw [hrun]
  cases hlast : Tables.lastOp (b.map Write.op) t kb with
  | none => exact .inl rfl
  | some v =>
      obtain ⟨o, ho, htable, hkey, hval⟩ := Tables.mem_of_lastOp hlast
      obtain ⟨w, hw, rfl⟩ := List.mem_map.mp ho
      exact .inr ⟨w, hw, htable, hkey, hval.symm⟩

/-- The tables a block only adds to: no code goes, and of the metadata only the head changes. -/
structure TablesKept (db db' : StateDb) : Prop where
  code : ∀ kb : Bytes, (db.cf .code)[kb]? ≠ none → (db'.cf .code)[kb]? ≠ none
  metadata : ∀ kb : Bytes, kb ≠ META_KEY_HEAD_BLOCK → (db'.cf .metadata)[kb]? = (db.cf .metadata)[kb]?

theorem TablesKept.refl (db : StateDb) : TablesKept db db := ⟨fun _ h => h, fun _ _ => rfl⟩

theorem TablesKept.trans {db db' db'' : StateDb} (h : TablesKept db db')
    (h' : TablesKept db' db'') : TablesKept db db'' where
  code kb hkb := h'.code kb (h.code kb hkb)
  metadata kb hkb := (h'.metadata kb hkb).trans (h.metadata kb hkb)

theorem tablesKept_commit (db : StateDb) (b : WriteBatch) : TablesKept db (db.commit b) := by
  constructor
  · intro kb hkb
    -- an entry for code is the old one or what was written last, and code is never deleted
    rcases commit_entry db b .code kb with hsame | ⟨w, _, htable, _, hval⟩
    · rwa [hsame]
    · rw [hval]
      cases w with
      | setCode h raw => exact Option.some_ne_none _
      | setAccount a info => cases htable
      | setStorage a s v => cases htable
      | setHeadBlock n => cases htable
      | deleteAccount a => cases htable
      | deleteStorage a s => cases htable
  · intro kb hkb
    -- only the head is ever written there
    rcases commit_entry db b .metadata kb with hsame | ⟨w, _, htable, hkey, _⟩
    · exact hsame
    · cases w with
      | setHeadBlock n => exact absurd hkey.symm hkb
      | setAccount a info => cases htable
      | setStorage a s v => cases htable
      | setCode h raw => cases htable
      | deleteAccount a => cases htable
      | deleteStorage a s => cases htable

/-! ## The diffs -/

section Diffs

variable {keccak256 : Bytes → B256} {σ : HashOrder} {db db' : StateDb} {block : Block} {a : Address}

/-- An account without diffs keeps its record. -/
theorem basicRef_applyStateDiffs (h : applyStateDiffs keccak256 σ db block = .ok db')
    (ha : diffsOf block.stateDiffs a = []) : db'.basicRef a = db.basicRef a := by
  obtain ⟨b, hb, rfl⟩ := diffBatch_of_applyStateDiffs h
  exact StateDb.getAccount_commit_none (lastVal_diffBatch_none hb ha rfl)

/-- A slot that no diff is about keeps its value. -/
theorem storageRef_applyStateDiffs (h : applyStateDiffs keccak256 σ db block = .ok db') {s : B256}
    (hs : ∀ d ∈ diffsOf block.stateDiffs a, d.slot ≠ some s) :
    db'.storageRef a s = db.storageRef a s := by
  obtain ⟨b, hb, rfl⟩ := diffBatch_of_applyStateDiffs h
  refine storageRef_commit_none ?_
  rw [lastVal_diffBatch_slot hb, groupSlot]
  by_cases hdel : (diffsOf block.stateDiffs a).any isDeletion = true
  · rw [if_pos hdel]
  · rw [if_neg hdel]
    refine lastOf_eq_none fun d hd => ?_
    rw [StateDiff.slotVal, if_neg (hs d hd)]

/-- The fields of a record that no diff is about, zeros if there is no record. -/
structure FieldsKept (ds : List StateDiff) (o o' : Option AccountInfo) : Prop where
  nonce : (∀ d ∈ ds, d.key ≠ some "nonce") → (o'.getD .zero).nonce = (o.getD .zero).nonce
  balance : (∀ d ∈ ds, d.key ≠ some "balance") → (o'.getD .zero).balance = (o.getD .zero).balance
  codeHash : (∀ d ∈ ds, d.key ≠ some "code") → (o'.getD .zero).codeHash = (o.getD .zero).codeHash

theorem FieldsKept.refl (ds : List StateDiff) (o : Option AccountInfo) : FieldsKept ds o o :=
  ⟨fun _ => rfl, fun _ => rfl, fun _ => rfl⟩

/-- A group without a deletion keeps the fields it has no diff for. -/
theorem fieldsKept_applyStateDiffs (h : applyStateDiffs keccak256 σ db block = .ok db')
    (hdel : (diffsOf block.stateDiffs a).any isDeletion = false) {o : Option AccountInfo}
    (ho : db.basicRef a = .ok o) :
    ∃ o', db'.basicRef a = .ok o' ∧ FieldsKept (diffsOf block.stateDiffs a) o o' := by
  by_cases hne : diffsOf block.stateDiffs a = []
  · exact ⟨o, (basicRef_applyStateDiffs h hne).trans ho, .refl _ o⟩
  · obtain ⟨b, hb, rfl⟩ := diffBatch_of_applyStateDiffs h
    have hval := lastVal_diffBatch_account hb a
    rw [groupRecord, if_neg hne, if_neg (by simp [hdel]), record_of_getAccount ho] at hval
    refine ⟨_, StateDb.getAccount_commit_set hval, ?_, ?_, ?_⟩
    · intro hnonce
      -- no diff of the group sets the nonce
      have hnone : lastOf StateDiff.nonceWrite (diffsOf block.stateDiffs a) = none :=
        lastOf_eq_none fun d hd => if_neg (hnonce d hd)
      rw [Option.getD_some, nonce_foldl_setField, hnone]
      rfl
    · intro hbalance
      have hnone : lastOf StateDiff.balanceWrite (diffsOf block.stateDiffs a) = none :=
        lastOf_eq_none fun d hd => if_neg (hbalance d hd)
      rw [Option.getD_some, balance_foldl_setField, hnone]
      rfl
    · intro hcode
      have hnone : ∀ d ∈ diffsOf block.stateDiffs a, d.code.map keccak256 = none := by
        intro d hd
        rw [StateDiff.code, if_neg (hcode d hd), Option.map_none]
      rw [Option.getD_some, codeHash_foldl_setField, lastOf_eq_none hnone]
      rfl

end Diffs

/-! ## The block -/

section Block

variable (evm : Evm) (db : StateDb) (spec : ChainSpec) (block : Block)

/-- The states the block commits. -/
def blockStates : List CommitStep := committedStates evm db spec block block.transactions .new

/-- No transaction touched the account, and no diff names it. -/
def Untouched (a : Address) : Prop :=
  (∀ step ∈ blockStates evm db spec block, ¬ step.Touches a) ∧ diffsOf block.stateDiffs a = []

/-- No transaction created or destroyed the account or changed the slot, and no diff names it. -/
def Unchanged (a : Address) (s : B256) : Prop :=
  (∀ step ∈ blockStates evm db spec block,
      ¬ step.Creates db a ∧ ¬ step.Destroys a ∧ ¬ step.Changes db a s)
    ∧ ∀ d ∈ diffsOf block.stateDiffs a, d.slot ≠ some s

/-- What the block leaves alone, in a database it leaves behind. -/
structure BlockFrame (db' : StateDb) : Prop where
  accounts : ∀ a, Untouched evm db spec block a →
    db'.basicRef a = db.basicRef a ∧ ∀ s, db'.storageRef a s = db.storageRef a s
  slots : ∀ a s, Unchanged evm db spec block a s → db'.storageRef a s = db.storageRef a s
  tables : TablesKept db db'

variable {evm db spec block}

theorem Untouched.unchanged {a : Address} (h : Untouched evm db spec block a) (s : B256) :
    Unchanged evm db spec block a s := by
  obtain ⟨htouch, hdiffs⟩ := h
  refine ⟨fun step hstep => ⟨?_, ?_, ?_⟩, fun d hd => ?_⟩
  · rintro ⟨acc, hacc, ht, _⟩
    exact htouch step hstep ⟨acc, hacc, ht⟩
  · rintro ⟨acc, hacc, ht, _⟩
    exact htouch step hstep ⟨acc, hacc, ht⟩
  · rintro ⟨acc, _, hacc, ht, _⟩
    exact htouch step hstep ⟨acc, hacc, ht⟩
  · rw [hdiffs] at hd
    cases hd

theorem blockFrame_of {db' : StateDb}
    (hbasic : ∀ a, Untouched evm db spec block a → db'.basicRef a = db.basicRef a)
    (hslot : ∀ a s, Unchanged evm db spec block a s → db'.storageRef a s = db.storageRef a s)
    (htables : TablesKept db db') : BlockFrame evm db spec block db' :=
  ⟨fun a h => ⟨hbasic a h, fun s => hslot a s (h.unchanged s)⟩, hslot, htables⟩

section Executed

variable {rs : List TxResult} {c : Cache}
  (hx : executeTxs evm db spec block 0 block.transactions .new = .ok (rs, c))

include hx

theorem cacheInv_executeTxs : CacheInv db c :=
  executeTxs_inv (fun c q h => cacheInv_loaded h (evm.load_spec db c q))
    (fun step _ h => cacheInv_committed h (evm.commit_spec step.before step.state))
    (cacheInv_new db) hx

theorem basic_executeTxs {a : Address} (h : Untouched evm db spec block a) :
    c.basic db a = db.basicRef a := by
  refine executeTxs_inv (I := fun c => c.basic db a = db.basicRef a) ?_ ?_ ?_ hx
  · intro c q hc
    exact ((evm.load_spec db c q).basic a).trans hc
  · intro step hstep hc
    exact (basic_not_touched (evm.commit_spec _ _) (h.1 step hstep)).trans hc
  · exact Cache.basic_uncached (by simp [Cache.new])

theorem slotKept_executeTxs {a : Address} {s : B256} (h : Unchanged evm db spec block a s) :
    SlotKept db c a s := by
  refine executeTxs_inv (I := fun c => SlotKept db c a s) ?_ ?_ (slotKept_new db a s) hx
  · intro c q hc
    exact slotKept_loaded hc (evm.load_spec db c q)
  · intro step hstep hc
    obtain ⟨hcreate, hdestroy, hchange⟩ := h.1 step hstep
    exact slotKept_committed hc (evm.commit_spec _ _) hcreate hdestroy hchange

/-- The commit of the transactions keeps the frame. -/
theorem blockFrame_flush (σ : HashOrder) (n : Option U64) :
    BlockFrame evm db spec block (flushCacheToDb σ db c n) := by
  refine blockFrame_of ?_ ?_ (tablesKept_commit db _)
  · intro a h
    rw [basicRef_flush (cacheInv_executeTxs hx), basic_executeTxs hx h]
  · intro a s h
    exact storageRef_flush_kept (slotKept_executeTxs hx h) σ n

end Executed

/-- So does the commit of the diffs. -/
theorem BlockFrame.applyStateDiffs {keccak256 : Bytes → B256} {σ : HashOrder} {db₁ db₂ : StateDb}
    (h : BlockFrame evm db spec block db₁)
    (happly : applyStateDiffs keccak256 σ db₁ block = .ok db₂) :
    BlockFrame evm db spec block db₂ := by
  obtain ⟨b, _, rfl⟩ := diffBatch_of_applyStateDiffs happly
  refine blockFrame_of ?_ ?_ (h.tables.trans (tablesKept_commit db₁ b))
  · intro a ha
    exact (basicRef_applyStateDiffs happly ha.2).trans (h.accounts a ha).1
  · intro a s hs
    exact (storageRef_applyStateDiffs happly hs.2).trans (h.slots a s hs)

/-- A process that stops leaves what was there, if nothing was committed, or one of the commits. -/
theorem Replay.dbAfter_cases (r : Replay) (k : Nat) (db : StateDb) :
    r.dbAfter k db = db ∧ (k = 0 ∨ r.commits = []) ∨ r.dbAfter k db ∈ r.commits := by
  unfold Replay.dbAfter
  cases hlast : (r.commits.take k).getLast? with
  | none =>
      rw [List.getLast?_eq_none_iff, List.take_eq_nil_iff] at hlast
      exact .inl ⟨rfl, hlast⟩
  | some d => exact .inr (List.mem_of_mem_take (List.mem_of_getLast? hlast))

/-- What the transactions left of an account that is not deleted, as a database has it. -/
def DiffedFields (evm : Evm) (db : StateDb) (spec : ChainSpec) (block : Block) (db' : StateDb) :
    Prop :=
  ∀ rs c, executeTxs evm db spec block 0 block.transactions .new = .ok (rs, c) →
    ∀ a o, (diffsOf block.stateDiffs a).any isDeletion = false → c.basic db a = .ok o →
      ∃ o', db'.basicRef a = .ok o' ∧ FieldsKept (diffsOf block.stateDiffs a) o o'

theorem diffedFields_flush {rs : List TxResult} {c : Cache}
    (hx : executeTxs evm db spec block 0 block.transactions .new = .ok (rs, c)) (σ : HashOrder)
    (n : Option U64) : DiffedFields evm db spec block (flushCacheToDb σ db c n) := by
  intro rs' c' hx' a o _ ho
  rw [hx] at hx'
  cases hx'
  exact ⟨o, (basicRef_flush (cacheInv_executeTxs hx) σ n a).trans ho, .refl _ o⟩

theorem diffedFields_applyStateDiffs {keccak256 : Bytes → B256} {σ : HashOrder} {db₂ : StateDb}
    {rs : List TxResult} {c : Cache} {n : Option U64}
    (hx : executeTxs evm db spec block 0 block.transactions .new = .ok (rs, c))
    (happly : applyStateDiffs keccak256 σ (flushCacheToDb σ db c n) block = .ok db₂) :
    DiffedFields evm db spec block db₂ := by
  intro rs' c' hx' a o hdel ho
  rw [hx] at hx'
  cases hx'
  have hflush : (flushCacheToDb σ db c n).basicRef a = .ok o :=
    (basicRef_flush (cacheInv_executeTxs hx) σ n a).trans ho
  exact fieldsKept_applyStateDiffs happly hdel hflush

theorem replayBlock_commits {keccak256 : Bytes → B256} {σ : HashOrder} {db' : StateDb}
    (h : db' ∈ (replayBlock evm keccak256 σ db block spec).commits) :
    BlockFrame evm db spec block db' ∧ DiffedFields evm db spec block db' := by
  have hcases := replayBlock_cases evm keccak256 σ db block spec
  generalize replayBlock evm keccak256 σ db block spec = r at h hcases
  -- each commit is a flush, with the diffs behind it or without
  cases hcases with
  | failed _ => cases h
  | plain hx _ =>
      obtain rfl := List.mem_singleton.mp h
      exact ⟨blockFrame_flush hx σ _, diffedFields_flush hx σ _⟩
  | hybrid hx _ happly =>
      rcases List.mem_cons.mp h with rfl | h
      · exact ⟨blockFrame_flush hx σ none, diffedFields_flush hx σ none⟩
      · obtain rfl := List.mem_singleton.mp h
        exact ⟨(blockFrame_flush hx σ none).applyStateDiffs happly,
          diffedFields_applyStateDiffs hx happly⟩
  | half hx _ _ =>
      obtain rfl := List.mem_singleton.mp h
      exact ⟨blockFrame_flush hx σ none, diffedFields_flush hx σ none⟩

end Block

/--
**A block changes nothing it did not touch.** In either mode, and wherever the process
stops: untouched accounts and unchanged slots read as before, no code entry is removed,
and of the metadata only the head is written. Once something was committed, a field that
no diff is about holds what the transactions left there.
-/
theorem replayBlock_frame (evm : Evm) (keccak256 : Bytes → B256) (σ : HashOrder) (db : StateDb)
    (block : Block) (spec : ChainSpec) (k : Nat) :
    BlockFrame evm db spec block ((replayBlock evm keccak256 σ db block spec).dbAfter k db)
      ∧ (0 < k → DiffedFields evm db spec block
          ((replayBlock evm keccak256 σ db block spec).dbAfter k db)) := by
  rcases Replay.dbAfter_cases (replayBlock evm keccak256 σ db block spec) k db with
    ⟨hdb, hnone⟩ | hmem
  · rw [hdb]
    refine ⟨blockFrame_of (fun _ _ => rfl) (fun _ _ _ => rfl) (.refl db), fun hk rs c hx => ?_⟩
    -- transactions that went through were committed
    rcases hnone with rfl | hnil
    · exact absurd hk (by omega)
    · have hcases := replayBlock_cases evm keccak256 σ db block spec
      generalize replayBlock evm keccak256 σ db block spec = r at hnil hcases
      cases hcases with
      | failed herr =>
          rw [herr] at hx
          cases hx
      | plain _ _ => cases hnil
      | hybrid _ _ _ => cases hnil
      | half _ _ _ => cases hnil
  · obtain ⟨hframe, hfields⟩ := replayBlock_commits hmem
    exact ⟨hframe, fun _ => hfields⟩

end EvmState
