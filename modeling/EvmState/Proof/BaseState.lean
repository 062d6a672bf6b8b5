import EvmState.Cli.Genesis
import EvmState.Proof.ImportHead

/-!
# What loading a base state leaves of the state before

Genesis and snapshot files are written over whatever the database holds: their
entries are put, nothing is deleted, and the head is set. So the state is the
file's exactly when each account and slot that was there is one of the file's
(`baseState_iff`). Anything else stays, under a head that knows nothing of it.
-/

namespace EvmState

open Std

/-! ## Base states -/

/-- The accounts and slots of a file. -/
structure BaseState where
  account : Address → Option AccountInfo
  slot : Address → B256 → Option U256

/-- The database has these accounts, these slots and this head, and no others. -/
structure StateDb.IsAt (db : StateDb) (base : BaseState) (head : U64) : Prop where
  head : db.getHeadBlock = .ok (some head)
  accounts : ∀ a, db.getAccount a = .ok (base.account a)
  storage : ∀ a s, db.getStorage a s = .ok (base.slot a s)

/-- Each account and slot of the database is one of the file's. -/
def BaseState.Covers (base : BaseState) (db : StateDb) : Prop :=
  (∀ a, db.getCf (.account a) ≠ none → base.account a ≠ none)
    ∧ ∀ a s, db.getCf (.slot a s) ≠ none → base.slot a s ≠ none

/-- The database after the file's entries were put over it. -/
structure BaseState.PutOver (base : BaseState) (db db' : StateDb) : Prop where
  accounts : ∀ a, db'.getCf (.account a)
    = ((base.account a).map AccountInfo.toBytes).or (db.getCf (.account a))
  storage : ∀ a s, db'.getCf (.slot a s)
    = ((base.slot a s).map (beOf 32)).or (db.getCf (.slot a s))

theorem getAccount_ok_none_iff {db : StateDb} {a : Address} :
    db.getAccount a = .ok none ↔ db.getCf (.account a) = none := by
  rw [StateDb.getAccount]
  cases db.getCf (.account a) with
  | none => simp
  | some v => cases hv : AccountInfo.fromBytes v <;> simp [hv]

theorem getStorage_ok_none_iff {db : StateDb} {a : Address} {s : B256} :
    db.getStorage a s = .ok none ↔ db.getCf (.slot a s) = none := by
  rw [StateDb.getStorage]
  cases db.getCf (.slot a s) with
  | none => simp
  | some v => by_cases hv : v.length = 32 <;> simp [hv]

/-- **What is put over a database replaces it** exactly when it covers it. -/
theorem BaseState.PutOver.isAt_iff {base : BaseState} {db db' : StateDb} {head : U64}
    (h : base.PutOver db db') (hhead : db'.getHeadBlock = .ok (some head)) :
    db'.IsAt base head ↔ base.Covers db := by
  constructor
  · intro hat
    refine ⟨fun a hold hnone => hold ?_, fun a s hold hnone => hold ?_⟩
    · -- the file has no such account, so neither has the database now
      have hread := hat.accounts a
      rw [hnone, getAccount_ok_none_iff, h.accounts, hnone] at hread
      exact hread
    · have hread := hat.storage a s
      rw [hnone, getStorage_ok_none_iff, h.storage, hnone] at hread
      exact hread
  · intro hcov
    obtain ⟨hacc, hslot⟩ := hcov
    refine ⟨hhead, fun a => ?_, fun a s => ?_⟩
    · cases hbase : base.account a with
      | some info =>
          rw [StateDb.getAccount, h.accounts, hbase]
          simp
      | none =>
          rw [getAccount_ok_none_iff, h.accounts, hbase]
          -- what the file does not have is covered, so the database did not have it
          by_contra hold
          exact hacc a hold hbase
    · cases hbase : base.slot a s with
      | some v =>
          rw [StateDb.getStorage, h.storage, hbase]
          simp [ofBe_beOf]
      | none =>
          rw [getStorage_ok_none_iff, h.storage, hbase]
          by_contra hold
          exact hslot a s hold hbase

/-! ## Genesis -/

/-- The state a genesis file describes. -/
def GenesisFile.base (keccak256 : Bytes → B256) (genesis : GenesisFile) : BaseState where
  account a := (genesis.alloc[a]?).map (GenesisAccount.info keccak256)
  slot a s := (genesis.alloc[a]?).bind fun account => account.storage.bind fun m => m[s]?

section Genesis

variable {keccak256 : Bytes → B256} {σ : HashOrder} {genesis : GenesisFile}

theorem mem_genesisBatch {a : Address} {account : GenesisAccount} {w : Write}
    (h : w ∈ genesisBatch keccak256 σ (a, account)) :
    (∃ code, account.code = some code ∧ code ≠ [] ∧ w = .setCode (keccak256 code) code)
      ∨ w = .setAccount a (account.info keccak256)
      ∨ ∃ m s v, account.storage = some m ∧ m[s]? = some v ∧ w = .setStorage a s v := by
  rw [genesisBatch, List.mem_append, List.mem_cons] at h
  rcases h with h | h | h
  · left
    unfold GenesisAccount.codeBatch at h
    split at h
    · rename_i code hcode
      split at h
      · cases h
      · -- empty code is not filed
        rename_i hne
        exact ⟨code, hcode, by simpa using hne, List.mem_singleton.mp h⟩
    · cases h
  · exact .inr (.inl h)
  · right
    right
    cases hm : account.storage with
    | none => simp [hm] at h
    | some m =>
        simp only [hm, Option.map_some, Option.getD_some, List.mem_map, Prod.exists,
          HashOrder.mem_entries] at h
        obtain ⟨s, v, hv, rfl⟩ := h
        exact ⟨m, s, v, rfl, hv, rfl⟩

/-- The writes of a genesis import. -/
def genesisWrites (keccak256 : Bytes → B256) (σ : HashOrder) (genesis : GenesisFile) : WriteBatch :=
  (σ.entries genesis.alloc).flatMap (genesisBatch keccak256 σ) ++ [.setHeadBlock 0]

theorem mem_genesisWrites {w : Write} :
    w ∈ genesisWrites keccak256 σ genesis
      ↔ (∃ a account, genesis.alloc[a]? = some account ∧ w ∈ genesisBatch keccak256 σ (a, account))
        ∨ w = .setHeadBlock 0 := by
  simp only [genesisWrites, List.mem_append, List.mem_flatMap, Prod.exists, HashOrder.mem_entries,
    List.mem_singleton]

/-- Only the account's own entry names its record. -/
theorem genesis_account_write {a : Address} {w : Write} (hw : w ∈ genesisWrites keccak256 σ genesis)
    (hk : w.key = .account a) :
    ∃ info, (genesis.base keccak256).account a = some info ∧ w.val = some info.toBytes := by
  rcases mem_genesisWrites.mp hw with ⟨a', account, hacc, hw⟩ | rfl
  · rcases mem_genesisBatch hw with ⟨_, _, _, rfl⟩ | rfl | ⟨_, _, _, _, _, rfl⟩
    · cases hk
    · cases hk
      exact ⟨account.info keccak256, by simp [GenesisFile.base, hacc], rfl⟩
    · cases hk
  · cases hk

/-- The writes to a slot are those of its account's map. -/
theorem genesis_slot_write {a : Address} {s : B256} {w : Write}
    (hw : w ∈ genesisWrites keccak256 σ genesis) (hk : w.key = .slot a s) :
    ∃ v, (genesis.base keccak256).slot a s = some v ∧ w.val = some (beOf 32 v) := by
  rcases mem_genesisWrites.mp hw with ⟨a', account', hacc', hw⟩ | rfl
  · rcases mem_genesisBatch hw with ⟨_, _, _, rfl⟩ | rfl | ⟨m, s', v, hm, hv, rfl⟩
    · cases hk
    · cases hk
    · cases hk
      exact ⟨v, by simp [GenesisFile.base, hacc', hm, hv], rfl⟩
  · cases hk

/-- Code is written under its own hash. -/
theorem genesis_code_write {h : B256} {w : Write} (hw : w ∈ genesisWrites keccak256 σ genesis)
    (hk : w.key = .code h) :
    ∃ (a : Address) (account : GenesisAccount) (code : Bytes), genesis.alloc[a]? = some account
      ∧ account.code = some code ∧ w = .setCode (keccak256 code) code := by
  rcases mem_genesisWrites.mp hw with ⟨a, account, hacc, hw⟩ | rfl
  · rcases mem_genesisBatch hw with ⟨code, hcode, _, rfl⟩ | rfl | ⟨_, _, _, _, _, rfl⟩
    · exact ⟨a, account, code, hacc, hcode, rfl⟩
    · cases hk
    · cases hk
  · cases hk

/-- An account of the file is written once, with its record. -/
theorem lastVal_genesis_account (a : Address) :
    (genesisWrites keccak256 σ genesis).lastVal (.account a)
      = ((genesis.base keccak256).account a).map fun info => some info.toBytes := by
  cases hbase : (genesis.base keccak256).account a with
  | none =>
      refine WriteBatch.lastVal_eq_none_iff.mpr fun w hw hk => ?_
      obtain ⟨info, hinfo, _⟩ := genesis_account_write hw hk
      rw [hbase] at hinfo
      cases hinfo
  | some info =>
      -- the one write for the account sets the record the file has for it
      have hentry := hbase
      simp only [GenesisFile.base, Option.map_eq_some_iff] at hentry
      obtain ⟨account, hacc, rfl⟩ := hentry
      refine WriteBatch.lastVal_eq_of_agree (w := .setAccount a (account.info keccak256))
        (mem_genesisWrites.mpr (.inl ⟨a, account, hacc, ?_⟩)) rfl fun w hw hk => ?_
      · exact List.mem_append_right _ List.mem_cons_self
      · obtain ⟨info', hinfo', hval⟩ := genesis_account_write hw hk
        rw [hbase] at hinfo'
        rw [hval, Option.some.inj hinfo']

/-- So is a slot. -/
theorem lastVal_genesis_slot (a : Address) (s : B256) :
    (genesisWrites keccak256 σ genesis).lastVal (.slot a s)
      = ((genesis.base keccak256).slot a s).map fun v => some (beOf 32 v) := by
  cases hbase : (genesis.base keccak256).slot a s with
  | none =>
      refine WriteBatch.lastVal_eq_none_iff.mpr fun w hw hk => ?_
      obtain ⟨v, hv, _⟩ := genesis_slot_write hw hk
      rw [hbase] at hv
      cases hv
  | some v =>
      have hslot := hbase
      simp only [GenesisFile.base, Option.bind_eq_some_iff] at hslot
      obtain ⟨account, hacc, m, hm, hv⟩ := hslot
      refine WriteBatch.lastVal_eq_of_agree (w := .setStorage a s v)
        (mem_genesisWrites.mpr (.inl ⟨a, account, hacc, ?_⟩)) rfl fun w hw hk => ?_
      · refine List.mem_append_right _ (List.mem_cons_of_mem _ ?_)
        rw [hm, Option.map_some, Option.getD_some]
        exact List.mem_map.mpr ⟨(s, v), HashOrder.mem_entries.mpr hv, rfl⟩
      · obtain ⟨v', hv', hval⟩ := genesis_slot_write hw hk
        rw [hbase] at hv'
        rw [hval, Option.some.inj hv']

theorem putOver_runGenesis (db : StateDb) :
    (genesis.base keccak256).PutOver db (runGenesis keccak256 σ db genesis) where
  accounts a := by
    rw [runGenesis, ← genesisWrites, StateDb.getCf_commit, lastVal_genesis_account]
    cases (genesis.base keccak256).account a <;> rfl
  storage a s := by
    rw [runGenesis, ← genesisWrites, StateDb.getCf_commit, lastVal_genesis_slot]
    cases (genesis.base keccak256).slot a s <;> rfl

theorem getHeadBlock_runGenesis (db : StateDb) :
    (runGenesis keccak256 σ db genesis).getHeadBlock = .ok (some 0) := by
  refine StateDb.getHeadBlock_commit_set ?_
  rw [WriteBatch.lastVal_append, WriteBatch.lastVal_singleton]
  rfl

end Genesis

/-! ## Snapshots -/

/-- The record an entry has for an account. -/
def SnapshotEntry.account? (a : Address) : SnapshotEntry → Option AccountInfo
  | .account a' nonce balance codeHash => if a' = a then some ⟨nonce, balance, codeHash⟩ else none
  | _ => none

/-- The value an entry has for a slot. -/
def SnapshotEntry.slot? (a : Address) (s : B256) : SnapshotEntry → Option U256
  | .storage a' s' value => if a' = a ∧ s' = s then some value else none
  | _ => none

/-- The state a snapshot describes; of several entries for one key the last counts. -/
def snapshotBase (entries : List SnapshotEntry) : BaseState where
  account a := Lists.lastOf (SnapshotEntry.account? a) entries
  slot a s := Lists.lastOf (SnapshotEntry.slot? a s) entries

/-- The entries of a file, in order. -/
def fileEntries (fromStr : String → Option SnapshotEntry) (file : List (Option String)) :
    List SnapshotEntry := file.filterMap (lineEntry fromStr)

theorem lastVal_entries_account (entries : List SnapshotEntry) (a : Address) :
    WriteBatch.lastVal (entries.filterMap SnapshotEntry.write?) (.account a)
      = ((snapshotBase entries).account a).map fun info => some info.toBytes := by
  simp only [snapshotBase]
  induction entries using List.reverseRecOn with
  | nil => rfl
  | append_singleton entries e ih =>
      rw [List.filterMap_append, WriteBatch.lastVal_append, ih, Lists.lastOf_concat]
      -- only an entry for this account has a write with its key
      cases e with
      | account a' nonce balance codeHash =>
          by_cases ha : a' = a <;>
            simp [SnapshotEntry.write?, SnapshotEntry.account?, WriteBatch.lastVal_singleton,
              Write.key, Write.val, ha]
      | storage a' s value =>
          simp [SnapshotEntry.write?, SnapshotEntry.account?, WriteBatch.lastVal_singleton, Write.key]
      | code h b =>
          simp [SnapshotEntry.write?, SnapshotEntry.account?, WriteBatch.lastVal_singleton, Write.key]
      | metadata n => rfl

theorem lastVal_entries_slot (entries : List SnapshotEntry) (a : Address) (s : B256) :
    WriteBatch.lastVal (entries.filterMap SnapshotEntry.write?) (.slot a s)
      = ((snapshotBase entries).slot a s).map fun v => some (beOf 32 v) := by
  simp only [snapshotBase]
  induction entries using List.reverseRecOn with
  | nil => rfl
  | append_singleton entries e ih =>
      rw [List.filterMap_append, WriteBatch.lastVal_append, ih, Lists.lastOf_concat]
      cases e with
      | storage a' s' value =>
          by_cases has : a' = a ∧ s' = s <;>
            simp [SnapshotEntry.write?, SnapshotEntry.slot?, WriteBatch.lastVal_singleton,
              Write.key, Write.val, has]
      | account a' nonce balance codeHash =>
          simp [SnapshotEntry.write?, SnapshotEntry.slot?, WriteBatch.lastVal_singleton, Write.key]
      | code h b =>
          simp [SnapshotEntry.write?, SnapshotEntry.slot?, WriteBatch.lastVal_singleton, Write.key]
      | metadata n => rfl

section Snapshot

variable {fromStr : String → Option SnapshotEntry} {file : List (Option String)} {db : StateDb}
  {s : ImportDisk} {stats : ImportStats}

theorem putOver_importSnapshot (h : importSnapshot fromStr file ⟨db, none⟩ = (s, .ok stats)) :
    (snapshotBase (fileEntries fromStr file)).PutOver db s.db := by
  have hok : (importSnapshot fromStr file ⟨db, none⟩).2 = .ok stats := by rw [h]
  -- the import was not interrupted, so it leaves one batch over the database
  have hstate := importSnapshot_state .start (.inl rfl) hok
  have hbatch : fileBatch fromStr file
      = (fileEntries fromStr file).filterMap SnapshotEntry.write? := by
    rw [fileBatch, fileEntries, List.filterMap_filterMap]
  rw [h, hbatch] at hstate
  refine ⟨fun a => ?_, fun a slot => ?_⟩
  · have hcf := StateDb.cf_of_state hstate (t := .accounts) (by decide)
    have hget : s.db.getCf (.account a) = _ := congrArg (fun m => m[(Key.account a).bytes]?) hcf
    refine hget.trans ((StateDb.getCf_commit ..).trans ?_)
    rw [lastVal_entries_account]
    cases (snapshotBase (fileEntries fromStr file)).account a <;> rfl
  · have hcf := StateDb.cf_of_state hstate (t := .storage) (by decide)
    have hget : s.db.getCf (.slot a slot) = _ := congrArg (fun m => m[(Key.slot a slot).bytes]?) hcf
    refine hget.trans ((StateDb.getCf_commit ..).trans ?_)
    rw [lastVal_entries_slot]
    cases (snapshotBase (fileEntries fromStr file)).slot a slot <;> rfl

/-- A run that returns reports the last head it did not skip. -/
theorem Runs.headBlock_eq {skipLines mark : Nat} {effects : List ImportEffect}
    {result : Except ImportError ImportStats} (h : Runs fromStr file skipLines mark effects result)
    (hok : result = .ok stats) : stats.headBlock = lastHead fromStr file skipLines file.length := by
  induction h with
  | stopped => cases hok
  | batch _ _ ih => exact ih hok
  | finished hhead => exact Except.ok.inj hok ▸ hhead

theorem getHeadBlock_importSnapshot {head : U64}
    (h : importSnapshot fromStr file ⟨db, none⟩ = (s, .ok stats)) (hhead : stats.headBlock = some head) :
    s.db.getHeadBlock = .ok (some head) := by
  have hok : (importSnapshot fromStr file ⟨db, none⟩).2 = .ok stats := by rw [h]
  have hruns : Runs fromStr file (readProgress none) (readProgress none)
      (importRun fromStr file none).1 (importRun fromStr file none).2 := importRun_runs (.inl rfl)
  have hend := runs_head (s := ⟨db, none⟩) hruns hok
  rw [← hruns.headBlock_eq hok, hhead] at hend
  have hdb : s = (⟨db, none⟩ : ImportDisk).applyAll (importRun fromStr file none).1 :=
    (congrArg Prod.fst h).symm
  rw [hdb]
  exact getHeadBlock_of_getCf (o := some head) hend

end Snapshot

/--
**When a base state replaces what was there.** After a genesis import, and after an
uninterrupted snapshot import that returns with a head, the database is at the
file's state and head exactly when each account and slot it held before is one of
the file's.
-/
theorem baseState_iff (db : StateDb) :
    (∀ (keccak256 : Bytes → B256) (σ : HashOrder) (genesis : GenesisFile),
        (runGenesis keccak256 σ db genesis).IsAt (genesis.base keccak256) 0
          ↔ (genesis.base keccak256).Covers db)
      ∧ ∀ (fromStr : String → Option SnapshotEntry) (file : List (Option String)) (s : ImportDisk)
          (stats : ImportStats) (head : U64),
        importSnapshot fromStr file ⟨db, none⟩ = (s, .ok stats) → stats.headBlock = some head →
          (s.db.IsAt (snapshotBase (fileEntries fromStr file)) head
            ↔ (snapshotBase (fileEntries fromStr file)).Covers db) := by
  refine ⟨fun keccak256 σ genesis => ?_, fun fromStr file s stats head h hhead => ?_⟩
  · exact (putOver_runGenesis db).isAt_iff (getHeadBlock_runGenesis db)
  · exact (putOver_importSnapshot h).isAt_iff (getHeadBlock_importSnapshot h hhead)

/-- A database replayed to block 7, with one account. -/
def replayedDb : StateDb := StateDb.empty.commit [.setAccount 0xA ⟨3, 5, 0⟩, .setHeadBlock 7]

/-- A genesis file with another account. -/
def otherGenesis : GenesisFile where
  alloc := (∅ : HashMap Address GenesisAccount).insert 0xB { balance := some 1 }

/-- The account survives both imports, under the heads of files that do not have it. -/
theorem baseState_survives :
    let file := [some (SnapshotEntry.metadata 65).line]
    let fromStr := SnapshotEntry.fromStr FlatJson.parse
    let db := runGenesis (fun _ => KECCAK256_EMPTY) .sorted replayedDb otherGenesis
    let s := (importSnapshot fromStr file ⟨replayedDb, none⟩).1
    db.getHeadBlock = .ok (some 0) ∧ db.getAccount 0xA = .ok (some ⟨3, 5, 0⟩)
      ∧ ¬ db.IsAt (otherGenesis.base fun _ => KECCAK256_EMPTY) 0
      ∧ s.db.getAccount 0xA = .ok (some ⟨3, 5, 0⟩)
      ∧ ¬ s.db.IsAt (snapshotBase (fileEntries fromStr file)) 65 := by
  intro file fromStr db s
  have hread : ∀ e : SnapshotEntry, fromStr e.line = some e :=
    SnapshotEntry.fromStr_line FlatJson.parse_render
  have hdb : db.getAccount 0xA = .ok (some ⟨3, 5, 0⟩) := by decide
  have hs : s.db = replayedDb.commit [.setHeadBlock 65] := by
    simp [s, importSnapshot, importRun, importLines, file, hread, SnapshotEntry.isBlank_line,
      ImportState.read, ImportState.push, ImportStats.add, readProgress, BATCH_SIZE,
      ImportDisk.applyAll, ImportDisk.apply, importBatch, SnapshotEntry.write?]
  have hsdb : s.db.getAccount 0xA = .ok (some ⟨3, 5, 0⟩) := by
    rw [hs]
    decide
  refine ⟨by decide, hdb, fun h => ?_, hsdb, fun h => ?_⟩
  · have := h.accounts 0xA
    rw [hdb, show (otherGenesis.base fun _ => KECCAK256_EMPTY).account 0xA = none by decide] at this
    cases this
  · have hnone : (snapshotBase (fileEntries fromStr file)).account 0xA = none := by
      simp [snapshotBase, fileEntries, file, lineEntry, SnapshotEntry.isBlank_line, hread,
        Lists.lastOf, SnapshotEntry.account?]
    have := h.accounts 0xA
    rw [hsdb, hnone] at this
    cases this

/-- A file with a later record of the account. -/
def laterFile : List (Option String) :=
  [some (SnapshotEntry.account 0xA 4 6 0).line, some (SnapshotEntry.metadata 65).line]

theorem fileEntries_laterFile :
    fileEntries (SnapshotEntry.fromStr FlatJson.parse) laterFile = [.account 0xA 4 6 0, .metadata 65] := by
  have hread : ∀ e : SnapshotEntry, SnapshotEntry.fromStr FlatJson.parse e.line = some e :=
    SnapshotEntry.fromStr_line FlatJson.parse_render
  simp [fileEntries, laterFile, lineEntry, SnapshotEntry.isBlank_line, hread]

/-- The file replaces the account, where the genesis file leaves it. -/
theorem baseState_iff_replayed :
    let s := (importSnapshot (SnapshotEntry.fromStr FlatJson.parse) laterFile ⟨replayedDb, none⟩).1
    ((runGenesis (fun _ => KECCAK256_EMPTY) .sorted replayedDb otherGenesis).IsAt
          (otherGenesis.base fun _ => KECCAK256_EMPTY) 0
        ↔ (otherGenesis.base fun _ => KECCAK256_EMPTY).Covers replayedDb)
      ∧ s.db.IsAt (snapshotBase [.account 0xA 4 6 0, .metadata 65]) 65 := by
  intro s
  have hread : ∀ e : SnapshotEntry, SnapshotEntry.fromStr FlatJson.parse e.line = some e :=
    SnapshotEntry.fromStr_line FlatJson.parse_render
  have hok : (importSnapshot (SnapshotEntry.fromStr FlatJson.parse) laterFile ⟨replayedDb, none⟩).2
      = .ok ⟨1, 0, 0, some 65⟩ := by
    simp [importSnapshot, importRun, importLines, laterFile, hread, SnapshotEntry.isBlank_line,
      ImportState.read, ImportState.push, ImportStats.add, readProgress, BATCH_SIZE]
  obtain ⟨hgenesis, himport⟩ := baseState_iff replayedDb
  have hrun : importSnapshot (SnapshotEntry.fromStr FlatJson.parse) laterFile ⟨replayedDb, none⟩
      = (s, .ok ⟨1, 0, 0, some 65⟩) := by rw [← hok]
  have hiff := himport _ laterFile s ⟨1, 0, 0, some 65⟩ 65 hrun rfl
  rw [fileEntries_laterFile] at hiff
  -- the only account that was there is in the file
  have hslot : ∀ a slot, replayedDb.getCf (.slot a slot) = none := by
    intro a slot
    rw [replayedDb, StateDb.getCf_commit]
    rfl
  have haccount : ∀ a, (0xA : Address) ≠ a → replayedDb.getCf (.account a) = none := by
    intro a ha
    have ha' : ¬ 10#160 = a := ha
    have hlast : WriteBatch.lastVal [.setAccount 0xA ⟨3, 5, 0⟩, .setHeadBlock 7] (.account a) = none :=
      WriteBatch.lastVal_eq_none_iff.mpr (by simp [Write.key, ha'])
    rw [replayedDb, StateDb.getCf_commit, hlast]
    rfl
  refine ⟨hgenesis _ _ _, hiff.mpr ⟨fun a hold hnone => hold (haccount a ?_), fun a slot hold _ =>
    hold (hslot a slot)⟩⟩
  rintro rfl
  cases hnone

end EvmState
