import EvmState.Proof.Frame
import EvmState.Proof.HeadState
import EvmState.Proof.Hybrid

/-!
# The state that diffs lead to

What `apply_state_diffs` does to a database depends on it in few places: the fields and
slots a diff sets are what the diff says, whatever was there. So applying the diffs of a
block again changes nothing, and in hybrid mode it hardly matters what the transactions
computed: where their effects are confined to what the diffs of the block set, every
state of a run is the one the diffs lead to (`pipelineStates_follow`).
-/

namespace EvmState

open Std Lists

/-! ## One address -/

/-- What the code makes of the diffs of one address. -/
def AccountView.applyGroup (keccak256 : Bytes → B256) (ds : List StateDiff) (v : AccountView) :
    AccountView :=
  if ds = [] then v
  -- a deletion leaves the storage
  else if ds.any isDeletion then { v with account := .ok none }
  else
    { account := v.account.map fun o => some (ds.foldl (StateDiff.setField keccak256) (o.getD .zero))
      storage := fun s => ((lastOf (StateDiff.slotWrite s) ds).map Except.ok).getD (v.storage s) }

/-- The record that is read, zeros if there is none. -/
def AccountView.record (v : AccountView) : AccountInfo :=
  match v.account with
  | .ok (some info) => info
  | _ => .zero

/-- A view differs from another only in what the diffs set. -/
def Overrides (ds : List StateDiff) (v v' : AccountView) : Prop :=
  if ds = [] then v' = v
  else if ds.any isDeletion then v'.storage = v.storage
  else
    (lastOf StateDiff.nonceWrite ds = none → v'.record.nonce = v.record.nonce)
      ∧ (lastOf StateDiff.balanceWrite ds = none → v'.record.balance = v.record.balance)
      ∧ (lastOf StateDiff.code ds = none → v'.record.codeHash = v.record.codeHash)
      ∧ ∀ s, lastOf (StateDiff.slotWrite s) ds = none → v'.storage s = v.storage s

section View

variable {keccak256 : Bytes → B256} {ds : List StateDiff}

/-- A cell that is written anyway, or was the same before. -/
theorem getD_eq_iff {α : Type} {o : Option α} {x y : α} :
    o.getD x = o.getD y ↔ (o = none → x = y) := by
  cases o <;> simp

theorem AccountInfo.eq_iff {x y : AccountInfo} :
    x = y ↔ x.nonce = y.nonce ∧ x.balance = y.balance ∧ x.codeHash = y.codeHash := by
  cases x
  cases y
  simp

/-- Two records come out the same if they agree where the diffs set nothing. -/
theorem foldl_setField_eq_iff {info info' : AccountInfo} :
    ds.foldl (StateDiff.setField keccak256) info' = ds.foldl (StateDiff.setField keccak256) info
      ↔ (lastOf StateDiff.nonceWrite ds = none → info'.nonce = info.nonce)
        ∧ (lastOf StateDiff.balanceWrite ds = none → info'.balance = info.balance)
        ∧ (lastOf StateDiff.code ds = none → info'.codeHash = info.codeHash) := by
  rw [AccountInfo.eq_iff, nonce_foldl_setField, nonce_foldl_setField, balance_foldl_setField,
    balance_foldl_setField, codeHash_foldl_setField, codeHash_foldl_setField, getD_eq_iff,
    getD_eq_iff, getD_eq_iff, lastOf_map, Option.map_eq_none_iff]

/-- Fields that were set are set to the same again. -/
theorem foldl_setField_again (keccak256 : Bytes → B256) (ds : List StateDiff) (info : AccountInfo) :
    ds.foldl (StateDiff.setField keccak256) (ds.foldl (StateDiff.setField keccak256) info)
      = ds.foldl (StateDiff.setField keccak256) info := by
  rw [foldl_setField_eq_iff, nonce_foldl_setField, balance_foldl_setField, codeHash_foldl_setField,
    lastOf_map]
  refine ⟨fun h => ?_, fun h => ?_, fun h => ?_⟩ <;> rw [h] <;> rfl

theorem AccountView.record_of_account {v : AccountView} {o : Option AccountInfo}
    (h : v.account = .ok o) : v.record = o.getD .zero := by
  rw [AccountView.record, h]
  cases o <;> rfl

/-- **Diffs hide exactly what they set.** -/
theorem applyGroup_eq_iff {v v' : AccountView} {o o' : Option AccountInfo}
    (hv : v.account = .ok o) (hv' : v'.account = .ok o') :
    v'.applyGroup keccak256 ds = v.applyGroup keccak256 ds ↔ Overrides ds v v' := by
  unfold AccountView.applyGroup Overrides
  by_cases hnil : ds = []
  · rw [if_pos hnil, if_pos hnil, if_pos hnil]
  · rw [if_neg hnil, if_neg hnil, if_neg hnil]
    cases hdel : ds.any isDeletion with
    | true => simp [AccountView.ext_iff]
    | false =>
        simp only [Bool.false_eq_true, if_false, AccountView.ext_iff, hv, hv', Except.map,
          Except.ok.injEq, Option.some.injEq]
        rw [foldl_setField_eq_iff, AccountView.record_of_account hv,
          AccountView.record_of_account hv', funext_iff, and_assoc, and_assoc]
        refine and_congr_right fun _ => and_congr_right fun _ => and_congr_right fun _ => ?_
        -- a slot that the group writes is the same whatever was there
        refine forall_congr' fun s => ?_
        rw [getD_eq_iff, Option.map_eq_none_iff]

/-- What was set is still set. -/
theorem applyGroup_again (ds : List StateDiff) (v : AccountView) :
    (v.applyGroup keccak256 ds).applyGroup keccak256 ds = v.applyGroup keccak256 ds := by
  unfold AccountView.applyGroup
  by_cases hnil : ds = []
  · simp only [if_pos hnil]
  · simp only [if_neg hnil]
    -- an account that is deleted stays so, and fields that are set are set again
    cases hdel : ds.any isDeletion with
    | true => rfl
    | false =>
        simp only [Bool.false_eq_true, if_false]
        refine AccountView.ext ?_ (funext fun s => ?_)
        · cases v.account with
          | error e => rfl
          | ok o => simp only [Except.map, Option.getD_some, foldl_setField_again]
        · dsimp only
          cases lastOf (StateDiff.slotWrite s) ds <;> rfl

end View

/-! ## All addresses -/

/-- What the code makes of the diffs of a block. -/
def World.applyGroups (keccak256 : Bytes → B256) (w : World) (diffs : List StateDiff) : World :=
  fun a => (w a).applyGroup keccak256 (diffsOf diffs a)

section Groups

variable {keccak256 : Bytes → B256} {σ : HashOrder} {db db' : StateDb} {block : Block}

/-- **The world that `apply_state_diffs` leaves**, from the world before. -/
theorem world_applyStateDiffs (h : applyStateDiffs keccak256 σ db block = .ok db') :
    db'.world = db.world.applyGroups keccak256 block.stateDiffs := by
  obtain ⟨b, hb, rfl⟩ := diffBatch_of_applyStateDiffs h
  funext a
  unfold World.applyGroups AccountView.applyGroup
  by_cases ha : diffsOf block.stateDiffs a = []
  · rw [if_pos ha]
    exact AccountView.ext (StateDb.getAccount_commit_none (lastVal_diffBatch_none hb ha rfl))
      (funext fun s => storageRef_commit_none (lastVal_diffBatch_none hb ha rfl))
  · rw [if_neg ha]
    have haccount := lastVal_diffBatch_account hb a
    have hslot := fun s => lastVal_diffBatch_slot hb a s
    rw [groupRecord, if_neg ha] at haccount
    cases hdel : (diffsOf block.stateDiffs a).any isDeletion with
    | true =>
        rw [if_pos hdel] at haccount
        simp only [groupSlot, hdel, if_true] at hslot
        exact AccountView.ext (StateDb.getAccount_commit_deleted haccount)
          (funext fun s => storageRef_commit_none (hslot s))
    | false =>
        -- the group was applied, so the record could be read
        obtain ⟨p, hp⟩ := diffBatch_ok_iff.mp ⟨b, hb⟩ a ha
        obtain ⟨o, ho⟩ : ∃ o, db.getAccount a = .ok o := by
          simp only [addressBatch, hdel, Bool.false_eq_true, if_false] at hp
          split at hp
          · rename_i o ho
            exact ⟨o, ho⟩
          · cases hp
        rw [if_neg (by simp [hdel]), record_of_getAccount ho] at haccount
        refine AccountView.ext ?_ (funext fun s => ?_)
        · simp only [Bool.false_eq_true, if_false, StateDb.world, ho, Except.map]
          exact StateDb.getAccount_commit_set haccount
        · exact storageRef_group hdel hp s (lastVal_diffBatch hb ha hp rfl)

/-- What is filed as code does not depend on the database. -/
theorem lastVal_diffBatch_code_of_db (hnc : NoCollision keccak256 block) {σ' : HashOrder}
    {b b' : WriteBatch} (hb : diffBatch keccak256 σ db block = .ok b)
    (hb' : diffBatch keccak256 σ' db' block = .ok b') (hash : B256) :
    b'.lastVal (.code hash) = b.lastVal (.code hash) := by
  refine WriteBatch.lastVal_congr_of_mem (fun w hk => ?_) fun w hw w' hw' hk hk' => ?_
  · -- the only writes with such a key are those that set code
    cases w with
    | setCode h raw => rw [setCode_mem_diffBatch hb', setCode_mem_diffBatch hb]
    | setAccount a info => cases hk
    | setStorage a s v => cases hk
    | deleteAccount a => cases hk
    | deleteStorage a s => cases hk
    | setHeadBlock n => cases hk
  · obtain ⟨a, d, hd, raw, hraw, rfl⟩ := mem_diffBatch_code hb' hw hk
    obtain ⟨a', d', hd', raw', hraw', rfl⟩ := mem_diffBatch_code hb' hw' hk'
    have heq : keccak256 raw = keccak256 raw' := Key.code.inj (hk.trans hk'.symm)
    rw [hnc d (List.mem_of_mem_filter hd) d' (List.mem_of_mem_filter hd') raw raw' hraw hraw' heq]

/-- The diffs can be applied where every record they need decodes. -/
theorem applyStateDiffs_ok (σ : HashOrder)
    (h : ∀ a, diffsOf block.stateDiffs a ≠ [] → ∃ o, db.getAccount a = .ok o) :
    ∃ db', applyStateDiffs keccak256 σ db block = .ok db' := by
  obtain ⟨b, hb⟩ : ∃ b, diffBatch keccak256 σ db block = .ok b := by
    refine diffBatch_ok_iff.mpr fun a ha => ?_
    obtain ⟨o, ho⟩ := h a ha
    unfold addressBatch
    split
    · exact ⟨_, rfl⟩
    · rw [ho]
      exact ⟨_, rfl⟩
  exact ⟨db.commit b, by rw [applyStateDiffs, hb]⟩

/-- The records of a diffed account after its diffs were applied. -/
theorem getAccount_applyStateDiffs (h : applyStateDiffs keccak256 σ db block = .ok db') {a : Address}
    (ha : diffsOf block.stateDiffs a ≠ []) :
    db'.getAccount a = .ok (if (diffsOf block.stateDiffs a).any isDeletion then none
      else some ((diffsOf block.stateDiffs a).foldl (StateDiff.setField keccak256) (db.record a))) := by
  obtain ⟨b, hb, rfl⟩ := diffBatch_of_applyStateDiffs h
  have hval := lastVal_diffBatch_account hb a
  rw [groupRecord, if_neg ha] at hval
  split at hval
  · rename_i hdel
    rw [if_pos hdel, StateDb.getAccount_commit_deleted hval]
  · rename_i hdel
    rw [if_neg hdel, StateDb.getAccount_commit_set hval]

/--
**Applying the diffs of a block again changes nothing**, in any column family and
whatever the order of the hash map is then.
-/
theorem applyStateDiffs_again (hnc : NoCollision keccak256 block)
    (h : applyStateDiffs keccak256 σ db block = .ok db') (σ' : HashOrder) :
    applyStateDiffs keccak256 σ' db' block = .ok db' := by
  obtain ⟨b, hb, hcommit⟩ := diffBatch_of_applyStateDiffs h
  obtain ⟨db'', hagain⟩ : ∃ db'', applyStateDiffs keccak256 σ' db' block = .ok db'' :=
    applyStateDiffs_ok σ' fun a ha => ⟨_, getAccount_applyStateDiffs h ha⟩
  obtain ⟨b', hb', rfl⟩ := diffBatch_of_applyStateDiffs hagain
  -- both batches write the same under every key
  have hval : ∀ k, b'.lastVal k = b.lastVal k := by
    intro k
    cases k with
    | account a =>
        rw [lastVal_diffBatch_account hb', lastVal_diffBatch_account hb]
        unfold groupRecord
        split
        · rfl
        · rename_i ha
          split
          · rfl
          · rename_i hdel
            rw [record_of_getAccount (getAccount_applyStateDiffs h ha), if_neg hdel,
              Option.getD_some]
            rw [foldl_setField_again]
    | slot a s => rw [lastVal_diffBatch_slot hb', lastVal_diffBatch_slot hb]
    | code hash => exact lastVal_diffBatch_code_of_db hnc hb hb' hash
    | headBlock => rw [lastVal_diffBatch_head hb', lastVal_diffBatch_head hb]
  have hsame : db'.commit b' = db'.commit [] := by
    refine (StateDb.commit_eq_iff db').mpr fun k => ?_
    rw [hval, WriteBatch.lastVal_nil, Option.getD_none, ← hcommit, StateDb.getCf_commit]
    cases b.lastVal k <;> rfl
  rw [hagain, hsame, StateDb.commit_nil]

end Groups

/-- A contract is given code and a slot, twice. -/
def writtenBlock : Block where
  header := { number := 5 }
  stateDiffs :=
    [{ address := some 0xC, key := some "code", kind := some "+", next := some "0x6001" },
     { address := some 0xC, key := some (B256.toHex 7), kind := some "+", next := some "0x9" }]

theorem applyStateDiffs_again_written : ∃ db,
    applyStateDiffs (fun _ => 1) .sorted .empty writtenBlock = .ok db
      ∧ applyStateDiffs (fun _ => 1) .sorted db writtenBlock = .ok db := by
  have hnc : NoCollision (fun _ => 1) writtenBlock := by
    intro d hd d' hd' raw raw' hraw hraw' _
    have hcode : ∀ e ∈ writtenBlock.stateDiffs, ∀ r, e.code = some r → r = [0x60, 0x01] := by
      decide
    exact (hcode d hd raw hraw).trans (hcode d' hd' raw' hraw').symm
  obtain ⟨db, happly⟩ : ∃ db, applyStateDiffs (fun _ => 1) .sorted .empty writtenBlock = .ok db :=
    applyStateDiffs_ok .sorted fun a _ => StateDb.wellFormed_empty.getAccount_ok a
  exact ⟨db, happly, applyStateDiffs_again hnc happly .sorted⟩

/-! ## Blocks -/

section Replay

variable {evm : Evm} {keccak256 : Bytes → B256} {σ : HashOrder} {db : StateDb} {block : Block}
  {spec : ChainSpec}

/-- The transactions of a block change nothing but what its diffs set. -/
def Confined (evm : Evm) (spec : ChainSpec) (σ : HashOrder) (db : StateDb) (block : Block) : Prop :=
  ∀ rs c, executeTxs evm db spec block 0 block.transactions .new = .ok (rs, c) →
    ∀ a, Overrides (diffsOf block.stateDiffs a) (db.world a) ((flushCacheToDb σ db c none).world a)

/-- The diffs of blocks, one block after another. -/
def World.follow (keccak256 : Bytes → B256) (w : World) (blocks : List Block) : World :=
  blocks.foldl (fun w b => w.applyGroups keccak256 b.stateDiffs) w

theorem applyGroups_nil (keccak256 : Bytes → B256) (w : World) :
    w.applyGroups keccak256 [] = w := by
  funext a
  rw [World.applyGroups, AccountView.applyGroup]
  exact if_pos rfl

/-- The number a flush writes is not part of the world. -/
theorem world_flush (σ : HashOrder) (db : StateDb) (c : Cache) (n : Option U64) :
    (flushCacheToDb σ db c n).world = (flushCacheToDb σ db c none).world := by
  -- the two batches differ in the head alone
  have hkey : ∀ k, k ≠ .headBlock →
      (flushCacheToDb σ db c n).getCf k = (flushCacheToDb σ db c none).getCf k := by
    intro k hk
    rw [flushCacheToDb, flushCacheToDb, StateDb.getCf_commit, StateDb.getCf_commit,
      lastVal_flushBatch, lastVal_flushBatch]
    cases k with
    | headBlock => exact absurd rfl hk
    | account a => rfl
    | slot a s => rfl
    | code h => rfl
  funext a
  have haccount : Key.account a ≠ .headBlock := by simp
  refine AccountView.ext (StateDb.getAccount_eq (hkey _ haccount)) (funext fun s => ?_)
  have hslot : Key.slot a s ≠ .headBlock := by simp
  simp only [StateDb.world, StateDb.storageRef, StateDb.getStorage_eq (hkey _ hslot)]

/-- What a replay that went through leaves: the effects of its transactions under its diffs. -/
theorem world_replayBlock {res : BlockResult}
    (h : (replayBlock evm keccak256 σ db block spec).result = .ok res) :
    ∃ rs c, executeTxs evm db spec block 0 block.transactions .new = .ok (rs, c)
      ∧ ((replayBlock evm keccak256 σ db block spec).db db).world
        = (flushCacheToDb σ db c none).world.applyGroups keccak256 block.stateDiffs := by
  have hcases := replayBlock_cases evm keccak256 σ db block spec
  generalize replayBlock evm keccak256 σ db block spec = r at hcases h
  cases hcases with
  | failed _ => cases h
  | @plain rs c hx hnone =>
      refine ⟨rs, c, hx, ?_⟩
      rw [hnone, applyGroups_nil]
      exact world_flush σ db c _
  | @hybrid rs c db₂ hx _ happly => exact ⟨rs, c, hx, world_applyStateDiffs happly⟩
  | half _ _ _ => cases h

theorem wellFormed_applyStateDiffs {db' : StateDb} (hdb : db.WellFormed)
    (h : applyStateDiffs keccak256 σ db block = .ok db') : db'.WellFormed := by
  obtain ⟨b, _, rfl⟩ := diffBatch_of_applyStateDiffs h
  exact StateDb.wellFormed_commit hdb b

theorem wellFormed_replayBlock (hdb : db.WellFormed) :
    ((replayBlock evm keccak256 σ db block spec).db db).WellFormed := by
  have hcases := replayBlock_cases evm keccak256 σ db block spec
  generalize replayBlock evm keccak256 σ db block spec = r at hcases
  cases hcases with
  | failed _ => exact hdb
  | plain _ _ => exact StateDb.wellFormed_commit hdb _
  | hybrid _ _ happly => exact wellFormed_applyStateDiffs (StateDb.wellFormed_commit hdb _) happly
  | half _ _ _ => exact StateDb.wellFormed_commit hdb _

/-- The diffs hide what the transactions did exactly if that is confined to them. -/
theorem applyGroups_flush_iff (hdb : db.WellFormed) {rs : List TxResult} {c : Cache}
    (hx : executeTxs evm db spec block 0 block.transactions .new = .ok (rs, c)) :
    (flushCacheToDb σ db c none).world.applyGroups keccak256 block.stateDiffs
        = db.world.applyGroups keccak256 block.stateDiffs
      ↔ Confined evm spec σ db block := by
  have hflush : (flushCacheToDb σ db c none).WellFormed := StateDb.wellFormed_commit hdb _
  -- each address by itself: the diffs have to set all that the flush changed
  have haddress : ∀ a,
      (flushCacheToDb σ db c none).world.applyGroups keccak256 block.stateDiffs a
          = db.world.applyGroups keccak256 block.stateDiffs a
        ↔ Overrides (diffsOf block.stateDiffs a) (db.world a)
            ((flushCacheToDb σ db c none).world a) := by
    intro a
    obtain ⟨o, ho⟩ := hdb.getAccount_ok a
    obtain ⟨o', ho'⟩ := hflush.getAccount_ok a
    exact applyGroup_eq_iff ho ho'
  constructor
  · intro h rs' c' hx' a
    obtain ⟨rfl, rfl⟩ := Prod.mk.inj (Except.ok.inj (hx.symm.trans hx'))
    exact (haddress a).mp (congrFun h a)
  · intro h
    exact funext fun a => (haddress a).mpr (h rs c hx a)

/--
**When a block leads where its diffs do.** A replay that goes through leaves the accounts
and the storage that the diffs alone would leave, exactly if its transactions change
nothing but what the diffs set.
-/
theorem replayBlock_world_iff (hdb : db.WellFormed) {res : BlockResult}
    (h : (replayBlock evm keccak256 σ db block spec).result = .ok res) :
    ((replayBlock evm keccak256 σ db block spec).db db).world
        = db.world.applyGroups keccak256 block.stateDiffs
      ↔ Confined evm spec σ db block := by
  obtain ⟨rs, c, hx, hworld⟩ := world_replayBlock h
  rw [hworld]
  exact applyGroups_flush_iff hdb hx

end Replay

/-! ## Runs -/

section Runs

variable {evm : Evm} {keccak256 : Bytes → B256} {call : PipelineCall}

/-- So are the transactions of every block of a call, on the database it comes to. -/
def ConfinedAll (evm : Evm) (keccak256 : Bytes → B256) (call : PipelineCall) (i : Nat)
    (db : StateDb) (blocks : List Block) : Prop :=
  ∀ done next rest d, blocks = done ++ next :: rest →
    replayAll evm keccak256 call i db done = .ok d →
    Confined evm call.spec (call.order (i + done.length)) d next

theorem ConfinedAll.head {i : Nat} {db : StateDb} {b : Block} {blocks : List Block}
    (h : ConfinedAll evm keccak256 call i db (b :: blocks)) :
    Confined evm call.spec (call.order i) db b := h [] b blocks db rfl rfl

theorem ConfinedAll.next {i : Nat} {db : StateDb} {b : Block} {blocks : List Block}
    (h : ConfinedAll evm keccak256 call i db (b :: blocks)) {res : BlockResult}
    (hres : (replayBlock evm keccak256 (call.order i) db b call.spec).result = .ok res) :
    ConfinedAll evm keccak256 call (i + 1)
      ((replayBlock evm keccak256 (call.order i) db b call.spec).db db) blocks := by
  intro done next rest d hsplit hdone
  have hindex : i + 1 + done.length = i + (b :: done).length := by
    rw [List.length_cons]
    omega
  rw [hindex]
  refine h (b :: done) next rest d (by rw [hsplit]; rfl) ?_
  simp only [replayAll, hres, hdone]

theorem wellFormed_replayAll {done : List Block} {i : Nat} {db d : StateDb} (hdb : db.WellFormed)
    (h : replayAll evm keccak256 call i db done = .ok d) : d.WellFormed := by
  induction done generalizing i db with
  | nil =>
      cases h
      exact hdb
  | cons b done ih =>
      rw [replayAll] at h
      split at h
      · exact ih (wellFormed_replayBlock hdb) h
      · cases h

/-- Blocks that were replayed lead where their diffs do. -/
theorem world_replayAll {done rest : List Block} {i : Nat} {db d : StateDb} (hdb : db.WellFormed)
    (hconf : ConfinedAll evm keccak256 call i db (done ++ rest))
    (h : replayAll evm keccak256 call i db done = .ok d) :
    d.world = db.world.follow keccak256 done := by
  induction done generalizing i db with
  | nil =>
      cases h
      rfl
  | cons b done ih =>
      rw [replayAll] at h
      split at h
      · rename_i res hres
        -- one block: its two commits together are the diffs alone
        rw [ih (wellFormed_replayBlock hdb) (hconf.next hres) h,
          (replayBlock_world_iff hdb hres).mpr hconf.head]
        rfl
      · cases h

/-- Between the two commits of a block its diffs still lead to the same place. -/
theorem world_half {db : StateDb} (hdb : db.WellFormed) {σ : HashOrder} {block : Block}
    (hne : block.stateDiffs ≠ []) (hconf : Confined evm call.spec σ db block) :
    ((replayBlock evm keccak256 σ db block call.spec).dbAfter 1 db).world.applyGroups keccak256
        block.stateDiffs
      = db.world.applyGroups keccak256 block.stateDiffs := by
  have hcases := replayBlock_cases evm keccak256 σ db block call.spec
  generalize replayBlock evm keccak256 σ db block call.spec = r at hcases
  cases hcases with
  | failed _ => rfl
  | plain _ hnone => exact absurd hnone hne
  | hybrid hx _ _ => exact (applyGroups_flush_iff hdb hx).mpr hconf
  | half hx _ _ => exact (applyGroups_flush_iff hdb hx).mpr hconf

/-- Every state of a call is that after a first part of its blocks, or one commit further. -/
theorem isPrefixState_pipelineStates {db d : StateDb} {head : Option U64}
    (hhead : db.getHeadBlock = .ok head) (hd : d ∈ pipelineStates evm keccak256 db call) :
    IsPrefixState evm keccak256 call 0 db (pending head call.blocks) d := by
  rw [pipelineStates, hhead] at hd
  rcases List.mem_cons.mp hd with rfl | hd
  · exact isPrefixState_start 0 d _
  · exact pipelineCommits_prefix hd

end Runs

/-- The head behind these blocks. -/
def headAfter (db : StateDb) (done : List Block) : Except DbError (Option U64) :=
  (done.getLast?.map fun b => .ok (some b.header.number)).getD db.getHeadBlock

/--
**A run follows the diffs.** Take a call whose transactions change nothing but what the
diffs of their block set. Whatever they compute, in every state of the database during
the call and after it the accounts and the storage are those that the diffs of the first
blocks lead to, the last of which is the head; or, between the two commits of a block,
those from which the diffs of that block lead to the same place.
-/
theorem pipelineStates_follow {evm : Evm} {keccak256 : Bytes → B256} {call : PipelineCall}
    {db : StateDb} (hdb : db.WellFormed) {head : Option U64} (hhead : db.getHeadBlock = .ok head)
    (hconf : ConfinedAll evm keccak256 call 0 db (pending head call.blocks)) :
    ∀ d ∈ pipelineStates evm keccak256 db call, ∃ done rest,
      pending head call.blocks = done ++ rest
        ∧ d.getHeadBlock = headAfter db done
        ∧ (d.world = db.world.follow keccak256 done
          ∨ ∃ next rest', rest = next :: rest'
              ∧ d.world.applyGroups keccak256 next.stateDiffs
                = db.world.follow keccak256 (done ++ [next])) := by
  intro d hd
  obtain ⟨done, rest, d', hsplit, hdone, hdhead, hsame, hstate⟩ := isPrefixState_pipelineStates hhead hd
  have hwf := wellFormed_replayAll hdb hdone
  have hworld := world_replayAll hdb (hsplit ▸ hconf) hdone
  refine ⟨done, rest, hsplit, ?_, ?_⟩
  · rw [hsame.trans hdhead, headAfter]
    cases done.getLast? <;> rfl
  -- the state is that behind a block, or that between the commits of the next one
  rcases hstate with rfl | ⟨next, rest', rfl, hne, rfl⟩
  · exact .inl hworld
  · refine .inr ⟨next, rest', rfl, ?_⟩
    have hnext : Confined evm call.spec (call.order (0 + done.length)) d' next :=
      hconf done next rest' d' hsplit hdone
    rw [world_half hwf hne hnext, hworld, World.follow, World.follow, List.foldl_append]
    rfl

/-! ## True diffs -/

section TrueDiffs

variable {evm : Evm} {db : StateDb} {spec : ChainSpec} {block : Block}

/-- Regular transactions do not see the diffs of their block. -/
theorem executeTxs_withoutDiffs {txs : List Transaction} (h : ∀ tx ∈ txs, isSystemTx tx = false)
    (idx : Nat) (c : Cache) :
    executeTxs evm db spec block idx txs c
      = executeTxs evm db spec { block with stateDiffs := [] } idx txs c := by
  induction txs generalizing idx c with
  | nil => rfl
  | cons tx txs ih =>
      obtain ⟨htx, htxs⟩ := List.forall_mem_cons.mp h
      have hstep : executeTx evm db spec block idx tx c
          = executeTx evm db spec { block with stateDiffs := [] } idx tx c := by
        simp only [executeTx, htx, Bool.false_and, Bool.false_eq_true, if_false]
        rfl
      simp only [executeTxs, hstep, ih htxs]

/--
**True diffs do no harm.** Take a block of regular transactions and diffs that lead where
these do. Replayed with its diffs it has the results that it has without them, and leaves
the same accounts, the same storage and the same head.
-/
theorem replayBlock_truthful {keccak256 : Bytes → B256} {σ : HashOrder} (hdb : db.WellFormed)
    (hregular : ∀ tx ∈ block.transactions, isSystemTx tx = false) {res : BlockResult}
    (hplain : (replayBlock evm keccak256 σ db { block with stateDiffs := [] } spec).result = .ok res)
    (htrue : ((replayBlock evm keccak256 σ db { block with stateDiffs := [] } spec).db db).world
      = db.world.applyGroups keccak256 block.stateDiffs) (σ' : HashOrder) :
    let plain := replayBlock evm keccak256 σ db { block with stateDiffs := [] } spec
    let hybrid := replayBlock evm keccak256 σ' db block spec
    hybrid.result = .ok res ∧ (hybrid.db db).world = (plain.db db).world
      ∧ (hybrid.db db).getHeadBlock = (plain.db db).getHeadBlock := by
  intro plain hybrid
  obtain ⟨rs, c, hx, hworld⟩ := world_replayBlock hplain
  have hx' : executeTxs evm db spec block 0 block.transactions .new = .ok (rs, c) :=
    (executeTxs_withoutDiffs hregular 0 .new).trans hx
  -- neither replay depends on how the overlay is walked
  have hflush : flushCacheToDb σ' db c none = flushCacheToDb σ db c none :=
    StateDb.commit_congr db fun k => by rw [lastVal_flushBatch, lastVal_flushBatch]
  rw [applyGroups_nil] at hworld
  rw [hworld] at htrue
  have hres : res = ⟨block.header.number, rs⟩ := by
    have hcases := replayBlock_cases evm keccak256 σ db { block with stateDiffs := [] } spec
    generalize replayBlock evm keccak256 σ db { block with stateDiffs := [] } spec = r at hcases hplain
    cases hcases with
    | failed _ => cases hplain
    | plain hy _ =>
        obtain ⟨rfl, rfl⟩ := Prod.mk.inj (Except.ok.inj (hx.symm.trans hy))
        exact (Except.ok.inj hplain).symm
    | hybrid _ hne _ => exact absurd rfl hne
    | half _ hne _ => exact absurd rfl hne
  have hresult : hybrid.result = .ok res := by
    obtain ⟨db', happly⟩ : ∃ db', applyStateDiffs keccak256 σ' (flushCacheToDb σ' db c none) block
        = .ok db' := by
      have hwf : (flushCacheToDb σ' db c none).WellFormed := StateDb.wellFormed_commit hdb _
      exact applyStateDiffs_ok σ' fun a _ => hwf.getAccount_ok a
    simp only [hybrid, replayBlock, hx', happly, hres]
    split <;> rfl
  refine ⟨hresult, ?_, ?_⟩
  · obtain ⟨rs', c', hy, hboth⟩ := world_replayBlock hresult
    obtain ⟨rfl, rfl⟩ := Prod.mk.inj (Except.ok.inj (hx'.symm.trans hy))
    -- on what the transactions left, the diffs change nothing
    rw [show (plain.db db).world = _ from hworld, hboth, hflush, htrue]
    exact funext fun a => applyGroup_again _ _
  · rw [getHeadBlock_replayBlock_ok hresult, getHeadBlock_replayBlock_ok hplain]

end TrueDiffs

/-! ## A block whose diffs are true -/

section Counted

variable {keccak256 : Bytes → B256} {db : StateDb} {spec : ChainSpec} {block : Block}
  {tx : Transaction}

/-- What a single counted transaction commits. -/
theorem mem_blockStates_counting {step : CommitStep} (htxs : block.transactions = [tx])
    (htx : isSystemTx tx = false) (h : step ∈ blockStates (.counting keccak256) db spec block) :
    ∃ info, step = ⟨Cache.new.load db (.basic (replayTxEnv spec block tx).caller),
      (countingResult (replayTxEnv spec block tx) info).state⟩ := by
  simp only [blockStates, htxs, committedStates, htx, Bool.false_and, Bool.false_eq_true,
    if_false, replayExecution] at h
  split at h
  · rename_i r c' hrun
    obtain ⟨info, _, _, _, rfl, rfl⟩ := counting_accepted hrun
    exact ⟨info, List.mem_singleton.mp h⟩
  · cases h

/-- It leaves the storage alone, and of the accounts all but the sender. -/
theorem world_flush_counting {rs : List TxResult} {c : Cache} {σ : HashOrder}
    (htxs : block.transactions = [tx]) (htx : isSystemTx tx = false)
    (hx : executeTxs (.counting keccak256) db spec block 0 block.transactions .new = .ok (rs, c))
    (hdiffs : ∀ a, a ≠ (replayTxEnv spec block tx).caller → diffsOf block.stateDiffs a = [])
    (hsender : ∃ info, db.basicRef (replayTxEnv spec block tx).caller = .ok (some info))
    (hslot : ∀ a, ∀ d ∈ diffsOf block.stateDiffs a, d.slot = none) :
    (∀ a, a ≠ (replayTxEnv spec block tx).caller →
        ((flushCacheToDb σ db c none).world a).account = (db.world a).account)
      ∧ ∀ a s, ((flushCacheToDb σ db c none).world a).storage s = (db.world a).storage s := by
  have hframe := blockFrame_flush hx σ none
  -- no account but the sender is in the changes
  have hother : ∀ a, a ≠ (replayTxEnv spec block tx).caller →
      Untouched (.counting keccak256) db spec block a := by
    refine fun a ha => ⟨fun step hstep htouch => ?_, hdiffs a ha⟩
    obtain ⟨info, rfl⟩ := mem_blockStates_counting htxs htx hstep
    obtain ⟨acc, hacc, _⟩ := htouch
    simp [countingResult, ha.symm] at hacc
  refine ⟨fun a ha => (hframe.accounts a (hother a ha)).1, fun a s => ?_⟩
  by_cases ha : a = (replayTxEnv spec block tx).caller
  · refine hframe.slots a s ⟨fun step hstep => ?_, fun d hd => by simp [hslot a d hd]⟩
    obtain ⟨info, rfl⟩ := mem_blockStates_counting htxs htx hstep
    -- the sender is there, keeps its storage, and changes no slot
    obtain ⟨info', hinfo⟩ := hsender
    refine ⟨?_, ?_, ?_⟩
    · rintro ⟨acc, hacc, _, hcreated | hnone⟩
      · rw [ha] at hacc
        simp only [countingResult, ExtTreeMap.getElem?_insert_self, Option.some.injEq] at hacc
        rw [← hacc] at hcreated
        cases hcreated
      · have hread := ((Evm.counting keccak256).load_spec db .new
          (.basic (replayTxEnv spec block tx).caller)).basic a
        have hbasic : Cache.new.basic db a = db.basicRef a := Cache.basic_uncached (by simp [Cache.new])
        have hnone' : db.basicRef a = .ok none := hbasic.symm.trans (hread.symm.trans hnone)
        rw [ha, hinfo] at hnone'
        cases hnone'
    · rintro ⟨acc, hacc, _, hdestroyed⟩
      rw [ha] at hacc
      simp only [countingResult, ExtTreeMap.getElem?_insert_self, Option.some.injEq] at hacc
      rw [← hacc] at hdestroyed
      cases hdestroyed
    · rintro ⟨acc, v, hacc, _, hv, _⟩
      rw [ha] at hacc
      simp only [countingResult, ExtTreeMap.getElem?_insert_self, Option.some.injEq] at hacc
      rw [← hacc] at hv
      simp at hv
  · exact (hframe.accounts a (hother a ha)).2 s

end Counted

/-- The sender's transaction. -/
def countedTx : Transaction :=
  { fromAddr := some 0xA, toAddr := some 0xB, nonce := some 0, gas := some 21000 }

/-- Its block, with the diff that says what it does. -/
def countedBlock : Block where
  header := { number := 10 }
  transactions := [countedTx]
  stateDiffs :=
    [{ address := some 0xA, key := some "nonce", kind := some "*", next := some "0x1" }]

/-- The evm that counts transactions where nothing has code. -/
def countingEvm : Evm := .counting fun _ => KECCAK256_EMPTY

theorem wellFormed_senderDb : senderDb.WellFormed := StateDb.wellFormed_commit StateDb.wellFormed_empty _

theorem flush_countedBlock {rs : List TxResult} {c : Cache}
    (hx : executeTxs countingEvm senderDb polygonMainnet countedBlock 0 countedBlock.transactions .new
      = .ok (rs, c)) :
    (flushCacheToDb .sorted senderDb c none).world
      = senderDb.world.applyGroups (fun _ => KECCAK256_EMPTY) countedBlock.stateDiffs := by
  have hdiffs : ∀ a, a ≠ 0xA → diffsOf countedBlock.stateDiffs a = [] := by
    intro a ha
    have hne : (some 0xA == some a) = false := by simpa using ha.symm
    simp only [diffsOf, countedBlock, List.filter_cons, hne, Bool.false_eq_true, if_false,
      List.filter_nil]
  have hsender : ∃ info, senderDb.basicRef 0xA = .ok (some info) := ⟨⟨0, 100, KECCAK256_EMPTY⟩, by decide⟩
  have hslot : ∀ a, ∀ d ∈ diffsOf countedBlock.stateDiffs a, d.slot = none := by
    intro a d hd
    obtain rfl := List.mem_singleton.mp (List.mem_of_mem_filter hd)
    rfl
  obtain ⟨haccount, hstorage⟩ := @world_flush_counting _ senderDb polygonMainnet countedBlock
    countedTx _ _ .sorted rfl (by decide) hx hdiffs hsender hslot
  funext a
  unfold World.applyGroups AccountView.applyGroup
  by_cases ha : a = 0xA
  · subst ha
    -- the transaction raises the nonce of its sender, as the diff says
    have hcomputed : (executeTxs countingEvm senderDb polygonMainnet countedBlock 0
          countedBlock.transactions .new).map
          (fun p => (flushCacheToDb .sorted senderDb p.2 none).getAccount 0xA)
        = .ok (.ok (some ⟨1, 100, KECCAK256_EMPTY⟩)) := by decide
    rw [hx] at hcomputed
    refine AccountView.ext ?_ (funext fun s => (hstorage 0xA s).trans ?_)
    · exact (Except.ok.inj hcomputed).trans (by decide)
    · rfl
  · rw [hdiffs a ha, if_pos rfl]
    exact AccountView.ext (haccount a ha) (funext fun s => hstorage a s)

/-- A call with that block alone. -/
def countedCall : PipelineCall where
  blocks := [.ok countedBlock]
  spec := polygonMainnet

theorem confinedAll_countedCall :
    ConfinedAll countingEvm (fun _ => KECCAK256_EMPTY) countedCall 0 senderDb
      (pending none countedCall.blocks) := by
  intro done next rest d hsplit hdone
  have hpending : pending none countedCall.blocks = [countedBlock] := rfl
  rw [hpending] at hsplit
  -- the call has one block
  obtain rfl : done = [] := by
    cases done with
    | nil => rfl
    | cons b done => simp at hsplit
  obtain ⟨rfl, _⟩ := List.cons.inj hsplit
  obtain rfl : senderDb = d := Except.ok.inj hdone
  obtain ⟨rs, c, hx⟩ : ∃ rs c, executeTxs countingEvm senderDb polygonMainnet countedBlock 0
      countedBlock.transactions .new = .ok (rs, c) := by
    cases hx : executeTxs countingEvm senderDb polygonMainnet countedBlock 0
        countedBlock.transactions .new with
    | ok p => exact ⟨p.1, p.2, rfl⟩
    | error e =>
        have hok : (executeTxs countingEvm senderDb polygonMainnet countedBlock 0
            countedBlock.transactions .new).isOk = true := by decide
        rw [hx] at hok
        cases hok
  refine (@applyGroups_flush_iff _ (fun _ => KECCAK256_EMPTY) _ _ _ _ wellFormed_senderDb _ _ hx).mp ?_
  have hflush : (flushCacheToDb (countedCall.order (0 + ([] : List Block).length)) senderDb c none).world
      = _ := flush_countedBlock hx
  rw [hflush]
  exact funext fun a => applyGroup_again _ _

/-- The counted block leads where its diff does. -/
theorem pipelineStates_follow_countedCall :
    let d := (runPipeline countingEvm (fun _ => KECCAK256_EMPTY) senderDb countedCall).db
    d.getHeadBlock = .ok (some 10) ∧ ∃ done rest,
      pending none countedCall.blocks = done ++ rest
        ∧ d.getHeadBlock = headAfter senderDb done
        ∧ (d.world = senderDb.world.follow (fun _ => KECCAK256_EMPTY) done
          ∨ ∃ next rest', rest = next :: rest'
              ∧ d.world.applyGroups (fun _ => KECCAK256_EMPTY) next.stateDiffs
                = senderDb.world.follow (fun _ => KECCAK256_EMPTY) (done ++ [next])) :=
  ⟨by decide, pipelineStates_follow wellFormed_senderDb (by decide) confinedAll_countedCall _
    (db_mem_pipelineStates _ _)⟩

/-- Its diff is true, and does no harm. -/
theorem replayBlock_truthful_countedBlock :
    let plain := replayBlock countingEvm (fun _ => KECCAK256_EMPTY) .sorted senderDb
      { countedBlock with stateDiffs := [] } polygonMainnet
    let hybrid := replayBlock countingEvm (fun _ => KECCAK256_EMPTY) .sorted senderDb countedBlock
      polygonMainnet
    hybrid.result = .ok ⟨10, [⟨21000, true⟩]⟩ ∧ (hybrid.db senderDb).world = (plain.db senderDb).world
      ∧ (hybrid.db senderDb).getHeadBlock = (plain.db senderDb).getHeadBlock := by
  have hregular : ∀ tx ∈ countedBlock.transactions, isSystemTx tx = false := by decide
  have hplain : (replayBlock countingEvm (fun _ => KECCAK256_EMPTY) .sorted senderDb
      { countedBlock with stateDiffs := [] } polygonMainnet).result = .ok ⟨10, [⟨21000, true⟩]⟩ := by
    decide
  refine replayBlock_truthful wellFormed_senderDb hregular hplain ?_ .sorted
  obtain ⟨rs, c, hx, hworld⟩ := world_replayBlock hplain
  rw [hworld, applyGroups_nil]
  exact flush_countedBlock ((executeTxs_withoutDiffs hregular 0 .new).trans hx)

end EvmState
