import EvmState.Proof.BaseState
import EvmState.Proof.Diffs
import EvmState.Proof.Flush

/-!
# Hash maps in any order

A batch is filled by walking hash maps, and no two walks need agree. Where a batch
names no key with two values its order is free (`StateDb.commit_perm`), and the
walks only permute it: that is the case of a flush, and of a genesis file whose
codes do not collide. The diffs of one address do name keys twice, but a walk moves
whole groups (`applyStateDiffs_regroup`).
-/

namespace EvmState

open Std

/-- The order of every map that one call walks, each its own. -/
structure Walks where
  accounts : HashOrder
  /-- The storage of each account. -/
  storage : Address → HashOrder
  contracts : HashOrder

/-- All maps in the order of one. -/
def Walks.all (σ : HashOrder) : Walks := ⟨σ, fun _ => σ, σ⟩

namespace HashOrder

theorem entries_perm {κ ν : Type} [Ord κ] [TransOrd κ] (σ σ' : HashOrder) (m : HashMap κ ν) :
    (σ.entries m).Perm (σ'.entries m) := (σ.perm _).trans (σ'.perm _).symm

end HashOrder

/-! ## The flush -/

/-- `flushBatch`, with an order for each map. -/
def flushBatchIn (ω : Walks) (c : Cache) (blockNumber : Option U64) : WriteBatch :=
  (ω.accounts.entries c.accounts).flatMap (fun e => flushAccount (ω.storage e.1) e)
    ++ (ω.contracts.entries c.contracts).flatMap flushContract
    ++ (blockNumber.map Write.setHeadBlock).toList

def flushIn (ω : Walks) (db : StateDb) (c : Cache) (blockNumber : Option U64) : StateDb :=
  db.commit (flushBatchIn ω c blockNumber)

theorem flushIn_all (σ : HashOrder) (db : StateDb) (c : Cache) (n : Option U64) :
    flushIn (.all σ) db c n = flushCacheToDb σ db c n := rfl

theorem flushAccount_perm (σ σ' : HashOrder) (e : Address × DbAccount) :
    (flushAccount σ e).Perm (flushAccount σ' e) := by
  obtain ⟨a, info, state, slots⟩ := e
  cases state with
  | notExisting => exact .refl _
  | none => exact .refl _
  | touched | storageCleared => exact .cons _ ((σ.entries_perm σ' slots).map _)

theorem flushBatchIn_perm (ω ω' : Walks) (c : Cache) (n : Option U64) :
    (flushBatchIn ω c n).Perm (flushBatchIn ω' c n) := by
  have haccounts := (ω.accounts.entries_perm ω'.accounts c.accounts).flatMap
    fun e _ => flushAccount_perm (ω.storage e.1) (ω'.storage e.1) e
  have hcontracts := (ω.contracts.entries_perm ω'.contracts c.contracts).flatMap_right flushContract
  exact (haccounts.append hcontracts).append_right _

/-- **A flush leaves the same in any order.** -/
theorem flushIn_eq (σ : HashOrder) (ω : Walks) (db : StateDb) (c : Cache) (n : Option U64) :
    flushIn ω db c n = flushCacheToDb σ db c n := by
  refine (db.commit_perm (flushBatchIn_perm (.all σ) ω c n) fun w hw w' hw' hk => ?_).symm
  -- both writes carry the one value of their key
  have h : flushVal c n w.key = some w.val := flushVal_of_mem_flushBatch hw
  have h' : flushVal c n w'.key = some w'.val := flushVal_of_mem_flushBatch hw'
  rw [hk, h'] at h
  exact (Option.some.inj h).symm

/-! ## Genesis -/

/-- `genesisBatch` for every entry, with an order for each map. -/
def genesisWritesIn (keccak256 : Bytes → B256) (ω : Walks) (genesis : GenesisFile) : WriteBatch :=
  (ω.accounts.entries genesis.alloc).flatMap (fun e => genesisBatch keccak256 (ω.storage e.1) e)
    ++ [.setHeadBlock 0]

def runGenesisIn (keccak256 : Bytes → B256) (ω : Walks) (db : StateDb) (genesis : GenesisFile) :
    StateDb := db.commit (genesisWritesIn keccak256 ω genesis)

theorem runGenesisIn_all (keccak256 : Bytes → B256) (σ : HashOrder) (db : StateDb)
    (genesis : GenesisFile) :
    runGenesisIn keccak256 (.all σ) db genesis = runGenesis keccak256 σ db genesis := rfl

/-- No two codes of the file share a hash. -/
def GenesisFile.NoCollision (keccak256 : Bytes → B256) (genesis : GenesisFile) : Prop :=
  ∀ (a a' : Address) (account account' : GenesisAccount) (code code' : Bytes),
    genesis.alloc[a]? = some account → genesis.alloc[a']? = some account' →
    account.code = some code → account'.code = some code' →
    keccak256 code = keccak256 code' → code = code'

theorem genesisBatch_perm (keccak256 : Bytes → B256) (σ σ' : HashOrder)
    (e : Address × GenesisAccount) :
    (genesisBatch keccak256 σ e).Perm (genesisBatch keccak256 σ' e) := by
  unfold genesisBatch
  refine .append_left _ (.cons _ ?_)
  cases e.2.storage with
  | none => exact .refl _
  | some m => exact (σ.entries_perm σ' m).map _

theorem genesisWritesIn_perm (keccak256 : Bytes → B256) (ω ω' : Walks) (genesis : GenesisFile) :
    (genesisWritesIn keccak256 ω genesis).Perm (genesisWritesIn keccak256 ω' genesis) := by
  have hentries := (ω.accounts.entries_perm ω'.accounts genesis.alloc).flatMap
    fun e _ => genesisBatch_perm keccak256 (ω.storage e.1) (ω'.storage e.1) e
  exact hentries.append_right _

/-- The file has one value for each key. -/
theorem genesis_write_agrees {keccak256 : Bytes → B256} {σ : HashOrder} {genesis : GenesisFile}
    (hnc : genesis.NoCollision keccak256) {w w' : Write} (hw : w ∈ genesisWrites keccak256 σ genesis)
    (hw' : w' ∈ genesisWrites keccak256 σ genesis) (hk : w.key = w'.key) : w.val = w'.val := by
  cases hkey : w.key with
  | account a =>
      obtain ⟨info, hinfo, hval⟩ := genesis_account_write hw hkey
      obtain ⟨info', hinfo', hval'⟩ := genesis_account_write hw' (hk.symm.trans hkey)
      rw [hval, hval', Option.some.inj (hinfo.symm.trans hinfo')]
  | slot a s =>
      obtain ⟨v, hv, hval⟩ := genesis_slot_write hw hkey
      obtain ⟨v', hv', hval'⟩ := genesis_slot_write hw' (hk.symm.trans hkey)
      rw [hval, hval', Option.some.inj (hv.symm.trans hv')]
  | code h =>
      -- two entries with one hash have one code
      obtain ⟨a, account, code, hacc, hcode, rfl⟩ := genesis_code_write hw hkey
      obtain ⟨a', account', code', hacc', hcode', rfl⟩ :=
        genesis_code_write hw' (hk.symm.trans hkey)
      have heq := hnc a a' account account' code code' hacc hacc' hcode hcode' (Key.code.inj hk)
      rw [heq]
  | headBlock =>
      rcases mem_genesisWrites.mp hw with ⟨_, _, _, hw⟩ | rfl
      · rcases mem_genesisBatch hw with ⟨_, _, _, rfl⟩ | rfl | ⟨_, _, _, _, _, rfl⟩ <;> cases hkey
      rcases mem_genesisWrites.mp hw' with ⟨_, _, _, hw'⟩ | rfl
      · rcases mem_genesisBatch hw' with ⟨_, _, _, rfl⟩ | rfl | ⟨_, _, _, _, _, rfl⟩ <;> cases hk
      rfl

/-- **A genesis import leaves the same in any order**, if no codes collide. -/
theorem runGenesisIn_eq {keccak256 : Bytes → B256} {genesis : GenesisFile}
    (hnc : genesis.NoCollision keccak256) (σ : HashOrder) (ω : Walks) (db : StateDb) :
    runGenesisIn keccak256 ω db genesis = runGenesis keccak256 σ db genesis := by
  refine (db.commit_perm (genesisWritesIn_perm keccak256 (.all σ) ω genesis) ?_).symm
  intro w hw w' hw' hk
  exact genesis_write_agrees hnc hw hw' hk

/-! ## The state diffs -/

/-- The database after `apply_state_diffs`; one that fails commits nothing. -/
def afterStateDiffs (keccak256 : Bytes → B256) (σ : HashOrder) (db : StateDb) (block : Block) :
    StateDb :=
  match applyStateDiffs keccak256 σ db block with
  | .ok db' => db'
  | .error _ => db

theorem afterStateDiffs_of_error {keccak256 : Bytes → B256} {σ : HashOrder} {db : StateDb}
    {block : Block} (h : ¬ ∃ b, diffBatch keccak256 σ db block = .ok b) :
    afterStateDiffs keccak256 σ db block = db := by
  unfold afterStateDiffs applyStateDiffs
  cases hb : diffBatch keccak256 σ db block with
  | ok b => exact absurd ⟨b, hb⟩ h
  | error err => rfl

/-- **State diffs leave the same in any order** that keeps the order at each address. -/
theorem afterStateDiffs_eq {keccak256 : Bytes → B256} {block : Block}
    (hnc : NoCollision keccak256 block) {diffs : List StateDiff}
    (hsame : SameGroups block.stateDiffs diffs) (σ σ' : HashOrder) (db : StateDb) :
    afterStateDiffs keccak256 σ' db { block with stateDiffs := diffs }
      = afterStateDiffs keccak256 σ db block := by
  by_cases hok : ∃ b, diffBatch keccak256 σ db block = .ok b
  · obtain ⟨b, hb⟩ := hok
    have happly : applyStateDiffs keccak256 σ db block = .ok (db.commit b) := by
      rw [applyStateDiffs, hb]
    have hagain : applyStateDiffs keccak256 σ' db { block with stateDiffs := diffs }
        = .ok (db.commit b) := by
      refine applyStateDiffs_regroup ?_ hsame hnc happly
      rfl
    rw [afterStateDiffs, afterStateDiffs, happly, hagain]
  · -- a record that cannot be read fails the batch wherever its group comes
    have hfails : ¬ ∃ b, diffBatch keccak256 σ' db { block with stateDiffs := diffs } = .ok b :=
      fun hb => hok ((diffBatch_ok_regroup hsame).mpr hb)
    rw [afterStateDiffs_of_error hok, afterStateDiffs_of_error hfails]

/-- Diffs of different addresses may change places. -/
theorem sameGroups_swap {d d' : StateDiff} (h : d.address ≠ d'.address) (diffs : List StateDiff) :
    SameGroups (d :: d' :: diffs) (d' :: d :: diffs) := by
  intro a
  by_cases hd : d.address = some a
  · have hd' : d'.address ≠ some a := fun hd' => h (hd.trans hd'.symm)
    simp [diffsOf, hd, hd']
  · simp [diffsOf, List.filter_cons, hd]

/-! ## All three -/

/--
**Hash-map order never reaches the database.** What a flush, the state diffs of a block and
a genesis import leave does not depend on how their maps are walked, nor on how the diffs
of different addresses are interleaved, as long as no two codes involved share a hash.
-/
theorem hashOrder_irrelevant (keccak256 : Bytes → B256) (σ : HashOrder) (db : StateDb) :
    (∀ (ω : Walks) (c : Cache) (n : Option U64), flushIn ω db c n = flushCacheToDb σ db c n)
      ∧ (∀ (σ' : HashOrder) (block : Block) (diffs : List StateDiff), NoCollision keccak256 block →
          SameGroups block.stateDiffs diffs →
          afterStateDiffs keccak256 σ' db { block with stateDiffs := diffs }
            = afterStateDiffs keccak256 σ db block)
      ∧ ∀ (ω : Walks) (genesis : GenesisFile), genesis.NoCollision keccak256 →
          runGenesisIn keccak256 ω db genesis = runGenesis keccak256 σ db genesis := by
  refine ⟨fun ω c n => flushIn_eq σ ω db c n, fun σ' block diffs hnc hsame => ?_,
    fun ω genesis hnc => runGenesisIn_eq hnc σ ω db⟩
  exact afterStateDiffs_eq hnc hsame σ σ' db

/-! ## Two contracts with one code -/

/-- Walking hash maps in the opposite order. -/
def HashOrder.reversed : HashOrder := ⟨List.reverse, List.reverse_perm⟩

/-- The code of both. -/
def twinDiff (a : Address) : StateDiff :=
  { address := some a, key := some "code", kind := some "+", next := some "0x6001" }

/-- The second diff of one of them. -/
def twinNonce : StateDiff :=
  { address := some 0xA, key := some "nonce", kind := some "+", next := some "0x1" }

def twinsBlock : Block where
  header := { number := 10 }
  transactions := []
  stateDiffs := [twinDiff 0xA, twinDiff 0xB, twinNonce]

def twinsGenesis : GenesisFile where
  alloc := ((∅ : HashMap Address GenesisAccount).insert 0xA { code := some [0x60, 0x01] }).insert
    0xB { code := some [0x60, 0x01] }

theorem code_of_twin {d : StateDiff} (hd : d ∈ twinsBlock.stateDiffs) {raw : Bytes}
    (h : d.code = some raw) : raw = [0x60, 0x01] := by
  have hcode : hexDecode (hexBody "0x6001") = some [0x60, 0x01] := by decide
  simp only [twinsBlock, List.mem_cons, List.not_mem_nil, or_false] at hd
  rcases hd with rfl | rfl | rfl
  all_goals simp [StateDiff.code, twinDiff, twinNonce, hcode] at h
  all_goals exact h.symm

theorem code_of_twin_alloc {a : Address} {account : GenesisAccount} {code : Bytes}
    (ha : twinsGenesis.alloc[a]? = some account) (h : account.code = some code) :
    code = [0x60, 0x01] := by
  simp only [twinsGenesis, ExtTreeMap.getElem?_insert, ExtTreeMap.getElem?_empty,
    Std.compare_eq_iff_eq] at ha
  split at ha
  · obtain rfl := Option.some.inj ha
    exact (Option.some.inj h).symm
  · split at ha
    · obtain rfl := Option.some.inj ha
      exact (Option.some.inj h).symm
    · cases ha

/-- Whichever of the two comes first, and whichever way the maps are walked. -/
theorem hashOrder_irrelevant_twins :
    afterStateDiffs (ofBe 256) .reversed .empty
        { twinsBlock with stateDiffs := [twinDiff 0xB, twinDiff 0xA, twinNonce] }
      = afterStateDiffs (ofBe 256) .sorted .empty twinsBlock
    ∧ runGenesisIn (ofBe 256) (.all .reversed) .empty twinsGenesis
      = runGenesis (ofBe 256) .sorted .empty twinsGenesis := by
  obtain ⟨_, hdiffs, hgenesis⟩ := hashOrder_irrelevant (ofBe 256) .sorted .empty
  refine ⟨hdiffs .reversed twinsBlock _ ?_ ?_, hgenesis _ twinsGenesis ?_⟩
  · intro d hd d' hd' raw raw' hraw hraw' _
    rw [code_of_twin hd hraw, code_of_twin hd' hraw']
  · exact sameGroups_swap (by decide) [twinNonce]
  · intro a a' account account' code code' ha ha' hcode hcode' _
    rw [code_of_twin_alloc ha hcode, code_of_twin_alloc ha' hcode']

end EvmState
