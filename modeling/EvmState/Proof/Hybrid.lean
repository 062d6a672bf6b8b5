import EvmState.Proof.Diffs
import EvmState.Proof.Execute
import EvmState.Proof.Flush

/-!
# A hybrid replay cut between its two commits

A block with state diffs is committed twice: the effects of its transactions
first, with the head left where it was, and the diffs with the new head second.
The head tells a process that stopped in between to replay the block again, but
the accounts already hold the effects: the sender of the first regular
transaction has used up its nonce, and the block is refused from then on. Only a
block of system transactions goes through again (`replayBlock_retry_iff`).
-/

namespace EvmState

open Std

/-- The two commits of a hybrid replay that succeeded. -/
theorem replayBlock_hybrid {evm : Evm} {keccak256 : Bytes → B256} {σ : HashOrder} {db : StateDb}
    {block : Block} {spec : ChainSpec} {res : BlockResult} (hd : block.stateDiffs ≠ [])
    (h : (replayBlock evm keccak256 σ db block spec).result = .ok res) :
    ∃ rs c db₂, executeTxs evm db spec block 0 block.transactions .new = .ok (rs, c)
      ∧ applyStateDiffs keccak256 σ (flushCacheToDb σ db c none) block = .ok db₂
      ∧ (replayBlock evm keccak256 σ db block spec).commits = [flushCacheToDb σ db c none, db₂] := by
  have hcases := replayBlock_cases evm keccak256 σ db block spec
  generalize replayBlock evm keccak256 σ db block spec = r at h hcases
  cases hcases with
  | failed _ => cases h
  | plain _ hnone => exact absurd hnone hd
  | hybrid hx _ happly => exact ⟨_, _, _, hx, happly, rfl⟩
  | half _ _ _ => cases h

/-- With nothing but system transactions a hybrid replay only applies the diffs. -/
theorem replayBlock_system {evm : Evm} {keccak256 : Bytes → B256} {σ : HashOrder}
    {db db' : StateDb} {block : Block} {spec : ChainSpec} (hd : block.stateDiffs ≠ [])
    (hs : ∀ tx ∈ block.transactions, isSystemTx tx = true)
    (h : applyStateDiffs keccak256 σ db block = .ok db') :
    replayBlock evm keccak256 σ db block spec
      = ⟨[db, db'], .ok ⟨block.header.number, block.transactions.map (fun _ => ⟨0, true⟩)⟩⟩ := by
  -- a fresh overlay has no accounts, and its two codes are empty
  have hflush : flushCacheToDb σ db .new none = db := by
    rw [flushCacheToDb, StateDb.commit_congr db (c := []) fun k => ?_, StateDb.commit_nil]
    rw [lastVal_flushBatch, WriteBatch.lastVal_nil]
    cases k with
    | account a => simp [flushVal, Cache.new]
    | slot a s => simp [flushVal, Cache.new]
    | headBlock => rfl
    | code hash =>
        simp only [flushVal]
        split
        · rename_i raw hraw
          simp only [Cache.new, ExtTreeMap.getElem?_insert] at hraw
          split at hraw
          · rw [← Option.some.inj hraw]; rfl
          · split at hraw
            · rw [← Option.some.inj hraw]; rfl
            · simp at hraw
        · rfl
  simp [replayBlock, executeTxs_system hd hs, hd, hflush, h]

/--
The sender of the first regular transaction lasts. Before `CANCUN` its record has a hash of
empty code then: one that sends with another hash has a delegation for code, which no chain
had by then, or code that the database does not hold.
-/
def SenderLasts (db : StateDb) (spec : ChainSpec) (block : Block) : Prop :=
  ∀ tx, block.transactions.find? (fun tx => !isSystemTx tx) = some tx →
    Cache.new.Lasting db (replayCfg spec block).spec (tx.fromAddr.getD 0)

/-- Once the first commit is in, the block is refused if it has a regular transaction. -/
theorem executeTxs_retry {evm : Evm} (hn : evm.NonceRules)
    {σ : HashOrder} {db : StateDb} {block : Block} {spec : ChainSpec} {rs : List TxResult} {c : Cache}
    (hd : block.stateDiffs ≠ []) (hlast : SenderLasts db spec block)
    (hreg : ¬ ∀ tx ∈ block.transactions, isSystemTx tx = true)
    (h : executeTxs evm db spec block 0 block.transactions .new = .ok (rs, c)) :
    ∃ err, executeTxs evm (flushCacheToDb σ db c none) spec block 0 block.transactions .new
      = .error err := by
  obtain ⟨pre, tx, post, htxs, hpre, htx⟩ := exists_first_regular hreg
  have hfirst : block.transactions.find? (fun tx => !isSystemTx tx) = some tx := by
    rw [htxs, List.find?_append, List.find?_eq_none.mpr fun t ht => by simp [hpre t ht]]
    simp [htx]
  have hlasting := hlast tx hfirst
  rw [htxs] at h ⊢
  obtain ⟨n, hn', hlt⟩ := executeTxs_first_bumped hn hd hpre htx .new h hlasting
  -- the flush keeps the nonces of the overlay, whatever it does to storage
  have hinv := cacheInv_reachable (reachable_executeTxs .new h)
  cases hretry : executeTxs evm (flushCacheToDb σ db c none) spec block 0 (pre ++ tx :: post) .new
    with
  | error err => exact ⟨err, rfl⟩
  | ok p =>
      -- accepted again, the transaction would have to match the nonce it used up
      exfalso
      have hm := executeTxs_first_matched hn hd hpre htx .new hretry
      have hflushed : Cache.new.nonce (flushCacheToDb σ db c none) (tx.fromAddr.getD 0) = .ok n := by
        rw [Cache.nonce, Cache.basic_uncached (by simp [Cache.new]), basicRef_flush hinv]
        exact hn'
      rw [hflushed] at hm
      rw [Except.ok.inj hm] at hlt
      exact absurd hlt (BitVec.lt_irrefl _)

/--
**When a cut hybrid replay can be resumed.** Take a replay that would succeed, and
a process that stopped after its first commit. Replaying the block from there
succeeds and ends in the database of the uninterrupted run if the block has no regular
transaction, and, where the first sender of one lasts, only then.
-/
theorem replayBlock_retry_iff {evm : Evm} (hn : evm.NonceRules)
    {keccak256 : Bytes → B256} {block : Block} (hnc : NoCollision keccak256 block)
    (hd : block.stateDiffs ≠ []) {σ : HashOrder} {db : StateDb} {spec : ChainSpec}
    {res : BlockResult} (h : (replayBlock evm keccak256 σ db block spec).result = .ok res)
    (σ' : HashOrder) :
    let full := replayBlock evm keccak256 σ db block spec
    let retry := replayBlock evm keccak256 σ' (full.dbAfter 1 db) block spec
    let resumes := (∃ res', retry.result = .ok res') ∧ retry.db (full.dbAfter 1 db) = full.db db
    ((∀ tx ∈ block.transactions, isSystemTx tx = true) → resumes)
      ∧ (SenderLasts db spec block →
          (resumes ↔ ∀ tx ∈ block.transactions, isSystemTx tx = true)) := by
  intro full retry resumes
  obtain ⟨rs, c, db₂, hx, happly, hcommits⟩ := replayBlock_hybrid hd h
  have hcut : full.dbAfter 1 db = flushCacheToDb σ db c none := by
    simp [full, Replay.dbAfter, hcommits]
  have hend : full.db db = db₂ := by simp [full, Replay.db, hcommits]
  have hsystem : (∀ tx ∈ block.transactions, isSystemTx tx = true) → resumes := by
    intro hs
    -- the retry may walk its maps in another order
    have hagain : applyStateDiffs keccak256 σ' (full.dbAfter 1 db) block = .ok db₂ :=
      hcut ▸ applyStateDiffs_order hnc σ σ' happly
    change (∃ res', retry.result = .ok res') ∧ retry.db (full.dbAfter 1 db) = full.db db
    rw [hend, show retry = _ from replayBlock_system hd hs hagain]
    exact ⟨⟨_, rfl⟩, rfl⟩
  refine ⟨hsystem, fun hlast => ⟨fun hy => ?_, hsystem⟩⟩
  obtain ⟨⟨res', hres'⟩, _⟩ := hy
  by_contra hreg
  obtain ⟨err, herr⟩ := executeTxs_retry hn (σ := σ) hd hlast hreg hx
  simp only [retry, hcut, replayBlock, herr] at hres'
  cases hres'

/-- An account with funds that has sent nothing yet. -/
def senderDb : StateDb := StateDb.empty.commit [.setAccount 0xA ⟨0, 100, KECCAK256_EMPTY⟩]

/-- Its first transaction, with the diff the portal reports for it. -/
def hybridBlock : Block where
  header := { number := 10 }
  transactions :=
    [{ fromAddr := some 0xA, toAddr := some 0xB, nonce := some 0, gas := some 21000 }]
  stateDiffs :=
    [{ address := some 0xB, key := some "balance", kind := some "+", next := some "0x5" }]

/-- Replayed from the first commit on, the block is refused for its nonce. -/
theorem replayBlock_retry_refused :
    let evm := Evm.counting (fun _ => KECCAK256_EMPTY)
    let full := replayBlock evm (fun _ => KECCAK256_EMPTY) .sorted senderDb hybridBlock polygonMainnet
    let retry := replayBlock evm (fun _ => KECCAK256_EMPTY) .sorted (full.dbAfter 1 senderDb)
      hybridBlock polygonMainnet
    full.result = .ok ⟨10, [⟨21000, true⟩]⟩
      ∧ retry.result
        = .error (.evm 10 0 false (.transaction "nonce") (some 0xA) (some 0xB) none)
      ∧ ¬ ((∃ res', retry.result = .ok res')
        ∧ retry.db (full.dbAfter 1 senderDb) = full.db senderDb) := by
  intro evm full retry
  have hretry : retry.result
      = .error (.evm 10 0 false (.transaction "nonce") (some 0xA) (some 0xB) none) := by decide
  refine ⟨by decide, hretry, ?_⟩
  intro hx
  obtain ⟨⟨res', h⟩, _⟩ := hx
  rw [hretry] at h
  cases h

/-- Its sender has no code. -/
theorem senderLasts_hybridBlock : SenderLasts senderDb polygonMainnet hybridBlock := by
  intro tx htx
  obtain rfl := Option.some.inj htx
  refine .inr fun info hinfo => .inr ?_
  have hsender : Cache.new.basic senderDb 0xA = .ok (some ⟨0, 100, KECCAK256_EMPTY⟩) := by decide
  obtain rfl := Option.some.inj (Except.ok.inj (hsender.symm.trans hinfo))
  rfl

theorem replayBlock_retry_iff_hybridBlock :
    let evm := Evm.counting (fun _ => KECCAK256_EMPTY)
    let full := replayBlock evm (fun _ => KECCAK256_EMPTY) .sorted senderDb hybridBlock polygonMainnet
    let retry := replayBlock evm (fun _ => KECCAK256_EMPTY) .sorted (full.dbAfter 1 senderDb)
      hybridBlock polygonMainnet
    ((∃ res', retry.result = .ok res') ∧ retry.db (full.dbAfter 1 senderDb) = full.db senderDb)
      ↔ ∀ tx ∈ hybridBlock.transactions, isSystemTx tx = true := by
  have hok : (replayBlock (Evm.counting fun _ => KECCAK256_EMPTY) (fun _ => KECCAK256_EMPTY)
      .sorted senderDb hybridBlock polygonMainnet).result = .ok ⟨10, [⟨21000, true⟩]⟩ := by decide
  exact (replayBlock_retry_iff counting_nonceRules
    (by simp [NoCollision, hybridBlock, StateDiff.code]) (by simp [hybridBlock]) hok .sorted).2
    senderLasts_hybridBlock

end EvmState
