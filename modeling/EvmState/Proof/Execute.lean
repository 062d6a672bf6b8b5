import EvmState.CacheDb
import EvmState.Replayer.Block

/-!
# The loop over a block's transactions

What one accepted transaction does to the overlay, and from it what the loop does:
the overlay stays reachable, a block of system transactions with diffs at hand
changes nothing, and the nonce of a sender only grows.
-/

namespace EvmState

open Std

section Execute

variable {evm : Evm} {db : StateDb} {spec : ChainSpec} {block : Block}

/-- A transaction that the loop leaves to the diffs. -/
theorem executeTx_skipped {idx : Nat} {tx : Transaction} {c : Cache}
    (hs : isSystemTx tx = true) (hd : block.stateDiffs ≠ []) :
    executeTx evm db spec block idx tx c = .ok (⟨0, true⟩, c) := by
  unfold executeTx
  rw [if_pos]
  simp [hs, hd]

/-- A transaction that was executed: its run, and the overlay its commit leaves. -/
theorem executeTx_regular {idx : Nat} {tx : Transaction} {c c₂ : Cache} {r : TxResult}
    (hs : isSystemTx tx = false) (h : executeTx evm db spec block idx tx c = .ok (r, c₂)) :
    ∃ res c₁, evm.run db (evm.replay (replayCfg spec block) (blockEnvFromHeader block.header)
        (txEnvFromTransaction tx spec.chainId)) c = .ok (res, c₁)
      ∧ c₂ = evm.commit c₁ res.state := by
  unfold executeTx at h
  rw [if_neg (by simp [hs])] at h
  simp only [replayExecution, replayTxEnv, hs, Bool.false_eq_true, if_false] at h
  split at h
  · rename_i res c₁ hrun
    simp only [Except.ok.injEq, Prod.mk.injEq] at h
    exact ⟨res, c₁, hrun, h.2.symm⟩
  · cases h

theorem reachable_executeTx {idx : Nat} {tx : Transaction} {c c' : Cache} {r : TxResult}
    (hc : evm.Reachable db c) (h : executeTx evm db spec block idx tx c = .ok (r, c')) :
    evm.Reachable db c' := by
  unfold executeTx at h
  split at h
  · simp only [Except.ok.injEq, Prod.mk.injEq] at h
    exact h.2 ▸ hc
  · split at h
    · rename_i res c₁ hrun
      simp only [Except.ok.injEq, Prod.mk.injEq] at h
      exact h.2 ▸ (Evm.reachable_run hc hrun).commit _
    · cases h

theorem starts_replayExecution (tx : Transaction) :
    evm.Starts (replayExecution evm spec block tx) := by
  unfold replayExecution
  split
  · exact ⟨_, _, _, .inr rfl⟩
  · exact ⟨_, _, _, .inl rfl⟩

theorem executed_executeTx {idx : Nat} {tx : Transaction} {c c' : Cache} {r : TxResult}
    (hc : evm.Executed db c) (h : executeTx evm db spec block idx tx c = .ok (r, c')) :
    evm.Executed db c' := by
  unfold executeTx at h
  split at h
  · simp only [Except.ok.injEq, Prod.mk.injEq] at h
    exact h.2 ▸ hc
  · split at h
    · rename_i res c₁ hrun
      simp only [Except.ok.injEq, Prod.mk.injEq] at h
      exact h.2 ▸ .commit hc (starts_replayExecution tx) hrun
    · cases h

theorem executeTxs_cons {idx : Nat} {tx : Transaction} {txs : List Transaction} {c c' : Cache}
    {rs : List TxResult} (h : executeTxs evm db spec block idx (tx :: txs) c = .ok (rs, c')) :
    ∃ r c₁ rs', executeTx evm db spec block idx tx c = .ok (r, c₁)
      ∧ executeTxs evm db spec block (idx + 1) txs c₁ = .ok (rs', c') ∧ rs = r :: rs' := by
  rw [executeTxs] at h
  split at h
  · rename_i r c₁ hx
    split at h
    · rename_i rs' c'' hxs
      simp only [Except.ok.injEq, Prod.mk.injEq] at h
      exact ⟨r, c₁, rs', hx, h.2 ▸ hxs, h.1.symm⟩
    · cases h
  · cases h

theorem reachable_executeTxs {idx : Nat} {txs : List Transaction} {c c' : Cache}
    {rs : List TxResult} (hc : evm.Reachable db c)
    (h : executeTxs evm db spec block idx txs c = .ok (rs, c')) : evm.Reachable db c' := by
  induction txs generalizing idx c rs with
  | nil =>
      simp only [executeTxs, Except.ok.injEq, Prod.mk.injEq] at h
      exact h.2 ▸ hc
  | cons tx txs ih =>
      obtain ⟨r, c₁, rs', hx, hxs, _⟩ := executeTxs_cons h
      exact ih (reachable_executeTx hc hx) hxs

/-- System transactions with diffs at hand change nothing. -/
theorem executeTxs_system {txs : List Transaction} (hd : block.stateDiffs ≠ [])
    (hs : ∀ tx ∈ txs, isSystemTx tx = true) (idx : Nat) (c : Cache) :
    executeTxs evm db spec block idx txs c = .ok (txs.map (fun _ => ⟨0, true⟩), c) := by
  induction txs generalizing idx with
  | nil => rfl
  | cons tx txs ih =>
      rw [executeTxs, executeTx_skipped (hs tx List.mem_cons_self) hd]
      simp [ih fun t ht => hs t (List.mem_cons_of_mem tx ht)]

/-- An error of the loop is an error of one of the transactions. -/
theorem executeTxs_error {txs : List Transaction} {idx : Nat} {c : Cache} {err : ReplayError}
    (h : executeTxs evm db spec block idx txs c = .error err) :
    ∃ tx ∈ txs, ∃ i c', executeTx evm db spec block i tx c' = .error err := by
  induction txs generalizing idx c with
  | nil => cases h
  | cons tx txs ih =>
      rw [executeTxs] at h
      split at h
      · split at h
        · cases h
        · rename_i hxs
          obtain rfl := Except.error.inj h
          -- the first transaction ran, so a later one failed
          obtain ⟨t, ht, hx⟩ := ih hxs
          exact ⟨t, List.mem_cons_of_mem tx ht, hx⟩
      · rename_i hx
        obtain rfl := Except.error.inj h
        exact ⟨tx, List.mem_cons_self, idx, c, hx⟩

/-- An error of a regular transaction is what its execution was refused for. -/
theorem executeTx_error {tx : Transaction} {idx i : Nat} {c : Cache} {n : U64} {reason : EvmError}
    {f t : Option Address} {h : Option B256}
    (hx : executeTx evm db spec block idx tx c = .error (.evm n i false reason f t h)) :
    evm.run db (evm.replay (replayCfg spec block) (blockEnvFromHeader block.header)
      (txEnvFromTransaction tx spec.chainId)) c = .error reason := by
  unfold executeTx at hx
  split at hx
  · cases hx
  · split at hx
    · cases hx
    · rename_i err hrun
      simp only [Except.error.injEq, ReplayError.evm.injEq] at hx
      obtain ⟨_, _, hs, rfl, _⟩ := hx
      simpa only [replayExecution, replayTxEnv, hs, Bool.false_eq_true, if_false] using hrun

/-! ## Nonces -/

theorem nonce_executeTx (hn : evm.NonceRules) (hd : block.stateDiffs ≠ []) {idx : Nat}
    {tx : Transaction} {c c' : Cache} {r : TxResult} (hc : evm.Executed db c)
    (h : executeTx evm db spec block idx tx c = .ok (r, c')) {a : Address} {n : U64}
    (ha : c.Lasting db (replayCfg spec block).spec a) (hnonce : c.nonce db a = .ok n) (hpos : 0 < n) :
    c'.Lasting db (replayCfg spec block).spec a ∧ ∃ n', c'.nonce db a = .ok n' ∧ n ≤ n' := by
  cases hs : isSystemTx tx with
  | true =>
      -- a system transaction is skipped beside diffs and leaves the overlay as it is
      rw [executeTx_skipped hs hd] at h
      simp only [Except.ok.injEq, Prod.mk.injEq] at h
      exact ⟨h.2 ▸ ha, n, h.2 ▸ hnonce, BitVec.le_refl n⟩
  | false =>
      obtain ⟨res, c₁, hrun, rfl⟩ := executeTx_regular hs h
      exact hn.kept hc hrun ha hnonce (.inl hpos)

/-- **Over a whole block, the nonce of an account that lasts only grows.** -/
theorem nonce_executeTxs (hn : evm.NonceRules) (hd : block.stateDiffs ≠ []) {idx : Nat}
    {txs : List Transaction} {c c' : Cache} {rs : List TxResult} (hc : evm.Executed db c)
    (h : executeTxs evm db spec block idx txs c = .ok (rs, c')) {a : Address} {n : U64}
    (ha : c.Lasting db (replayCfg spec block).spec a) (hnonce : c.nonce db a = .ok n) (hpos : 0 < n) :
    ∃ n', c'.nonce db a = .ok n' ∧ n ≤ n' := by
  induction txs generalizing idx c rs n with
  | nil =>
      simp only [executeTxs, Except.ok.injEq, Prod.mk.injEq] at h
      exact ⟨n, h.2 ▸ hnonce, BitVec.le_refl n⟩
  -- the step lemma for `tx`, then the rest from the overlay it leaves
  | cons tx txs ih =>
      obtain ⟨r, c₁, rs', hx, hxs, _⟩ := executeTxs_cons h
      obtain ⟨ha₁, n₁, hn₁, hle⟩ := nonce_executeTx hn hd hc hx ha hnonce hpos
      obtain ⟨n', hn', hle'⟩ :=
        ih (executed_executeTx hc hx) hxs ha₁ hn₁ (Nat.lt_of_lt_of_le hpos hle)
      exact ⟨n', hn', BitVec.le_trans hle hle'⟩

/-- The first regular transaction of a list, behind system transactions only. -/
theorem exists_first_regular {txs : List Transaction}
    (h : ¬ ∀ tx ∈ txs, isSystemTx tx = true) :
    ∃ pre tx post, txs = pre ++ tx :: post ∧ (∀ t ∈ pre, isSystemTx t = true)
      ∧ isSystemTx tx = false := by
  induction txs with
  | nil => exact absurd (fun tx ht => by cases ht) h
  | cons t txs ih =>
      cases ht : isSystemTx t with
      | false => exact ⟨[], t, txs, rfl, fun _ hm => (by cases hm), ht⟩
      | true =>
          -- this one is a system transaction, so the first regular one comes after it
          obtain ⟨pre, tx, post, rfl, hpre, htx⟩ := ih fun hall => h fun x hx => by
            rcases List.mem_cons.mp hx with rfl | hx
            · exact ht
            · exact hall x hx
          refine ⟨t :: pre, tx, post, rfl, fun x hx => ?_, htx⟩
          rcases List.mem_cons.mp hx with rfl | hx
          · exact ht
          · exact hpre x hx

/-- Skipped transactions in front leave the loop to start at the rest. -/
theorem executeTxs_skip {pre txs : List Transaction} (hd : block.stateDiffs ≠ [])
    (hpre : ∀ t ∈ pre, isSystemTx t = true) {idx : Nat} {c c' : Cache} {rs : List TxResult}
    (h : executeTxs evm db spec block idx (pre ++ txs) c = .ok (rs, c')) :
    ∃ idx' rs', executeTxs evm db spec block idx' txs c = .ok (rs', c') := by
  induction pre generalizing idx rs with
  | nil => exact ⟨idx, rs, h⟩
  | cons t pre ih =>
      obtain ⟨r, c₁, rs', hx, hxs, _⟩ := executeTxs_cons h
      rw [executeTx_skipped (hpre t List.mem_cons_self) hd] at hx
      simp only [Except.ok.injEq, Prod.mk.injEq] at hx
      obtain ⟨_, rfl⟩ := hx
      exact ih (fun x hx => hpre x (List.mem_cons_of_mem t hx)) hxs

section Sender

variable {pre post : List Transaction} {tx : Transaction} {idx : Nat} {c c' : Cache}
  {rs : List TxResult} (hn : evm.NonceRules) (hd : block.stateDiffs ≠ [])
  (hpre : ∀ t ∈ pre, isSystemTx t = true) (htx : isSystemTx tx = false) (hc : evm.Executed db c)
  (h : executeTxs evm db spec block idx (pre ++ tx :: post) c = .ok (rs, c'))

include hn hd hpre htx hc h

/-- Before the loop the first regular transaction has the nonce of its sender. -/
theorem executeTxs_first_matched :
    c.nonce db (tx.fromAddr.getD 0) = .ok (tx.nonce.getD 0) := by
  obtain ⟨idx', rs₁, h⟩ := executeTxs_skip hd hpre h
  obtain ⟨r, c₁, rs₂, hx, hxs, _⟩ := executeTxs_cons h
  obtain ⟨res, c₀, hrun, _⟩ := executeTx_regular htx hx
  exact hn.matched hc hrun

/-- After the loop its sender has a higher one. -/
theorem executeTxs_first_bumped
    (ha : c.Lasting db (replayCfg spec block).spec (tx.fromAddr.getD 0)) :
    ∃ n, c'.nonce db (tx.fromAddr.getD 0) = .ok n ∧ tx.nonce.getD 0 < n := by
  obtain ⟨idx', rs₁, h⟩ := executeTxs_skip hd hpre h
  obtain ⟨r, c₁, rs₂, hx, hxs, _⟩ := executeTxs_cons h
  obtain ⟨res, c₀, hrun, hc₁⟩ := executeTx_regular htx hx
  -- the transaction itself raises the nonce, and what follows does not lower it
  obtain ⟨n₁, hn₁, hlt⟩ := hn.bumped hc hrun ha
  obtain ⟨ha₁, _⟩ := hn.kept hc hrun ha (hn.matched hc hrun) (.inr rfl)
  rw [← hc₁] at hn₁ ha₁
  have hpos : 0 < n₁ := Nat.lt_of_le_of_lt (Nat.zero_le _) hlt
  obtain ⟨n, hn', hle⟩ := nonce_executeTxs hn hd (executed_executeTx hc hx) hxs ha₁ hn₁ hpos
  exact ⟨n, hn', Nat.lt_of_lt_of_le hlt hle⟩

end Sender

end Execute

/-! ## The whole block -/

/-- **Everything a replay can do**: its transactions fail, one commit, two, or the first of two. -/
inductive ReplayCases (evm : Evm) (keccak256 : Bytes → B256) (σ : HashOrder) (db : StateDb)
    (block : Block) (spec : ChainSpec) : Replay → Prop
  | failed {err : ReplayError} :
      executeTxs evm db spec block 0 block.transactions .new = .error err →
      ReplayCases evm keccak256 σ db block spec ⟨[], .error err⟩
  | plain {rs : List TxResult} {c : Cache} :
      executeTxs evm db spec block 0 block.transactions .new = .ok (rs, c) → block.stateDiffs = [] →
      ReplayCases evm keccak256 σ db block spec
        ⟨[flushCacheToDb σ db c (some block.header.number)], .ok ⟨block.header.number, rs⟩⟩
  | hybrid {rs : List TxResult} {c : Cache} {db₂ : StateDb} :
      executeTxs evm db spec block 0 block.transactions .new = .ok (rs, c) → block.stateDiffs ≠ [] →
      applyStateDiffs keccak256 σ (flushCacheToDb σ db c none) block = .ok db₂ →
      ReplayCases evm keccak256 σ db block spec
        ⟨[flushCacheToDb σ db c none, db₂], .ok ⟨block.header.number, rs⟩⟩
  | half {rs : List TxResult} {c : Cache} {err : ReplayError} :
      executeTxs evm db spec block 0 block.transactions .new = .ok (rs, c) → block.stateDiffs ≠ [] →
      applyStateDiffs keccak256 σ (flushCacheToDb σ db c none) block = .error err →
      ReplayCases evm keccak256 σ db block spec ⟨[flushCacheToDb σ db c none], .error err⟩

theorem replayBlock_cases (evm : Evm) (keccak256 : Bytes → B256) (σ : HashOrder) (db : StateDb)
    (block : Block) (spec : ChainSpec) :
    ReplayCases evm keccak256 σ db block spec (replayBlock evm keccak256 σ db block spec) := by
  unfold replayBlock
  split
  · rename_i err hx
    exact .failed hx
  · -- the flush of the overlay is committed either way, the diffs in a batch of their own
    rename_i rs c hx
    split
    · rename_i hd
      exact .plain hx (by simpa using hd)
    · rename_i hd
      dsimp only
      split
      · rename_i db₂ happly
        exact .hybrid hx (by simpa using hd) happly
      · rename_i err happly
        exact .half hx (by simpa using hd) happly

end EvmState
