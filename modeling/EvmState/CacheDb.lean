import EvmState.Revm

/-!
# An overlay that obeys the laws

`Loaded` and `Committed` bound what revm's `CacheDB` may do. This module has the
overlay spelled out, reads that remember what they loaded and commits that walk
the changed accounts, and shows that it stays within the bounds. `Evm.ofCacheDb`
then makes an `Evm` out of any two executions, so that what is proved for every
`Evm` can be tried on one.
-/

namespace EvmState

open Std

namespace Cache

/-! ## Reads -/

/-- The entry after loading an account on its own. -/
def loadBasic (db : StateDb) (a : Address) : Option DbAccount → Option DbAccount
  | some acct => some acct
  | none =>
      match db.basicRef a with
      | .ok (some info) => some ⟨info, .none, ∅⟩
      | .ok none => some .newNotExisting
      | .error _ => none

/-- The entry after loading one of its slots. -/
def loadSlot (db : StateDb) (a : Address) (index : U256) : Option DbAccount → Option DbAccount
  | some acct =>
      -- a cached slot, and any slot of a cleared account, is answered without the database
      if (acct.storage[index]?).isSome || acct.accountState.cleared then some acct
      else
        match db.storageRef a index with
        | .ok v => some { acct with storage := acct.storage.insert index v }
        | .error _ => some acct
  | none =>
      -- the account comes first: one that does not exist has no slots to ask for
      match db.basicRef a with
      | .ok (some info) =>
          match db.storageRef a index with
          | .ok v => some ⟨info, .none, (∅ : HashMap U256 U256).insert index v⟩
          | .error _ => none
      | .ok none => some .newNotExisting
      | .error _ => none

/-- The cache after one read. -/
def load (db : StateDb) (c : Cache) : Query → Cache
  | .basic a => { c with accounts := c.accounts.alter a (loadBasic db a) }
  | .storage a i => { c with accounts := c.accounts.alter a (loadSlot db a i) }
  | .codeByHash h =>
      { c with contracts := c.contracts.alter h (fun e => e.or (some (db.codeByHashRef h))) }
  | .step _ => c

theorem entryLoaded_loadBasic (db : StateDb) (a : Address) (e : Option DbAccount) :
    EntryLoaded db a e (loadBasic db a e) := by
  cases e with
  | some acct => exact .same _
  | none =>
      cases hb : db.basicRef a with
      | error err => simpa [loadBasic, hb] using EntryLoaded.same none
      | ok o =>
          cases o with
          | none => simpa [loadBasic, hb] using EntryLoaded.missing hb
          | some info =>
              have : EntryLoaded db a none (some ⟨info, .none, ∅⟩) :=
                .account hb (fun s v hs => by simp at hs)
              simpa [loadBasic, hb] using this

theorem entryLoaded_loadSlot (db : StateDb) (a : Address) (i : U256) (e : Option DbAccount) :
    EntryLoaded db a e (loadSlot db a i e) := by
  cases e with
  | some acct =>
      unfold loadSlot
      simp only
      split
      · exact .same _
      · rename_i hc
        simp only [Bool.or_eq_true, not_or, Bool.not_eq_true, Option.isSome_eq_false_iff,
          Option.isNone_iff_eq_none] at hc
        split
        · rename_i v hv
          refine .slots hc.2 fun s => ?_
          rw [ExtTreeMap.getElem?_insert]
          by_cases hs : i = s
          · subst hs
            exact .inr ⟨hc.1, v, by simp, hv⟩
          · exact .inl (by simp [hs])
        · exact .same _
  | none =>
      cases hb : db.basicRef a with
      | error err => simpa [loadSlot, hb] using EntryLoaded.same none
      | ok o =>
          cases o with
          | none => simpa [loadSlot, hb] using EntryLoaded.missing hb
          | some info =>
              cases hv : db.storageRef a i with
              | error err => simpa [loadSlot, hb, hv] using EntryLoaded.same none
              | ok v =>
                  simp only [loadSlot, hb, hv]
                  refine .account hb fun s u hs => ?_
                  rw [ExtTreeMap.getElem?_insert] at hs
                  split at hs
                  · rename_i heq
                    simp only [Std.compare_eq_iff_eq] at heq
                    rw [← heq, hv, Option.some.inj hs]
                  · simp at hs

/-- **Reading stays within `Loaded`.** -/
theorem load_spec (db : StateDb) (c : Cache) (q : Query) : Loaded db c (c.load db q) := by
  cases q with
  | basic a =>
      refine ⟨fun a' => ?_, fun h => .inl rfl⟩
      simp only [load, ExtTreeMap.getElem?_alter, Std.compare_eq_iff_eq]
      split
      · rename_i heq
        subst heq
        exact entryLoaded_loadBasic db a _
      · exact .same _
  | storage a i =>
      refine ⟨fun a' => ?_, fun h => .inl rfl⟩
      simp only [load, ExtTreeMap.getElem?_alter, Std.compare_eq_iff_eq]
      split
      · rename_i heq
        subst heq
        exact entryLoaded_loadSlot db a i _
      · exact .same _
  | codeByHash h =>
      refine ⟨fun a => .same _, fun h' => ?_⟩
      simp only [load, ExtTreeMap.getElem?_alter, Std.compare_eq_iff_eq]
      split
      · rename_i heq
        subst heq
        cases hc : c.contracts[h]? with
        | none => exact .inr ⟨rfl, rfl⟩
        | some raw => exact .inl rfl
      · exact .inl rfl
  | step i => exact ⟨fun a => .same _, fun h => .inl rfl⟩

/-! ## Commits -/

/-- The record a commit stores: code gets its hash, and no hash means empty code. -/
def commitInfo (keccak256 : Bytes → B256) (acc : Account) : AccountInfo :=
  let hash :=
    match acc.code with
    | some raw =>
        -- only a hash that was never filled in is computed
        if !raw.isEmpty && acc.info.codeHash == KECCAK256_EMPTY then keccak256 raw
        else acc.info.codeHash
    | none => acc.info.codeHash
  { acc.info with codeHash := if hash = 0 then KECCAK256_EMPTY else hash }

/-- The entry of a changed account, `none` to leave it as it is. -/
def commitEntry (keccak256 : Bytes → B256) (acc : Account) (e : Option DbAccount) :
    Option DbAccount :=
  if !acc.touched then none
  else if acc.selfdestructed then some .newNotExisting
  -- a new account starts without the slots of an earlier one
  else if acc.created then some ⟨commitInfo keccak256 acc, .storageCleared, acc.storage⟩
  else
    -- a cleared account stays cleared: its other slots still read zero
    let old := e.getD ⟨.zero, .none, ∅⟩
    some ⟨commitInfo keccak256 acc,
      if old.accountState = .storageCleared then .storageCleared else .touched,
      old.storage ∪ acc.storage⟩

/-- The code of a changed account, under the hash it is filed at. -/
def commitCode (keccak256 : Bytes → B256) (acc : Account) : Option (B256 × Bytes) :=
  match acc.code with
  | some raw =>
      if acc.touched && !acc.selfdestructed && !raw.isEmpty then
        some (if acc.info.codeHash = KECCAK256_EMPTY then keccak256 raw else acc.info.codeHash, raw)
      else none
  | none => none

/-- `CacheDB::commit`. -/
def commit (keccak256 : Bytes → B256) (c : Cache) (st : Changes) : Cache where
  accounts := st.toList.foldl
    (fun m e => m.alter e.1 (fun old => (commitEntry keccak256 e.2 old).or old)) c.accounts
  contracts := st.toList.foldl
    (fun m e =>
      match commitCode keccak256 e.2 with
      -- code that is filed under the hash already stays
      | some (h, raw) => m.insertIfNew h raw
      | none => m)
    c.contracts

theorem committedInfo_commitInfo (keccak256 : Bytes → B256) (acc : Account) :
    CommittedInfo keccak256 acc (commitInfo keccak256 acc) := by
  refine ⟨rfl, rfl, fun h0 h1 => ?_, fun hc hh => ?_, fun raw hc hne hh hnz => ?_⟩
  · have h0' : acc.info.codeHash ≠ 0#256 := h0
    unfold commitInfo
    cases acc.code <;> simp [h0', h1]
  · unfold commitInfo
    cases hcode : acc.code with
    | none => rcases hh with hh | hh <;> simp [hh]
    | some raw =>
        rw [hcode, Option.getD_some] at hc
        rcases hh with hh | hh <;> simp [hh, hc]
  · have hnz' : keccak256 raw ≠ 0#256 := hnz
    simp [commitInfo, hc, hne, hh, hnz']

theorem entryCommitted_commitEntry (keccak256 : Bytes → B256) (acc : Account)
    (e : Option DbAccount) :
    EntryCommitted keccak256 (some acc) e ((commitEntry keccak256 acc e).or e) := by
  have hinfo := committedInfo_commitInfo keccak256 acc
  cases ht : acc.touched with
  | false =>
      have : EntryCommitted keccak256 (some acc) e e := .untouched fun _ h => Option.some.inj h ▸ ht
      simpa [commitEntry, ht] using this
  | true =>
      cases hd : acc.selfdestructed with
      | true => simpa [commitEntry, ht, hd] using EntryCommitted.destroyed ht hd
      | false =>
          cases hcr : acc.created with
          | true => simpa [commitEntry, ht, hd, hcr] using EntryCommitted.created ht hd hcr hinfo
          | false =>
              simp only [commitEntry, ht, hd, hcr, Bool.not_true, Bool.false_eq_true, if_false,
                Option.some_or]
              refine .changed ht hd hcr hinfo ?_ ?_ fun s => ?_
              · split
                · exact .inr rfl
                · exact .inl rfl
              · cases e with
                | none => simp
                | some old => simp
              · rw [ExtTreeMap.getElem?_union]
                cases e <;> simp

/-- Altering the entries of distinct keys: one that is named, and one that is not. -/
theorem foldl_alter_getElem? (f : Account → Option DbAccount → Option DbAccount)
    {l : List (Address × Account)} (hl : l.Pairwise (fun x y => x.1 ≠ y.1))
    (m : HashMap Address DbAccount) (a : Address) :
    (∀ acc, (a, acc) ∈ l → (l.foldl (fun m e => m.alter e.1 (f e.2)) m)[a]? = f acc m[a]?)
      ∧ ((∀ acc, (a, acc) ∉ l) → (l.foldl (fun m e => m.alter e.1 (f e.2)) m)[a]? = m[a]?) := by
  -- keys are distinct, so only the turn of `a` itself changes its entry
  induction l generalizing m with
  | nil => exact ⟨fun acc h => by simp at h, fun _ => rfl⟩
  | cons e l ih =>
      obtain ⟨hne, hl⟩ := List.pairwise_cons.mp hl
      obtain ⟨ihMem, ihNot⟩ := ih hl (m.alter e.1 (f e.2))
      refine ⟨fun acc h => ?_, fun h => ?_⟩
      · rw [List.foldl_cons]
        rcases List.mem_cons.mp h with rfl | h
        · rw [ihNot fun acc' hmem => hne _ hmem rfl]
          simp
        · rw [ihMem acc h, ExtTreeMap.getElem?_alter, if_neg]
          simpa using hne _ h
      · rw [List.foldl_cons, ihNot fun acc hmem => h acc (List.mem_cons_of_mem _ hmem),
          ExtTreeMap.getElem?_alter, if_neg]
        simp only [Std.compare_eq_iff_eq]
        intro heq
        subst heq
        exact h e.2 List.mem_cons_self

theorem code_of_commitCode {keccak256 : Bytes → B256} {acc : Account} {h : B256} {raw : Bytes}
    (hc : commitCode keccak256 acc = some (h, raw)) :
    acc.code = some raw ∧ raw ≠ []
      ∧ (acc.info.codeHash = h ∨ acc.info.codeHash = KECCAK256_EMPTY ∧ keccak256 raw = h) := by
  unfold commitCode at hc
  split at hc
  · rename_i raw' hcode
    split at hc
    · rename_i hcond
      simp only [Bool.and_eq_true, Bool.not_eq_true', List.isEmpty_eq_false_iff] at hcond
      simp only [Option.some.injEq, Prod.mk.injEq] at hc
      refine ⟨hc.2 ▸ hcode, hc.2 ▸ hcond.2, ?_⟩
      by_cases hhash : acc.info.codeHash = KECCAK256_EMPTY
      · exact .inr ⟨hhash, hc.2 ▸ (if_pos hhash).symm.trans hc.1⟩
      · exact .inl ((if_neg hhash).symm.trans hc.1)
    · cases hc
  · cases hc

/-- Filing code where a hash is free leaves what is filed alone. -/
theorem foldl_insertIfNew_getElem? (keccak256 : Bytes → B256) (l : List (Address × Account))
    (m : HashMap B256 Bytes) (h : B256) :
    let m' := l.foldl
      (fun m e =>
        match commitCode keccak256 e.2 with
        | some (h, raw) => m.insertIfNew h raw
        | none => m) m
    m'[h]? = m[h]?
      ∨ m[h]? = none ∧ ∃ e ∈ l, ∃ raw, commitCode keccak256 e.2 = some (h, raw)
          ∧ m'[h]? = some raw := by
  -- the first of the list to file code at `h` decides; later ones find the hash taken
  induction l generalizing m with
  | nil => exact .inl rfl
  | cons e l ih =>
      simp only [List.foldl_cons]
      cases hc : commitCode keccak256 e.2 with
      | none =>
          rcases ih m with h1 | ⟨h1, e', he', raw, h2, h3⟩
          · exact .inl h1
          · exact .inr ⟨h1, e', List.mem_cons_of_mem _ he', raw, h2, h3⟩
      | some p =>
          obtain ⟨h₀, raw₀⟩ := p
          have hins : (m.insertIfNew h₀ raw₀)[h]?
              = if h₀ = h ∧ m[h]? = none then some raw₀ else m[h]? := by
            rw [ExtTreeMap.getElem?_insertIfNew]
            by_cases hh : h₀ = h
            · subst hh
              simp
            · simp [hh]
          rcases ih (m.insertIfNew h₀ raw₀) with h1 | ⟨h1, e', he', raw, h2, h3⟩
          · by_cases hh : h₀ = h ∧ m[h]? = none
            · rw [hins, if_pos hh] at h1
              exact .inr ⟨hh.2, e, List.mem_cons_self, raw₀, hh.1 ▸ hc, h1⟩
            · rw [hins, if_neg hh] at h1
              exact .inl h1
          · rw [hins] at h1
            split at h1
            · cases h1
            · exact .inr ⟨h1, e', List.mem_cons_of_mem _ he', raw, h2, h3⟩

/-- Whatever is filed on the way is there in the end. -/
theorem foldl_insertIfNew_isSome (keccak256 : Bytes → B256) {l : List (Address × Account)}
    {m : HashMap B256 Bytes} {h : B256}
    (hfiled : (m[h]?).isSome ∨ ∃ e ∈ l, ∃ raw, commitCode keccak256 e.2 = some (h, raw)) :
    ((l.foldl
      (fun m e =>
        match commitCode keccak256 e.2 with
        | some (h, raw) => m.insertIfNew h raw
        | none => m) m)[h]?).isSome := by
  induction l generalizing m with
  | nil => simpa using hfiled
  | cons e l ih =>
      rw [List.foldl_cons]
      refine ih ?_
      rcases hfiled with hm | ⟨e', he', raw, hraw⟩
      · left
        cases hc : commitCode keccak256 e.2 with
        | none => exact hm
        | some p =>
            simp only [ExtTreeMap.getElem?_insertIfNew]
            split
            · rfl
            · exact hm
      · rcases List.mem_cons.mp he' with rfl | he'
        · left
          -- where it is not filed, other code is already
          rw [hraw]
          simp
        · exact .inr ⟨e', he', raw, hraw⟩

/-- The entry of a changed account. -/
theorem accounts_commit {keccak256 : Bytes → B256} {c : Cache} {st : Changes} {a : Address}
    {acc : Account} (hst : st[a]? = some acc) :
    (c.commit keccak256 st).accounts[a]?
      = (commitEntry keccak256 acc c.accounts[a]?).or c.accounts[a]? := by
  have hdist : st.toList.Pairwise (fun x y => x.1 ≠ y.1) :=
    ExtTreeMap.distinct_keys_toList.imp fun h => by simpa using h
  obtain ⟨hmem, _⟩ := foldl_alter_getElem?
    (fun acc old => (commitEntry keccak256 acc old).or old) hdist c.accounts a
  rw [commit, hmem acc (ExtTreeMap.mem_toList_iff_getElem?_eq_some.mpr hst)]

theorem accounts_commit_none {keccak256 : Bytes → B256} {c : Cache} {st : Changes} {a : Address}
    (hst : st[a]? = none) : (c.commit keccak256 st).accounts[a]? = c.accounts[a]? := by
  have hdist : st.toList.Pairwise (fun x y => x.1 ≠ y.1) :=
    ExtTreeMap.distinct_keys_toList.imp fun h => by simpa using h
  obtain ⟨_, hnot⟩ := foldl_alter_getElem?
    (fun acc old => (commitEntry keccak256 acc old).or old) hdist c.accounts a
  have hfree : ∀ acc, (a, acc) ∉ st.toList := fun acc h => by
    rw [ExtTreeMap.mem_toList_iff_getElem?_eq_some, hst] at h
    cases h
  rw [commit, hnot hfree]

/-- Code stays as it is filed; what is new is the code of a changed account. -/
theorem contracts_commit (keccak256 : Bytes → B256) (c : Cache) (st : Changes) (h : B256) :
    (c.commit keccak256 st).contracts[h]? = c.contracts[h]?
      ∨ c.contracts[h]? = none ∧ ∃ (a : Address) (acc : Account) (raw : Bytes),
          st[a]? = some acc ∧ commitCode keccak256 acc = some (h, raw)
            ∧ (c.commit keccak256 st).contracts[h]? = some raw := by
  rcases foldl_insertIfNew_getElem? keccak256 st.toList c.contracts h with
    h1 | ⟨h1, ⟨a, acc⟩, he, raw, h2, h3⟩
  · exact .inl h1
  · exact .inr ⟨h1, a, acc, raw, ExtTreeMap.mem_toList_iff_getElem?_eq_some.mp he, h2, h3⟩

/-- A commit files no empty code. -/
theorem empty_of_contracts_commit {keccak256 : Bytes → B256} {c : Cache} {st : Changes} {h : B256}
    (hraw : (c.commit keccak256 st).contracts[h]? = some []) : c.contracts[h]? = some [] := by
  rcases contracts_commit keccak256 c st h with hsame | ⟨_, _, _, raw, _, hcode, hnew⟩
  · exact hsame ▸ hraw
  · obtain ⟨_, hne, _⟩ := code_of_commitCode hcode
    exact absurd (Option.some.inj (hnew.symm.trans hraw)) hne

theorem isSome_contracts_commit {keccak256 : Bytes → B256} {c : Cache} {st : Changes} {a : Address}
    {acc : Account} {h : B256} {raw : Bytes} (hst : st[a]? = some acc)
    (hc : commitCode keccak256 acc = some (h, raw)) :
    ((c.commit keccak256 st).contracts[h]?).isSome :=
  foldl_insertIfNew_isSome keccak256
    (.inr ⟨(a, acc), ExtTreeMap.mem_toList_iff_getElem?_eq_some.mpr hst, raw, hc⟩)

/-- What is answered about a changed account that is still there. -/
theorem basic_commit {keccak256 : Bytes → B256} {db : StateDb} {c : Cache} {st : Changes}
    {a : Address} {acc : Account} (hst : st[a]? = some acc) (ht : acc.touched = true)
    (hd : acc.selfdestructed = false) :
    (c.commit keccak256 st).basic db a = .ok (some (commitInfo keccak256 acc)) := by
  rw [basic, accounts_commit hst, commitEntry, ht, hd]
  cases acc.created with
  | true => rfl
  | false =>
      -- whether it was cleared or not, it is there
      simp only [Bool.not_true, Bool.false_eq_true, if_false, Option.some_or]
      split <;> rfl

/-- **Committing stays within `Committed`.** -/
theorem commit_spec (keccak256 : Bytes → B256) (c : Cache) (st : Changes) :
    Committed keccak256 st c (c.commit keccak256 st) := by
  refine ⟨fun a => ?_, fun h => ?_⟩
  · cases hst : st[a]? with
    | some acc =>
        rw [accounts_commit hst]
        exact entryCommitted_commitEntry keccak256 acc _
    | none =>
        rw [accounts_commit_none hst]
        exact .untouched fun acc h => by cases h
  · rcases contracts_commit keccak256 c st h with h1 | ⟨h1, a, acc, raw, hst, h2, h3⟩
    · exact .inl h1
    · obtain ⟨hcode, hne, hhash⟩ := code_of_commitCode h2
      exact .inr ⟨h1, a, acc, raw, hst, hcode, hne, h3, hhash⟩

/-- Code that reads filed was asked for. -/
theorem contracts_foldl_load {db : StateDb} {qs : List Query} {c : Cache} (h : B256) :
    (qs.foldl (load db) c).contracts[h]? = c.contracts[h]? ∨ .codeByHash h ∈ qs := by
  induction qs generalizing c with
  | nil => exact .inl rfl
  | cons q qs ih =>
      rw [List.foldl_cons]
      rcases ih (c := c.load db q) with hsame | hmem
      · by_cases hq : q = .codeByHash h
        · exact .inr (List.mem_cons.mpr (.inl hq.symm))
        · left
          rw [hsame]
          cases q with
          | codeByHash h' =>
              have hne : h' ≠ h := fun heq => hq (by rw [heq])
              simp [load, ExtTreeMap.getElem?_alter, hne]
          | _ => rfl
      · exact .inr (List.mem_cons_of_mem _ hmem)

end Cache

/-- revm with this overlay and the given executions. -/
def Evm.ofCacheDb (keccak256 : Bytes → B256)
    (replay runSystemCall : CfgEnv → BlockEnv → TxEnv → Execution) : Evm where
  replay := replay
  runSystemCall := runSystemCall
  load := fun db c q => c.load db q
  commit := fun c st => c.commit keccak256 st
  hashSlow := keccak256
  load_spec := Cache.load_spec
  commit_spec := Cache.commit_spec keccak256

/-! ## The smallest executions -/

/-- The outcome of counting a transaction. -/
def countingResult (tx : TxEnv) (info : AccountInfo) : ResultAndState where
  result := .success [] 21000
  state := (∅ : Changes).insert tx.caller
    { info := { info with nonce := tx.nonce + 1 }
      code := none
      storage := ∅
      touched := true
      selfdestructed := false
      created := false }

/-- Validate the header and the nonce, then count the transaction and do nothing else. -/
def countingReplay (cfg : CfgEnv) (block : BlockEnv) (tx : TxEnv) : Execution :=
  if Evm.validHeader cfg.spec block then
    .ask (.basic tx.caller) fun o =>
      let info := Option.getD o .zero
      if info.nonce = tx.nonce ∧ tx.nonce < tx.nonce + 1 then
        .done (.ok (countingResult tx info))
      else .done (.error (.transaction "nonce"))
  else .done (.error (.header "not set"))

/-- revm with executions that only count. -/
def Evm.counting (keccak256 : Bytes → B256) : Evm :=
  .ofCacheDb keccak256 countingReplay (fun _ _ _ => .done (.ok ⟨.success [] 0, ∅⟩))

section Counting

variable {keccak256 : Bytes → B256} {db : StateDb} {cfg : CfgEnv} {block : BlockEnv} {tx : TxEnv}
  {c c' : Cache} {r : ResultAndState}

theorem counting_run_header (hv : Evm.validHeader cfg.spec block = false) :
    (Evm.counting keccak256).run db ((Evm.counting keccak256).replay cfg block tx) c
      = .error (.header "not set") := by
  simp [Evm.run, Evm.counting, Evm.ofCacheDb, countingReplay, hv, Dialogue.exec]

theorem counting_run_database {e : DbError} (hv : Evm.validHeader cfg.spec block = true)
    (hb : c.basic db tx.caller = .error e) :
    (Evm.counting keccak256).run db ((Evm.counting keccak256).replay cfg block tx) c
      = .error (.database e) := by
  simp [Evm.run, Evm.counting, Evm.ofCacheDb, countingReplay, hv, Dialogue.exec, Evm.overlay,
    Cache.answer, hb, Except.map]

theorem counting_run {o : Option AccountInfo} (hv : Evm.validHeader cfg.spec block = true)
    (hb : c.basic db tx.caller = .ok o) :
    (Evm.counting keccak256).run db ((Evm.counting keccak256).replay cfg block tx) c
      = if (o.getD .zero).nonce = tx.nonce ∧ tx.nonce < tx.nonce + 1 then
          .ok (countingResult tx (o.getD .zero), c.load db (.basic tx.caller))
        else .error (.transaction "nonce") := by
  simp only [Evm.run, Evm.counting, Evm.ofCacheDb, countingReplay, hv, if_true, Dialogue.exec,
    Evm.overlay, Cache.answer, hb, Except.map]
  split
  · rename_i h
    split at h
    · rename_i hn
      simp only [Dialogue.exec, Except.ok.injEq, Prod.mk.injEq] at h
      rw [if_pos hn, ← h.1, ← h.2]
    · simp [Dialogue.exec] at h
  · rename_i h
    split at h
    · simp [Dialogue.exec] at h
    · rename_i hn
      simp only [Dialogue.exec, Except.ok.injEq, Prod.mk.injEq, Except.error.injEq] at h
      rw [if_neg hn, ← h.1]
  · rename_i h
    split at h <;> simp [Dialogue.exec] at h

theorem counting_headerRules : (Evm.counting keccak256).HeaderRules := by
  intro db cfg block tx c
  cases hv : Evm.validHeader cfg.spec block with
  | false => simp [counting_run_header hv]
  | true =>
      cases hb : c.basic db tx.caller with
      | error e => simp [counting_run_database hv hb]
      | ok o =>
          rw [counting_run hv hb]
          split <;> simp

/-- What an accepted transaction shows and leaves. -/
theorem counting_accepted
    (h : (Evm.counting keccak256).run db ((Evm.counting keccak256).replay cfg block tx) c
      = .ok (r, c')) :
    ∃ info, (info = .zero ∨ c.basic db tx.caller = .ok (some info))
      ∧ c.nonce db tx.caller = .ok tx.nonce ∧ tx.nonce < tx.nonce + 1
      ∧ r = countingResult tx info ∧ c' = c.load db (.basic tx.caller) := by
  cases hv : Evm.validHeader cfg.spec block with
  | false =>
      rw [counting_run_header hv] at h
      cases h
  | true =>
      cases hb : c.basic db tx.caller with
      | error e =>
          rw [counting_run_database hv hb] at h
          cases h
      | ok o =>
          rw [counting_run hv hb] at h
          split at h
          · rename_i hn
            simp only [Except.ok.injEq, Prod.mk.injEq] at h
            have hinfo : o.getD .zero = .zero
                ∨ Except.ok o = (.ok (some (o.getD .zero)) : Except DbError (Option AccountInfo)) := by
              cases o with
              | none => exact .inl rfl
              | some info => exact .inr rfl
            exact ⟨o.getD .zero, hinfo, by simp [Cache.nonce, hb, Except.map, hn.1], hn.2, h.1.symm,
              h.2.symm⟩
          · cases h

/-- An account without code has none after a transaction is counted. -/
theorem counting_codeless {a : Address} (hold : c.Codeless db a)
    (h : (Evm.counting keccak256).run db ((Evm.counting keccak256).replay cfg block tx) c
      = .ok (r, c')) : ((Evm.counting keccak256).commit c' r.state).Codeless db a := by
  obtain ⟨info, hinfo, _, _, rfl, rfl⟩ := counting_accepted h
  have hc := (Evm.counting keccak256).commit_spec (c.load db (.basic tx.caller))
    (countingResult tx info).state
  intro info' hinfo'
  by_cases ha : tx.caller = a
  · subst ha
    -- the record is the one before, and was without code
    have hempty : info.codeHash = 0 ∨ info.codeHash = KECCAK256_EMPTY := by
      rcases hinfo with rfl | hread
      · exact .inl rfl
      · exact hold info hread
    have hentry := hc.accounts tx.caller
    rw [show (countingResult tx info).state[tx.caller]? = some _ from
      ExtTreeMap.getElem?_insert_self] at hentry
    unfold Cache.basic at hinfo'
    generalize (c.load db (.basic tx.caller)).accounts[tx.caller]? = e,
      ((Evm.counting keccak256).commit (c.load db (.basic tx.caller))
        (countingResult tx info).state).accounts[tx.caller]? = e' at hentry hinfo'
    cases hentry with
    | untouched hu => exact absurd (hu _ rfl) (by simp)
    | destroyed _ hd => cases hd
    | created _ _ hcr _ => cases hcr
    | changed _ _ _ hi _ _ _ =>
        simp only at hinfo'
        split at hinfo'
        · cases hinfo'
        · obtain rfl := Option.some.inj (Except.ok.inj hinfo')
          exact .inr (hi.emptyCode rfl hempty)
  · rw [hc.basic_untouched (by simp [countingResult, ha]), (Cache.load_spec db c _).basic] at hinfo'
    exact hold info' hinfo'

theorem counting_nonceRules : (Evm.counting keccak256).NonceRules where
  matched := fun _ h => (counting_accepted h).choose_spec.2.1
  bumped := by
    intro db cfg block tx c c' r _ h _
    obtain ⟨info, _, _, hlt, rfl, rfl⟩ := counting_accepted h
    exact ⟨tx.nonce + 1,
      ((Evm.counting keccak256).commit_spec _ _).nonce_changed ExtTreeMap.getElem?_insert_self
        rfl rfl, hlt⟩
  kept := by
    intro db cfg block tx c c' r _ h a n hlasting hn _
    refine ⟨hlasting.imp_right fun hold => counting_codeless hold h, ?_⟩
    obtain ⟨info, _, hm, hlt, rfl, rfl⟩ := counting_accepted h
    have hc := (Evm.counting keccak256).commit_spec (c.load db (.basic tx.caller))
      (countingResult tx info).state
    -- the sender's nonce is the only one that a counted transaction changes
    by_cases ha : tx.caller = a
    · subst ha
      rw [hm] at hn
      refine ⟨tx.nonce + 1, hc.nonce_changed ExtTreeMap.getElem?_insert_self rfl rfl, ?_⟩
      rw [← Except.ok.inj hn]
      exact BitVec.le_of_lt hlt
    · have hst : (countingResult tx info).state[a]? = none := by
        simp [countingResult, ha]
      refine ⟨n, ?_, BitVec.le_refl n⟩
      rw [Cache.nonce, hc.basic_untouched hst, (Cache.load_spec db c _).basic]
      exact hn

/-- What an execution of the counting evm ends with, whichever way it started. -/
theorem counting_starts {db : StateDb} {e : Execution} {c c' : Cache} {r : ResultAndState}
    (he : (Evm.counting keccak256).Starts e)
    (h : (Evm.counting keccak256).run db e c = .ok (r, c')) :
    r.state = ∅ ∨ ∃ tx info, r = countingResult tx info
      ∧ (info = .zero ∨ c.basic db tx.caller = .ok (some info)) := by
  obtain ⟨cfg, block, tx, rfl | rfl⟩ := he
  · cases hv : Evm.validHeader cfg.spec block with
    | false =>
        rw [counting_run_header hv] at h
        cases h
    | true =>
        cases hb : c.basic db tx.caller with
        | error e =>
            rw [counting_run_database hv hb] at h
            cases h
        | ok o =>
            rw [counting_run hv hb] at h
            split at h
            · simp only [Except.ok.injEq, Prod.mk.injEq] at h
              refine .inr ⟨tx, o.getD .zero, h.1.symm, ?_⟩
              cases o with
              | none => exact .inl rfl
              | some info => exact .inr hb
            · cases h
  · simp only [Evm.run, Evm.counting, Evm.ofCacheDb, Dialogue.exec, Except.ok.injEq,
      Prod.mk.injEq] at h
    exact .inl (by rw [← h.1])

/-- The account it changes has the code hash it had, and brings no code. -/
theorem countingResult_account {tx : TxEnv} {info : AccountInfo} {a : Address} {acc : Account}
    (h : (countingResult tx info).state[a]? = some acc) :
    acc.info.codeHash = info.codeHash ∧ acc.code = none ∧ acc.created = false := by
  simp only [countingResult, ExtTreeMap.getElem?_insert] at h
  split at h
  · rw [← Option.some.inj h]
    exact ⟨rfl, rfl, rfl⟩
  · simp at h

/-- Counting changes the nonce of an account and nothing about its code. -/
theorem counting_codeRules : (Evm.counting keccak256).CodeRules keccak256 := by
  constructor
  · intro db e c c' r _ _ he h a acc acct hst htouched hkept hacct
    rcases counting_starts he h with hnone | ⟨tx, info, rfl, hinfo⟩
    · rw [hnone] at hst
      simp at hst
    · obtain ⟨hhash, hcode, hcreated⟩ := countingResult_account hst
      have hentry := ((Evm.counting keccak256).commit_spec c' (countingResult tx info).state).accounts a
      rw [hst, hacct] at hentry
      generalize c'.accounts[a]? = old at hentry
      cases hentry with
      | untouched hu => exact absurd (hu acc rfl) (by simp [htouched])
      | destroyed _ hd => exact absurd hd (by simp [hkept])
      | created _ _ hc _ => exact absurd hc (by simp [hcreated])
      | changed _ _ _ hi _ _ _ =>
          by_cases hempty : acc.info.codeHash = 0 ∨ acc.info.codeHash = KECCAK256_EMPTY
          · exact .inl (hi.emptyCode (by rw [hcode]; rfl) hempty)
          · simp only [not_or] at hempty
            rw [← hi.codeHash hempty.1 hempty.2] at hhash
            rcases hinfo with rfl | hb
            · exact absurd (hi.codeHash hempty.1 hempty.2 ▸ hhash) hempty.1
            · exact .inr (.inl ⟨_, info, hb, hhash.symm⟩)
  · intro db e c c' r _ _ he h hash raw hfree hfiled
    rcases ((Evm.counting keccak256).commit_spec c' r.state).contracts hash with
      hkept | ⟨_, a, acc, raw', hst, hcode, _⟩
    · rw [hkept, hfree] at hfiled
      cases hfiled
    · rcases counting_starts he h with hnone | ⟨tx, info, rfl, _⟩
      · rw [hnone] at hst
        simp at hst
      · rw [(countingResult_account hst).2.1] at hcode
        cases hcode

end Counting

end EvmState
