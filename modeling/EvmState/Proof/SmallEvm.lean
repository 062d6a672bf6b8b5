import EvmState.SmallEvm

/-!
# The small EVM keeps the rules

What is assumed of revm's executions holds of `Evm.small`. What it asks for has a reason
(`Justified`): an account that is loaded is the caller, the target or the callee of a `CALL`,
and code is looked up under the hash of an account that was. What it commits is the caller
with a higher nonce, and perhaps one new account with its code.
-/

namespace EvmState

open Std

namespace SmallEvm

variable {view : (q : Query) → Except DbError q.Answer} {block : BlockEnv} {q : Query}

/-! ## What is asked, and why -/

/-- A `CALL` among the questions, or an account among them with the hash that is asked for. -/
inductive Justified (view : (q : Query) → Except DbError q.Answer) (asked : List Query) :
    Query → Prop
  | step (i : Interp) : Justified view asked (.step i)
  | callee {i : Interp} {a : Address} : .step i ∈ asked → i.opcode = Opcode.CALL →
      (i.stack[1]?).map addressFromWord = some a → Justified view asked (.basic a)
  | code {a : Address} {info : AccountInfo} : .basic a ∈ asked →
      view (.basic a) = .ok (some info) → Justified view asked (.codeByHash info.codeHash)

theorem Justified.mono {asked asked' : List Query} (hsub : ∀ q ∈ asked, q ∈ asked')
    (h : Justified view asked q) : Justified view asked' q := by
  cases h with
  | step i => exact .step i
  | callee hi hop ha => exact .callee (hsub _ hi) hop ha
  | code ha hinfo => exact .code (hsub _ ha) hinfo

/-- A lookup asks for the account, then for the code under its hash. -/
theorem asked_lookup {a : Address} (h : q ∈ (lookup a).asked view) :
    q = .basic a ∨ Justified view ((lookup a).asked view) q := by
  rcases Dialogue.mem_asked_ask.mp h with rfl | ⟨o, ho, hq⟩
  · exact .inl rfl
  · right
    cases o with
    | none => cases hq
    | some info =>
        dsimp only at hq
        split at hq
        · cases hq
        · rcases Dialogue.mem_asked_ask.mp hq with rfl | ⟨_, _, hq⟩
          · exact .code (Dialogue.mem_asked_ask.mpr (.inl rfl)) ho
          · cases hq

/-- Only a `CALL` calls, whom the second word of its stack names. -/
theorem callee_of_next {f f' : Frame} {callee : Address} {retOffset retSize : Nat}
    (h : f.next block = .call callee retOffset retSize f') :
    f.interp.opcode = Opcode.CALL ∧ (f.interp.stack[1]?).map addressFromWord = some callee := by
  unfold Frame.next at h
  split at h
  · cases h
  split at h
  · cases h
  split at h
  · cases h
  split at h
  · split at h <;> cases h
  split at h
  · split at h <;> cases h
  split at h
  · rename_i hop
    split at h
    · rename_i hstack
      split at h
      · cases h
        exact ⟨hop, by simp [Frame.interp, hstack]⟩
      · cases h
    · cases h
  · cases h

/-- **Whatever a frame asks for has its reason**, and whatever its callees ask for. -/
theorem justified_runFrame {steps : Nat} {f : Frame} (h : q ∈ (runFrame block steps f).asked view) :
    Justified view ((runFrame block steps f).asked view) q := by
  induction steps generalizing f q with
  | zero => cases h
  | succ steps ih =>
      rw [runFrame] at h ⊢
      rcases Dialogue.mem_asked_ask.mp h with rfl | ⟨u, hu, hq⟩
      · exact .step _
      have hstep : .step f.interp ∈ (Dialogue.ask (.step f.interp) fun _ =>
          (f.next block).run (runFrame block steps)).asked view :=
        Dialogue.mem_asked_ask.mpr (.inl rfl)
      have hrest : ∀ p ∈ ((f.next block).run (runFrame block steps)).asked view,
          p ∈ (Dialogue.ask (.step f.interp) fun _ =>
            (f.next block).run (runFrame block steps)).asked view :=
        fun p hp => Dialogue.mem_asked_ask.mpr (.inr ⟨u, hu, hp⟩)
      cases hnext : f.next block with
      | go f' =>
          rw [hnext] at hq hrest
          exact (ih hq).mono hrest
      | halt r =>
          rw [hnext] at hq
          cases hq
      | call callee retOffset retSize f' =>
          rw [hnext] at hq hrest hstep
          obtain ⟨hop, hcallee⟩ := callee_of_next hnext
          rcases Dialogue.mem_asked_bind.mp hq with hq | ⟨found, hfound, hq⟩
          · have hin := fun p hp => hrest p (Dialogue.mem_asked_bind.mpr (.inl hp))
            rcases asked_lookup hq with rfl | hj
            · exact .callee hstep hop hcallee
            · exact hj.mono hin
          rcases Dialogue.mem_asked_bind.mp hq with hq | ⟨r, hr, hq⟩
          · refine (ih hq).mono fun p hp => hrest p ?_
            exact Dialogue.mem_asked_bind.mpr
              (.inr ⟨found, hfound, Dialogue.mem_asked_bind.mpr (.inl hp)⟩)
          · refine (ih hq).mono fun p hp => hrest p ?_
            exact Dialogue.mem_asked_bind.mpr
              (.inr ⟨found, hfound, Dialogue.mem_asked_bind.mpr (.inr ⟨r, hr, hp⟩)⟩)

section Replay

variable {keccak256 : Bytes → B256} {tx : TxEnv} {info : AccountInfo}

theorem asked_execute (h : q ∈ (execute keccak256 block tx info).asked view) :
    (∃ a, q = .basic a ∧ (tx.kind = .call a ∨ tx.kind = .create))
      ∨ Justified view ((execute keccak256 block tx info).asked view) q := by
  unfold execute at h ⊢
  cases hk : tx.kind with
  | call target =>
      rw [hk] at h
      dsimp only at h ⊢
      rcases Dialogue.mem_asked_bind.mp h with hq | ⟨found, hfound, hq⟩
      · rcases asked_lookup hq with rfl | hj
        · exact .inl ⟨target, rfl, .inl rfl⟩
        · exact .inr (hj.mono fun p hp => Dialogue.mem_asked_bind.mpr (.inl hp))
      · rw [Dialogue.asked_bind_done] at hq
        refine .inr ((justified_runFrame hq).mono fun p hp => ?_)
        refine Dialogue.mem_asked_bind.mpr (.inr ⟨found, hfound, ?_⟩)
        rwa [Dialogue.asked_bind_done]
  | create =>
      rw [hk] at h
      dsimp only at h ⊢
      rcases Dialogue.mem_asked_ask.mp h with rfl | ⟨o, ho, hq⟩
      · exact .inl ⟨_, rfl, .inr rfl⟩
      · right
        split at hq
        · rename_i hfree
          rw [Dialogue.asked_bind_done] at hq
          refine (justified_runFrame hq).mono fun p hp => ?_
          refine Dialogue.mem_asked_ask.mpr (.inr ⟨o, ho, ?_⟩)
          rwa [if_pos hfree, Dialogue.asked_bind_done]
        · cases hq

/-- **What a transaction asks for**: the caller, where it goes, and what has its reason. -/
theorem asked_replay (cfg : CfgEnv) (h : q ∈ (replay keccak256 cfg block tx).asked view) :
    (∃ a, q = .basic a ∧ (a = tx.caller ∨ tx.kind = .call a ∨ tx.kind = .create))
      ∨ Justified view ((replay keccak256 cfg block tx).asked view) q := by
  unfold replay at h ⊢
  rcases Dialogue.mem_asked_bind.mp h with hq | ⟨caller, hcaller, hq⟩
  · rcases asked_lookup hq with rfl | hj
    · exact .inl ⟨_, rfl, .inl rfl⟩
    · exact .inr (hj.mono fun p hp => Dialogue.mem_asked_bind.mpr (.inl hp))
  · -- a transaction that is refused asks nothing more
    dsimp only at hq
    split at hq
    · cases hq
    split at hq
    · cases hq
    split at hq
    · cases hq
    rename_i hnonce hcode hvalue
    rcases asked_execute hq with ⟨a, rfl, ha⟩ | hj
    · exact .inl ⟨a, rfl, .inr ha⟩
    · refine .inr (hj.mono fun p hp => Dialogue.mem_asked_bind.mpr (.inr ⟨caller, hcaller, ?_⟩))
      dsimp only
      rwa [if_neg hnonce, if_neg hcode, if_neg hvalue]

/-! ## What is changed -/

theorem eval_lookup {a : Address} {found : Option AccountInfo × Bytes}
    (h : (lookup a).eval view = .ok found) : view (.basic a) = .ok found.1 := by
  rw [lookup, Dialogue.eval] at h
  cases ho : view (.basic a) with
  | error e =>
      rw [ho] at h
      cases h
  | ok o =>
      rw [ho] at h
      cases o with
      | none =>
          obtain rfl := Except.ok.inj h
          rfl
      | some info =>
          dsimp only at h
          split at h
          · obtain rfl := Except.ok.inj h
            rfl
          · rw [Dialogue.eval] at h
            split at h
            · obtain rfl := Except.ok.inj h
              rfl
            · cases h

/-- An account in the changes: a sender with the hash it had, or one new account with its code. -/
inductive Changed (keccak256 : Bytes → B256) (view : (q : Query) → Except DbError q.Answer)
    (a : Address) : Account → Prop
  | sent {o : Option AccountInfo} {n : U64} : view (.basic a) = .ok o →
      Changed keccak256 view a
        { info := { o.getD .zero with nonce := n }
          code := none
          storage := ∅
          touched := true
          selfdestructed := false
          created := false }
  | deployed {o : Option AccountInfo} (code : Bytes) : view (.basic a) = .ok o →
      free o = true → Changed keccak256 view a (deployedAccount keccak256 code)

theorem changed_sent {o : Option AccountInfo} {a : Address} {acc : Account}
    (ho : view (.basic tx.caller) = .ok o) (h : (sent tx (o.getD .zero))[a]? = some acc) :
    Changed keccak256 view a acc := by
  simp only [sent, countingResult, ExtTreeMap.getElem?_insert, Std.compare_eq_iff_eq] at h
  split at h
  · rename_i heq
    subst heq
    exact Option.some.inj h ▸ .sent ho
  · simp at h

theorem changed_execute {o : Option AccountInfo} {r : ResultAndState} {a : Address} {acc : Account}
    (ho : view (.basic tx.caller) = .ok o)
    (h : (execute keccak256 block tx (o.getD .zero)).eval view = .ok (.ok r))
    (hst : r.state[a]? = some acc) : Changed keccak256 view a acc := by
  unfold execute at h
  cases hk : tx.kind with
  | call target =>
      rw [hk] at h
      obtain ⟨found, _, h⟩ := Dialogue.eval_bind_ok h
      obtain ⟨halted, _, h⟩ := Dialogue.eval_bind_ok h
      obtain rfl := Except.ok.inj (Except.ok.inj h)
      exact changed_sent ho hst
  | create =>
      rw [hk] at h
      dsimp only at h
      rw [Dialogue.eval] at h
      cases hnew : view (.basic (createAddress keccak256 tx.caller tx.nonce)) with
      | error e =>
          rw [hnew] at h
          cases h
      | ok o' =>
          rw [hnew] at h
          dsimp only at h
          split at h
          · rename_i hfree
            obtain ⟨halted, _, h⟩ := Dialogue.eval_bind_ok h
            obtain rfl := Except.ok.inj (Except.ok.inj h)
            cases halted with
            | failed => exact changed_sent ho hst
            | returned code =>
                simp only [deployed, ExtTreeMap.getElem?_insert, Std.compare_eq_iff_eq] at hst
                split at hst
                · rename_i heq
                  subst heq
                  exact Option.some.inj hst ▸ .deployed code hnew hfree.1
                · exact changed_sent ho hst
          · obtain rfl := Except.ok.inj (Except.ok.inj h)
            exact changed_sent ho hst

/-- **What a transaction changes.** -/
theorem changed_replay (cfg : CfgEnv) {r : ResultAndState} {a : Address} {acc : Account}
    (h : (replay keccak256 cfg block tx).eval view = .ok (.ok r)) (hst : r.state[a]? = some acc) :
    Changed keccak256 view a acc := by
  obtain ⟨caller, hcaller, h⟩ := Dialogue.eval_bind_ok h
  dsimp only at h
  -- one that is refused has no result
  split at h
  · cases Except.ok.inj h
  split at h
  · cases Except.ok.inj h
  split at h
  · cases Except.ok.inj h
  · exact changed_execute (eval_lookup hcaller) h hst

end Replay

/-! ## The rule about code -/

section Code

variable {keccak256 : Bytes → B256} {db : StateDb} {c c' : Cache} {e : Execution}
  {r : ResultAndState} {a : Address} {acc : Account} {h : B256}

theorem changed_of_starts (he : (Evm.small keccak256).Starts e)
    (hrun : (Evm.small keccak256).run db e c = .ok (r, c')) (hst : r.state[a]? = some acc) :
    Changed keccak256 (c.answer db) a acc := by
  obtain ⟨heval, _⟩ := Evm.eval_of_run hrun
  obtain ⟨cfg, block, tx, rfl | rfl⟩ := he
  · exact changed_replay cfg heval hst
  · obtain rfl := Except.ok.inj (Except.ok.inj heval)
    simp at hst

/-- Code that an execution looked up belongs to an account. -/
theorem contracts_of_starts (he : (Evm.small keccak256).Starts e)
    (hrun : (Evm.small keccak256).run db e c = .ok (r, c')) :
    c'.contracts[h]? = c.contracts[h]?
      ∨ ∃ a info, c.basic db a = .ok (some info) ∧ info.codeHash = h := by
  obtain ⟨_, rfl⟩ := Evm.eval_of_run hrun
  refine (Cache.contracts_foldl_load h).imp_right fun hasked => ?_
  obtain ⟨cfg, block, tx, rfl | rfl⟩ := he
  · rcases asked_replay cfg hasked with ⟨_, hq, _⟩ | hj
    · cases hq
    · cases hj with
      | code _ hinfo => exact ⟨_, _, hinfo, rfl⟩
  · cases hasked

/-- An account with code keeps its hash. -/
theorem codeHash_of_changed {info : AccountInfo} (hacc : Changed keccak256 (c.answer db) a acc)
    (hinfo : c.basic db a = .ok (some info)) (h0 : info.codeHash ≠ 0)
    (h1 : info.codeHash ≠ KECCAK256_EMPTY) : acc.info.codeHash = info.codeHash := by
  cases hacc with
  | sent ho =>
      obtain rfl := Except.ok.inj (ho.symm.trans hinfo)
      rfl
  | deployed code ho hfree =>
      -- a creation does not go where there is code
      obtain rfl := Except.ok.inj (ho.symm.trans hinfo)
      have h0' : info.codeHash ≠ 0#256 := h0
      simp [free, h0', h1] at hfree

theorem touched_of_changed {view : (q : Query) → Except DbError q.Answer}
    (hacc : Changed keccak256 view a acc) : acc.touched = true ∧ acc.selfdestructed = false := by
  cases hacc <;> exact ⟨rfl, rfl⟩

/-- Empty code is filed only under a hash of empty code, and under that of an account. -/
def EmptyOwned (db : StateDb) (c : Cache) : Prop :=
  ∀ h : B256, c.contracts[h]? = some [] → h = 0 ∨ h = KECCAK256_EMPTY
    ∨ ∃ a info, c.basic db a = .ok (some info) ∧ info.codeHash = h

theorem emptyOwned_run (hown : EmptyOwned db c) (he : (Evm.small keccak256).Starts e)
    (hrun : (Evm.small keccak256).run db e c = .ok (r, c')) : EmptyOwned db c' := by
  intro h hraw
  rw [show c'.basic db = c.basic db from funext (Evm.basic_run hrun)]
  rcases contracts_of_starts (h := h) he hrun with hsame | howner
  · exact hown h (hsame ▸ hraw)
  · exact .inr (.inr howner)

theorem emptyOwned_commit (hown : EmptyOwned db c) (he : (Evm.small keccak256).Starts e)
    (hrun : (Evm.small keccak256).run db e c = .ok (r, c')) :
    EmptyOwned db (c'.commit keccak256 r.state) := by
  intro h hraw
  have hbefore := Cache.empty_of_contracts_commit hraw
  rcases emptyOwned_run hown he hrun h hbefore with h0 | h1 | ⟨a, info, hinfo, rfl⟩
  · exact .inl h0
  · exact .inr (.inl h1)
  by_cases h0 : info.codeHash = 0
  · exact .inl h0
  by_cases h1 : info.codeHash = KECCAK256_EMPTY
  · exact .inr (.inl h1)
  -- its owner still has it
  refine .inr (.inr ?_)
  cases hst : r.state[a]? with
  | none =>
      exact ⟨a, info, ((Cache.commit_spec keccak256 c' r.state).basic_untouched hst).trans hinfo, rfl⟩
  | some acc =>
      have hacc := changed_of_starts he hrun hst
      obtain ⟨ht, hd⟩ := touched_of_changed hacc
      have hhash := codeHash_of_changed hacc ((Evm.basic_run hrun a).symm.trans hinfo) h0 h1
      refine ⟨a, _, Cache.basic_commit hst ht hd, ?_⟩
      rw [(Cache.committedInfo_commitInfo keccak256 acc).codeHash (hhash ▸ h0) (hhash ▸ h1), hhash]

theorem emptyOwned_executed (hc : (Evm.small keccak256).Executed db c) : EmptyOwned db c := by
  induction hc with
  | new =>
      intro h hraw
      simp only [Cache.new, ExtTreeMap.getElem?_insert, Std.compare_eq_iff_eq] at hraw
      split at hraw
      · rename_i h0
        exact .inl h0.symm
      · split at hraw
        · rename_i h1
          exact .inr (.inl h1.symm)
        · simp at hraw
  | commit _ he hrun ih => exact emptyOwned_commit ih he hrun

theorem commitCode_deployedAccount (keccak256 : Bytes → B256) (code : Bytes) :
    Cache.commitCode keccak256 (deployedAccount keccak256 code)
      = if code = [] then none else some (keccak256 code, code) := by
  by_cases hcode : code = []
  · simp [Cache.commitCode, deployedAccount, hcode]
  · have hne : code.isEmpty = false := List.isEmpty_eq_false_iff.mpr hcode
    simp only [Cache.commitCode, deployedAccount, hne, if_neg hcode]
    -- the hash is computed anew, or was
    by_cases hhash : keccak256 code = KECCAK256_EMPTY <;> simp [hhash]

/-- A new account has the hash of empty code, or one of its own under which code is filed. -/
theorem filed_of_deployed (hempty : keccak256 [] = KECCAK256_EMPTY) {st : Changes} {code : Bytes}
    (hst : st[a]? = some (deployedAccount keccak256 code)) :
    let hash := (Cache.commitInfo keccak256 (deployedAccount keccak256 code)).codeHash
    hash = KECCAK256_EMPTY
      ∨ hash ≠ 0 ∧ ∃ raw, (c.commit keccak256 st).contracts[hash]? = some raw := by
  intro hash
  have hinfo := Cache.committedInfo_commitInfo keccak256 (deployedAccount keccak256 code)
  by_cases hcode : code = []
  · subst hcode
    exact .inl (hinfo.emptyCode rfl (.inr hempty))
  by_cases h1 : keccak256 code = KECCAK256_EMPTY
  · left
    simp [hash, Cache.commitInfo, deployedAccount, hcode, h1]
  by_cases h0 : keccak256 code = 0
  · left
    simp [hash, Cache.commitInfo, deployedAccount, h0]
  · right
    have heq : hash = keccak256 code := hinfo.codeHash h0 h1
    rw [heq]
    have hfiled := commitCode_deployedAccount keccak256 code
    rw [if_neg hcode] at hfiled
    exact ⟨h0, Option.isSome_iff_exists.mp (Cache.isSome_contracts_commit hst hfiled)⟩

/-- A sender keeps its hash, unless that is one of empty code. -/
theorem hash_of_sent (keccak256 : Bytes → B256) {o : Option AccountInfo} {n : U64}
    (ho : c.basic db a = .ok o) :
    let acc : Account := ⟨{ o.getD .zero with nonce := n }, none, ∅, true, false, false⟩
    let hash := (Cache.commitInfo keccak256 acc).codeHash
    hash = KECCAK256_EMPTY ∨ ∃ a' info, c.basic db a' = .ok (some info) ∧ info.codeHash = hash := by
  intro acc hash
  have hinfo := Cache.committedInfo_commitInfo keccak256 acc
  by_cases hhash : (o.getD .zero).codeHash = 0 ∨ (o.getD .zero).codeHash = KECCAK256_EMPTY
  · exact .inl (hinfo.emptyCode rfl hhash)
  · obtain ⟨h0, h1⟩ := not_or.mp hhash
    have heq : hash = (o.getD .zero).codeHash := hinfo.codeHash h0 h1
    rw [heq]
    cases o with
    | none => exact absurd rfl h0
    | some info => exact .inr ⟨a, info, ho, rfl⟩

/-- A new account has the hash of empty code, one that an account has, or one of filed code. -/
theorem hash_of_deployed (hempty : keccak256 [] = KECCAK256_EMPTY)
    (hc : (Evm.small keccak256).Executed db c) (he : (Evm.small keccak256).Starts e)
    (hrun : (Evm.small keccak256).run db e c = .ok (r, c')) {code : Bytes}
    (hst : r.state[a]? = some (deployedAccount keccak256 code)) :
    let hash := (Cache.commitInfo keccak256 (deployedAccount keccak256 code)).codeHash
    hash = KECCAK256_EMPTY
      ∨ (∃ a' info, c.basic db a' = .ok (some info) ∧ info.codeHash = hash)
      ∨ ∃ raw, (c'.commit keccak256 r.state).contracts[hash]? = some raw ∧ raw ≠ [] := by
  intro hash
  rcases filed_of_deployed (c := c') hempty hst with h1 | ⟨h0, raw, hraw⟩
  · exact .inl h1
  by_cases hne : raw = []
  · -- empty code was filed before, for an account that has the hash too
    subst hne
    have hown := emptyOwned_run (emptyOwned_executed hc) he hrun
    rcases hown _ (Cache.empty_of_contracts_commit hraw) with h0' | h1 | ⟨a', info, hinfo, heq⟩
    · exact absurd h0' h0
    · exact .inl h1
    · exact .inr (.inl ⟨a', info, (Evm.basic_run hrun a').symm.trans hinfo, heq⟩)
  · exact .inr (.inr ⟨raw, hraw, hne⟩)

end Code

end SmallEvm

/-- **What the small EVM commits is in order.** -/
theorem small_codeRules {keccak256 : Bytes → B256} (hempty : keccak256 [] = KECCAK256_EMPTY) :
    (Evm.small keccak256).CodeRules keccak256 where
  committed := by
    intro db e c c' r _ hc he hrun a acc acct hst ht hd hacct
    have hacc := SmallEvm.changed_of_starts he hrun hst
    -- the record is the one that the commit made
    have hbasic : (c'.commit keccak256 r.state).basic db a
        = .ok (some (Cache.commitInfo keccak256 acc)) := Cache.basic_commit hst ht hd
    have hcommit : (c'.commit keccak256 r.state).accounts[a]? = some acct := hacct
    rw [Cache.basic_cached hcommit] at hbasic
    split at hbasic
    · cases hbasic
    rw [Option.some.inj (Except.ok.inj hbasic)]
    cases hacc with
    | sent ho =>
        rcases SmallEvm.hash_of_sent keccak256 ho with h1 | hread
        · exact .inl h1
        · exact .inr (.inl hread)
    | deployed code _ _ => exact SmallEvm.hash_of_deployed hempty hc he hrun hst
  filed := by
    intro db e c c' r _ hc he hrun h raw hfree hfiled
    rcases Cache.contracts_commit keccak256 c' r.state h with hsame | ⟨_, a, acc, raw', hst, hcode, hnew⟩
    · rw [hfree] at hsame
      cases hsame.symm.trans hfiled
    · obtain rfl := Option.some.inj (hnew.symm.trans hfiled)
      cases SmallEvm.changed_of_starts he hrun hst with
      | sent _ => cases hcode
      | deployed code _ _ =>
          rw [SmallEvm.commitCode_deployedAccount] at hcode
          split at hcode
          · cases hcode
          · simp only [Option.some.injEq, Prod.mk.injEq] at hcode
            rw [← hcode.1, hcode.2]

end EvmState
