import EvmState.Proof.Diffs
import EvmState.Proof.Execute
import EvmState.Proof.Flush
import EvmState.Replayer.Pipeline

/-!
# Which blocks the pipeline commits

Within one call the blocks committed follow one another, and each moves the head
to itself. Nothing ties the first of them to the head the call started from: a
stream that starts further up is replayed from there, and the blocks in between
are skipped for good. Over any number of calls no block is skipped exactly when
each call that gets a block through starts with the one after its head
(`runCalls_advances_iff`).
-/

namespace EvmState

/-! ## The head after one block -/

/-- A replayed block becomes the head. -/
theorem getHeadBlock_replayBlock_ok {evm : Evm} {keccak256 : Bytes → B256} {σ : HashOrder}
    {db : StateDb} {block : Block} {spec : ChainSpec} {res : BlockResult}
    (h : (replayBlock evm keccak256 σ db block spec).result = .ok res) :
    ((replayBlock evm keccak256 σ db block spec).db db).getHeadBlock
      = .ok (some block.header.number) := by
  have hcases := replayBlock_cases evm keccak256 σ db block spec
  generalize replayBlock evm keccak256 σ db block spec = r at h hcases
  cases hcases with
  | failed _ => cases h
  | plain _ _ => exact StateDb.getHeadBlock_commit_set (lastVal_flushBatch σ _ _ .headBlock)
  | hybrid _ _ happly =>
      obtain ⟨b, hb, rfl⟩ := diffBatch_of_applyStateDiffs happly
      exact StateDb.getHeadBlock_commit_set (lastVal_diffBatch_head hb)
  | half _ _ _ => cases h

/-- A block that fails leaves the head where it was. -/
theorem getHeadBlock_replayBlock_error {evm : Evm} {keccak256 : Bytes → B256} {σ : HashOrder}
    {db : StateDb} {block : Block} {spec : ChainSpec} {err : ReplayError}
    (h : (replayBlock evm keccak256 σ db block spec).result = .error err) :
    ((replayBlock evm keccak256 σ db block spec).db db).getHeadBlock = db.getHeadBlock := by
  have hcases := replayBlock_cases evm keccak256 σ db block spec
  generalize replayBlock evm keccak256 σ db block spec = r at h hcases
  cases hcases with
  | failed _ => rfl
  | plain _ _ => cases h
  | hybrid _ _ _ => cases h
  -- the diffs, which would have moved it, were not applied
  | half _ _ _ => exact StateDb.getHeadBlock_commit_none (lastVal_flushBatch σ _ none .headBlock)

/-! ## Blocks in sequence -/

/-- The blocks `committed` take the head, one after another, from `h` to that of `db`. -/
def Advances (h : U64) (committed : List U64) (db : StateDb) : Prop :=
  ∃ h', db.getHeadBlock = .ok (some h') ∧ h ≤ h'
    ∧ committed.map BitVec.toNat = List.range' (h.toNat + 1) (h'.toNat - h.toNat)

theorem advances_nil {h : U64} {db : StateDb} (hd : db.getHeadBlock = .ok (some h)) :
    Advances h [] db :=
  ⟨h, hd, BitVec.le_refl h, by simp⟩

theorem Advances.cons {h n : U64} {cs : List U64} {db : StateDb} (hn : n.toNat = h.toNat + 1)
    (hcs : Advances n cs db) : Advances h (n :: cs) db := by
  obtain ⟨h', hd, hle, heq⟩ := hcs
  have hle' : n.toNat ≤ h'.toNat := hle
  refine ⟨h', hd, show h.toNat ≤ h'.toNat by omega, ?_⟩
  rw [List.map_cons, heq, show h'.toNat - h.toNat = (h'.toNat - n.toNat) + 1 by omega,
    List.range'_succ, hn]

theorem Advances.append {h h₁ : U64} {cs cs' : List U64} {db db' : StateDb}
    (hcs : Advances h cs db) (hd : db.getHeadBlock = .ok (some h₁)) (hcs' : Advances h₁ cs' db') :
    Advances h (cs ++ cs') db' := by
  obtain ⟨h₁', hd₁, hle, heq⟩ := hcs
  obtain ⟨h', hd', hle', heq'⟩ := hcs'
  obtain rfl : h₁' = h₁ := Option.some.inj (Except.ok.inj (hd₁.symm.trans hd))
  have h1 : h.toNat ≤ h₁'.toNat := hle
  have h2 : h₁'.toNat ≤ h'.toNat := hle'
  refine ⟨h', hd', show h.toNat ≤ h'.toNat by omega, ?_⟩
  rw [List.map_append, heq, heq',
    show h₁'.toNat + 1 = (h.toNat + 1) + (h₁'.toNat - h.toNat) by omega, List.range'_append_1,
    show h₁'.toNat - h.toNat + (h'.toNat - h₁'.toNat) = h'.toNat - h.toNat by omega]

/-- The rest of a sequence is in sequence. -/
theorem Advances.of_append {h h₁ : U64} {cs cs' : List U64} {db db' : StateDb}
    (hcs : Advances h cs db) (hd : db.getHeadBlock = .ok (some h₁))
    (hall : Advances h (cs ++ cs') db') : Advances h₁ cs' db' := by
  obtain ⟨h₁', hd₁, hle, heq⟩ := hcs
  obtain ⟨h', hd', hle', heq'⟩ := hall
  obtain rfl : h₁' = h₁ := Option.some.inj (Except.ok.inj (hd₁.symm.trans hd))
  have h1 : h.toNat ≤ h₁'.toNat := hle
  have h2 : h.toNat ≤ h'.toNat := hle'
  have hlen := congrArg List.length heq
  have hlen' := congrArg List.length heq'
  simp only [List.length_map, List.length_append, List.length_range'] at hlen hlen'
  refine ⟨h', hd', show h₁'.toNat ≤ h'.toNat by omega, ?_⟩
  rw [List.map_append, heq,
    show h'.toNat - h.toNat = (h₁'.toNat - h.toNat) + (h'.toNat - h₁'.toNat) by omega,
    ← List.range'_append_1] at heq'
  rw [List.append_cancel_left heq']
  congr 1
  omega

/-- The first block of a sequence is the one after the head. -/
theorem Advances.head_eq {h n : U64} {cs : List U64} {db : StateDb}
    (hcs : Advances h (n :: cs) db) : n = h + 1 := by
  obtain ⟨h', _, hle, heq⟩ := hcs
  have hlen := congrArg List.length heq
  simp only [List.map_cons, List.length_cons, List.length_range'] at hlen
  rw [show h'.toNat - h.toNat = (h'.toNat - h.toNat - 1) + 1 by omega, List.map_cons,
    List.range'_succ] at heq
  have hn := (List.cons.inj heq).1
  bv_omega

/-! ## One turn of the loop -/

section Turn

variable (evm : Evm) (keccak256 : Bytes → B256) (call : PipelineCall) (head : Option U64)
  (block : Block) (blocks : List (Except String Block)) (st : PipelineState)

/-- The replay of a block, where the call stands. -/
abbrev PipelineCall.replay : Replay :=
  replayBlock evm keccak256 (call.order st.stats.blocksProcessed) st.db block call.spec

/-- Where the call stands after it. -/
abbrev PipelineCall.after : PipelineState :=
  st.next block ((call.replay evm keccak256 block st).db st.db)

/-- The block is at or below the head. -/
abbrev Skipped : Prop := head.any (fun h => decide (block.header.number ≤ h)) = true

/-- The block is the one after the last. -/
abbrev GoesOn : Prop := ∀ last, st.stats.lastBlock = some last → block.header.number = last + 1

theorem skipped_some {h : U64} {block : Block} :
    Skipped (some h) block ↔ block.header.number ≤ h := decide_eq_true_iff

/--
**Everything a turn of the loop can do** with a block: what the run is then, and which
commits it makes from there on.
-/
inductive PipelineTurn : PipelineRun → List StateDb → Prop
  | skipped : Skipped head block →
      PipelineTurn (pipelineLoop evm keccak256 call head blocks st)
        (pipelineCommits evm keccak256 call head blocks st)
  | gap {err : ReplayError} : ¬ Skipped head block → ¬ GoesOn block st →
      PipelineTurn ⟨st.db, [], .error err⟩ []
  | failed {err : ReplayError} : ¬ Skipped head block → GoesOn block st →
      (call.replay evm keccak256 block st).result = .error err →
      PipelineTurn ⟨(call.replay evm keccak256 block st).db st.db, [], .error err⟩
        (call.replay evm keccak256 block st).commits
  /-- The callback has asked to stop. -/
  | last {res : BlockResult} : ¬ Skipped head block → GoesOn block st →
      (call.replay evm keccak256 block st).result = .ok res →
      call.onProgress (call.after evm keccak256 block st).progress = false →
      PipelineTurn ⟨(call.after evm keccak256 block st).db, [block.header.number],
          .ok (call.after evm keccak256 block st).stats⟩
        (call.replay evm keccak256 block st).commits
  | next {res : BlockResult} : ¬ Skipped head block → GoesOn block st →
      (call.replay evm keccak256 block st).result = .ok res →
      call.onProgress (call.after evm keccak256 block st).progress = true →
      PipelineTurn
        { pipelineLoop evm keccak256 call head blocks (call.after evm keccak256 block st) with
          committed := block.header.number
            :: (pipelineLoop evm keccak256 call head blocks
                (call.after evm keccak256 block st)).committed }
        ((call.replay evm keccak256 block st).commits
          ++ pipelineCommits evm keccak256 call head blocks (call.after evm keccak256 block st))

theorem pipelineTurn : PipelineTurn evm keccak256 call head block blocks st
    (pipelineLoop evm keccak256 call head (.ok block :: blocks) st)
    (pipelineCommits evm keccak256 call head (.ok block :: blocks) st) := by
  rw [pipelineLoop, pipelineCommits]
  by_cases hskip : Skipped head block
  · rw [if_pos hskip, if_pos hskip]
    exact .skipped hskip
  · rw [if_neg hskip, if_neg hskip]
    cases hgap : st.stats.lastBlock.filter (fun last => block.header.number != last + 1) with
    | some last =>
        obtain ⟨hlast, hne⟩ := Option.filter_eq_some_iff.mp hgap
        have hstop : ¬ GoesOn block st := by
          intro hgo
          simp [hgo last hlast] at hne
        exact .gap hskip hstop
    | none =>
        have hgo : GoesOn block st := by
          intro last hlast
          simpa using Option.filter_eq_none_iff.mp hgap last hlast
        simp only [Option.isSome_none, Bool.false_eq_true, if_false]
        cases hres : (call.replay evm keccak256 block st).result with
        | error err =>
            simp only [Except.isOk, Except.toBool, Bool.false_and, Bool.false_eq_true, if_false,
              List.append_nil]
            exact .failed hskip hgo hres
        | ok res =>
            cases hanswer : call.onProgress (call.after evm keccak256 block st).progress with
            | false =>
                simp only [Except.isOk, Except.toBool, Bool.true_and, Bool.false_eq_true, if_false,
                  List.append_nil]
                exact .last hskip hgo hres hanswer
            | true =>
                simp only [Except.isOk, Except.toBool, Bool.true_and, if_true]
                exact .next hskip hgo hres hanswer

end Turn

/-! ## One call -/

section Call

variable {evm : Evm} {keccak256 : Bytes → B256} {call : PipelineCall}

/-- The first block of the stream above the head, if the stream gets that far. -/
def firstAbove (head : U64) : List (Except String Block) → Option Block
  | [] => none
  | .error _ :: _ => none
  | .ok block :: blocks =>
      if block.header.number ≤ head then firstAbove head blocks else some block

/-- From its first block on, a call commits blocks in sequence. -/
theorem advances_pipelineLoop {head last : U64} {blocks : List (Except String Block)}
    {st : PipelineState} (hl : st.stats.lastBlock = some last)
    (hd : st.db.getHeadBlock = .ok (some last)) (hle : head ≤ last) :
    Advances last (pipelineLoop evm keccak256 call (some head) blocks st).committed
      (pipelineLoop evm keccak256 call (some head) blocks st).db := by
  induction blocks generalizing st last with
  | nil => exact advances_nil hd
  | cons item blocks ih =>
      cases item with
      | error e => exact advances_nil hd
      | ok block =>
          -- a block above the head that goes on is the successor, and did not wrap
          have hsucc : ¬ Skipped (some head) block → GoesOn block st →
              block.header.number.toNat = last.toNat + 1 := by
            intro habove hgo
            have hnum := hgo last hl
            rw [skipped_some] at habove
            bv_omega
          have hturn := pipelineTurn evm keccak256 call (some head) block blocks st
          generalize pipelineLoop evm keccak256 call (some head) (.ok block :: blocks) st = run
            at hturn ⊢
          generalize pipelineCommits evm keccak256 call (some head) (.ok block :: blocks) st = commits
            at hturn
          cases hturn with
          | skipped _ => exact ih hl hd hle
          | gap _ _ => exact advances_nil hd
          | failed _ _ herr => exact advances_nil ((getHeadBlock_replayBlock_error herr).trans hd)
          | last habove hgo hres _ =>
              exact .cons (hsucc habove hgo) (advances_nil (getHeadBlock_replayBlock_ok hres))
          | next habove hgo hres _ =>
              -- the call goes on with this block as its last
              have hn := hsucc habove hgo
              exact .cons hn (ih rfl (getHeadBlock_replayBlock_ok hres) (by bv_omega))

theorem lt_of_firstAbove {h : U64} {blocks : List (Except String Block)} {b : Block}
    (hb : firstAbove h blocks = some b) : h < b.header.number := by
  induction blocks with
  | nil => cases hb
  | cons item blocks ih =>
      cases item with
      | error e => cases hb
      | ok block =>
          rw [firstAbove] at hb
          split at hb
          · exact ih hb
          · rename_i hgt
            exact Option.some.inj hb ▸ BitVec.not_le.mp hgt

variable (evm keccak256 call) in
/-- A call commits nothing, or the first block above the head and then in sequence. -/
theorem runPipeline_cases {db : StateDb} {h : U64} (hd : db.getHeadBlock = .ok (some h)) :
    let run := runPipeline evm keccak256 db call
    (run.committed = [] ∧ run.db.getHeadBlock = .ok (some h)
        ∧ ∀ b, firstAbove h call.blocks = some b →
          ∃ err, (replayBlock evm keccak256 (call.order 0) db b call.spec).result = .error err)
      ∨ ∃ b res cs, firstAbove h call.blocks = some b
        ∧ (replayBlock evm keccak256 (call.order 0) db b call.spec).result = .ok res
        ∧ run.committed = b.header.number :: cs ∧ Advances b.header.number cs run.db := by
  simp only [runPipeline, hd]
  induction call.blocks with
  | nil => exact .inl ⟨rfl, hd, fun b hb => by cases hb⟩
  | cons item blocks ih =>
      cases item with
      | error e => exact .inl ⟨rfl, hd, fun b hb => by cases hb⟩
      | ok block =>
          have hturn := pipelineTurn evm keccak256 call (some h) block blocks ⟨db, {}, []⟩
          generalize pipelineLoop evm keccak256 call (some h) (.ok block :: blocks) ⟨db, {}, []⟩ = run
            at hturn ⊢
          generalize pipelineCommits evm keccak256 call (some h) (.ok block :: blocks) ⟨db, {}, []⟩
            = commits at hturn
          -- the first block that is not skipped ends the search
          by_cases hskip : block.header.number ≤ h
          · have hfirst : firstAbove h (.ok block :: blocks) = firstAbove h blocks := if_pos hskip
            rw [hfirst]
            cases hturn with
            | skipped _ => exact ih
            | gap hno _ | failed hno _ _ | last hno _ _ _ | next hno _ _ _ =>
                exact absurd (skipped_some.mpr hskip) hno
          · have hfirst : firstAbove h (.ok block :: blocks) = some block := if_neg hskip
            rw [hfirst]
            cases hturn with
            | skipped hyes => exact absurd (skipped_some.mp hyes) hskip
            | gap _ hstop => exact absurd (fun _ hlast => by cases hlast) hstop
            | failed _ _ herr =>
                exact .inl ⟨rfl, (getHeadBlock_replayBlock_error herr).trans hd,
                  fun b hb => ⟨_, Option.some.inj hb ▸ herr⟩⟩
            | last _ _ hres _ =>
                exact .inr ⟨block, _, _, rfl, hres, rfl, advances_nil (getHeadBlock_replayBlock_ok hres)⟩
            | next _ _ hres _ =>
                exact .inr ⟨block, _, _, rfl, hres, rfl, advances_pipelineLoop rfl
                  (getHeadBlock_replayBlock_ok hres) (BitVec.le_of_lt (BitVec.not_le.mp hskip))⟩

end Call

/-! ## Any number of calls -/

/--
Each call on the way that gets a block through starts with the block after the
head it finds.
-/
def StartsAtHead (evm : Evm) (keccak256 : Bytes → B256) : StateDb → List PipelineCall → Prop
  | _, [] => True
  | db, call :: calls =>
      (∀ h b res, db.getHeadBlock = .ok (some h) → firstAbove h call.blocks = some b →
          (replayBlock evm keccak256 (call.order 0) db b call.spec).result = .ok res →
          b.header.number = h + 1)
        ∧ StartsAtHead evm keccak256 (runPipeline evm keccak256 db call).db calls

/-- A call that starts at the head commits in sequence from there. -/
theorem advances_runPipeline {evm : Evm} {keccak256 : Bytes → B256} {db : StateDb} {h : U64}
    {call : PipelineCall} (hd : db.getHeadBlock = .ok (some h))
    (hstart : ∀ b res, firstAbove h call.blocks = some b →
      (replayBlock evm keccak256 (call.order 0) db b call.spec).result = .ok res →
      b.header.number = h + 1) :
    Advances h (runPipeline evm keccak256 db call).committed
      (runPipeline evm keccak256 db call).db := by
  rcases runPipeline_cases evm keccak256 call hd with
    ⟨hnil, hd', _⟩ | ⟨b, res, cs, hb, hres, hcs, hadv⟩
  · rw [hnil]
    exact advances_nil hd'
  · have hgt := lt_of_firstAbove hb
    have hnum := hstart b res hb hres
    rw [hcs]
    exact Advances.cons (by bv_omega) hadv

/-- A call that commits in sequence started at the head. -/
theorem start_of_advances_append {evm : Evm} {keccak256 : Bytes → B256} {db db' : StateDb}
    {h : U64} {call : PipelineCall} {cs' : List U64} (hd : db.getHeadBlock = .ok (some h))
    (hadv : Advances h ((runPipeline evm keccak256 db call).committed ++ cs') db') :
    ∀ b res, firstAbove h call.blocks = some b →
      (replayBlock evm keccak256 (call.order 0) db b call.spec).result = .ok res →
      b.header.number = h + 1 := by
  intro b res hb hres
  rcases runPipeline_cases evm keccak256 call hd with
    ⟨_, _, herr⟩ | ⟨b', _, cs, hb', _, hcs, _⟩
  · obtain ⟨err, herr⟩ := herr b hb
    rw [hres] at herr
    cases herr
  · obtain rfl : b' = b := Option.some.inj (hb'.symm.trans hb)
    rw [hcs, List.cons_append] at hadv
    exact hadv.head_eq

/--
**When no block is skipped.** Over any sequence of calls on a database with a
head, the blocks committed are the ones from the head on, in order and each once,
up to the final head, exactly when each call that gets a block through starts with
the block after the head it finds.
-/
theorem runCalls_advances_iff {evm : Evm} {keccak256 : Bytes → B256} {db : StateDb} {h : U64}
    (hd : db.getHeadBlock = .ok (some h)) (calls : List PipelineCall) :
    Advances h (runCalls evm keccak256 db calls).2 (runCalls evm keccak256 db calls).1
      ↔ StartsAtHead evm keccak256 db calls := by
  -- each call is judged by the head it finds, which is the one its predecessor left
  induction calls generalizing db h with
  | nil => exact ⟨fun _ => trivial, fun _ => advances_nil hd⟩
  | cons call calls ih =>
      rw [runCalls, StartsAtHead]
      dsimp only
      constructor
      · intro hadv
        have hstart := start_of_advances_append hd hadv
        have hrun := advances_runPipeline hd hstart
        obtain ⟨h₁, hd₁, _⟩ := id hrun
        refine ⟨fun h' b res hd' => ?_, (ih hd₁).mp (hrun.of_append hd₁ hadv)⟩
        obtain rfl : h' = h := Option.some.inj (Except.ok.inj (hd'.symm.trans hd))
        exact hstart b res
      · intro hx
        obtain ⟨hstart, hrest⟩ := hx
        have hrun := advances_runPipeline hd (fun b res => hstart h b res hd)
        obtain ⟨h₁, hd₁, _⟩ := id hrun
        exact hrun.append hd₁ ((ih hd₁).mpr hrest)

/-- A database at block 3. -/
def headDb : StateDb := StateDb.empty.commit [.setHeadBlock 3]

/-- A replay that was told to start at block 10, on an empty block. -/
def jumpCall : PipelineCall where
  blocks := [.ok { header := { number := startBlock (some 10) (some 3) } }]
  spec := ethereumMainnet

/-- The call goes through and makes block 10 the head. -/
theorem runCalls_skips_blocks :
    let run := runCalls (.counting fun _ => KECCAK256_EMPTY) (fun _ => KECCAK256_EMPTY) headDb
      [jumpCall]
    headDb.getHeadBlock = .ok (some 3) ∧ run.2 = [10] ∧ run.1.getHeadBlock = .ok (some 10)
      ∧ ¬ Advances 3 run.2 run.1 := by
  intro run
  have hcommitted : run.2 = [10] := by decide
  refine ⟨by decide, hcommitted, by decide, fun h => ?_⟩
  rw [hcommitted] at h
  exact absurd h.head_eq (by decide)

theorem runCalls_advances_iff_jumpCall :
    let run := runCalls (.counting fun _ => KECCAK256_EMPTY) (fun _ => KECCAK256_EMPTY) headDb
      [jumpCall]
    Advances 3 run.2 run.1
      ↔ StartsAtHead (.counting fun _ => KECCAK256_EMPTY) (fun _ => KECCAK256_EMPTY) headDb
          [jumpCall] :=
  runCalls_advances_iff (by decide) [jumpCall]

end EvmState
