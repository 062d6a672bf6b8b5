import EvmState.Proof.HeadState

/-!
# Stopping and resuming

A block without state diffs is one commit, so every state of a call over such blocks
is a whole number of blocks replayed (`plain_states`), and the head says how many.
The next call, whether it is fed the whole list or the blocks behind the head, skips
exactly those (`pending_fed`), and a schedule of interruptions leads where one call
leads (`interrupted_eq`).
-/

namespace EvmState

open Std

/-! ## Blocks without diffs -/

section Plain

variable {evm : Evm} {keccak256 : Bytes → B256} {spec : ChainSpec}

/-- The order hash maps are walked in decides nothing. -/
theorem replayBlock_plain_order {block : Block} (hplain : block.stateDiffs = []) (σ σ' : HashOrder)
    (db : StateDb) :
    replayBlock evm keccak256 σ db block spec = replayBlock evm keccak256 σ' db block spec := by
  have hflush : ∀ c n, flushCacheToDb σ db c n = flushCacheToDb σ' db c n := fun c n =>
    StateDb.commit_congr db fun k => by rw [lastVal_flushBatch, lastVal_flushBatch]
  unfold replayBlock
  simp only [hplain, List.isEmpty_nil, if_true, hflush]

theorem replayAll_plain {call call' : PipelineCall} (hspec : call.spec = call'.spec)
    {blocks : List Block} (hplain : ∀ b ∈ blocks, b.stateDiffs = []) (i i' : Nat) (db : StateDb) :
    replayAll evm keccak256 call i db blocks = replayAll evm keccak256 call' i' db blocks := by
  induction blocks generalizing i i' db with
  | nil => rfl
  | cons b blocks ih =>
      have hb : replayBlock evm keccak256 (call.order i) db b call'.spec
          = replayBlock evm keccak256 (call'.order i') db b call'.spec :=
        replayBlock_plain_order (hplain b List.mem_cons_self) _ _ _
      rw [replayAll, replayAll, hspec, hb]
      split
      · exact ih (fun b' hb' => hplain b' (List.mem_cons_of_mem b hb')) _ _ _
      · rfl

theorem replayAll_append {call : PipelineCall} {xs ys : List Block} {i : Nat} {db d : StateDb}
    (h : replayAll evm keccak256 call i db xs = .ok d) :
    replayAll evm keccak256 call i db (xs ++ ys)
      = replayAll evm keccak256 call (i + xs.length) d ys := by
  induction xs generalizing i db with
  | nil =>
      rw [replayAll, Except.ok.injEq] at h
      rw [h]
      rfl
  | cons x xs ih =>
      rw [replayAll] at h
      rw [List.cons_append, replayAll]
      -- the first part was replayed, so its first block was
      split at h
      · rw [ih h, List.length_cons, Nat.add_assoc, Nat.add_comm 1]
      · cases h

/-- A plain block that fails commits nothing. -/
theorem commits_plain_error {σ : HashOrder} {db : StateDb} {block : Block} {err : ReplayError}
    (hplain : block.stateDiffs = [])
    (herr : (replayBlock evm keccak256 σ db block spec).result = .error err) :
    (replayBlock evm keccak256 σ db block spec).commits = [] := by
  have hcases := replayBlock_cases evm keccak256 σ db block spec
  generalize replayBlock evm keccak256 σ db block spec = r at herr hcases ⊢
  cases hcases with
  | failed _ => rfl
  | plain _ _ => cases herr
  | hybrid _ hne _ => exact absurd hplain hne
  | half _ hne _ => exact absurd hplain hne

/-- One that goes through is one commit. -/
theorem commits_plain_ok {σ : HashOrder} {db : StateDb} {block : Block} {res : BlockResult}
    (hplain : block.stateDiffs = [])
    (hres : (replayBlock evm keccak256 σ db block spec).result = .ok res) :
    (replayBlock evm keccak256 σ db block spec).commits
      = [(replayBlock evm keccak256 σ db block spec).db db] := by
  have hcases := replayBlock_cases evm keccak256 σ db block spec
  generalize replayBlock evm keccak256 σ db block spec = r at hres hcases ⊢
  cases hcases with
  | failed _ => cases hres
  | plain _ _ => rfl
  | hybrid _ hne _ => exact absurd hplain hne
  | half _ hne _ => exact absurd hplain hne

/-- Before the first commit nothing is replayed. -/
theorem replayAll_start {call : PipelineCall} {i k : Nat} {db d : StateDb} {blocks : List Block}
    (hk : [db][k]? = some d) : replayAll evm keccak256 call i db (blocks.take k) = .ok d := by
  cases k with
  | zero =>
      simp only [List.getElem?_cons_zero, Option.some.injEq] at hk
      rw [List.take_zero, replayAll, hk]
  | succ k => simp at hk

variable {call : PipelineCall} {head : Option U64}

/-- A block that went through, before blocks whose states are those of a replay. -/
theorem replayAll_behind {block : Block} {st : PipelineState} {res : BlockResult}
    {blocks : List Block} {states : List StateDb}
    (hres : (call.replay evm keccak256 block st).result = .ok res)
    (h : ∀ k d, states[k]? = some d →
      replayAll evm keccak256 call (st.stats.blocksProcessed + 1)
        ((call.replay evm keccak256 block st).db st.db) (blocks.take k) = .ok d) (k : Nat)
    (d : StateDb) (hk : (st.db :: states)[k]? = some d) :
    replayAll evm keccak256 call st.stats.blocksProcessed st.db ((block :: blocks).take k)
      = .ok d := by
  cases k with
  | zero => exact replayAll_start (k := 0) hk
  | succ k =>
      rw [List.take_succ_cons]
      simp only [replayAll, hres]
      exact h k d hk

variable (evm keccak256 call) in
/--
**A call over plain blocks** commits some number of them: it reports just these, its
states are the blocks replayed one after another, and the last is what it leaves.
-/
theorem plain_run {blocks : List (Except String Block)} (st : PipelineState)
    (hplain : ∀ b ∈ pending head blocks, b.stateDiffs = []) :
    let run := pipelineLoop evm keccak256 call head blocks st
    let states := st.db :: pipelineCommits evm keccak256 call head blocks st
    run.committed = ((pending head blocks).take (states.length - 1)).map (fun b => b.header.number)
      ∧ states.getLast? = some run.db
      ∧ ∀ k d, states[k]? = some d →
          replayAll evm keccak256 call st.stats.blocksProcessed st.db
            ((pending head blocks).take k) = .ok d := by
  induction blocks generalizing st with
  | nil => exact ⟨rfl, rfl, fun _ _ => replayAll_start⟩
  | cons item blocks ih =>
      cases item with
      | error e => exact ⟨rfl, rfl, fun _ _ => replayAll_start⟩
      | ok block =>
          -- one turn of the loop, with the commits it adds
          have hturn := pipelineTurn evm keccak256 call head block blocks st
          generalize pipelineLoop evm keccak256 call head (.ok block :: blocks) st = run at hturn ⊢
          generalize pipelineCommits evm keccak256 call head (.ok block :: blocks) st = commits
            at hturn ⊢
          rw [pending] at hplain ⊢
          cases hturn with
          | skipped hskip =>
              rw [if_pos hskip] at hplain ⊢
              exact ih st hplain
          | gap _ _ => exact ⟨by simp, rfl, fun k d hk => replayAll_start hk⟩
          | failed hskip _ herr =>
              rw [if_neg hskip] at hplain ⊢
              -- a block without diffs that fails has committed nothing
              have hnone := commits_plain_error (hplain block List.mem_cons_self) herr
              have hdb : (call.replay evm keccak256 block st).db st.db = st.db := by
                rw [Replay.db, hnone]
                rfl
              rw [hnone, hdb]
              exact ⟨by simp, rfl, fun k d hk => replayAll_start hk⟩
          | last hskip _ hres _ =>
              rw [if_neg hskip] at hplain ⊢
              rw [commits_plain_ok (hplain block List.mem_cons_self) hres]
              exact ⟨by simp, rfl, replayAll_behind hres fun _ _ => replayAll_start⟩
          | next hskip _ hres _ =>
              rw [if_neg hskip] at hplain ⊢
              rw [commits_plain_ok (hplain block List.mem_cons_self) hres]
              -- the block is one commit, behind which the rest goes on
              obtain ⟨hcommitted, hlast, hstates⟩ := ih (call.after evm keccak256 block st)
                (fun b hb => hplain b (List.mem_cons_of_mem block hb))
              refine ⟨?_, ?_, replayAll_behind hres hstates⟩
              · simp only [hcommitted]
                simp [List.take_succ_cons]
              · rw [List.singleton_append, List.getLast?_cons_cons]
                exact hlast

end Plain

/-! ## What a call is fed -/

/-- The numbers of the blocks go on from `h`, one by one. -/
def Numbered : U64 → List Block → Prop
  | _, [] => True
  | h, b :: blocks => b.header.number.toNat = h.toNat + 1 ∧ Numbered b.header.number blocks

/-- The whole list, or the blocks from where the replay command starts. -/
def Fed (blocks : List Block) (head : U64) (fed : List Block) : Prop :=
  fed = blocks
    ∨ fed = blocks.filter (fun b => decide (startBlock none (some head) ≤ b.header.number))

section Feeding

variable {blocks : List Block} {h : U64}

theorem Numbered.above (hn : Numbered h blocks) : ∀ b ∈ blocks, h < b.header.number := by
  induction blocks generalizing h with
  | nil => simp
  | cons b blocks ih =>
      obtain ⟨hb, hrest⟩ := hn
      refine List.forall_mem_cons.mpr ⟨by bv_omega, fun b' hb' => ?_⟩
      have := ih hrest b' hb'
      bv_omega

/-- The blocks above a head are those behind the ones that were replayed. -/
theorem Numbered.filter_above (hn : Numbered h blocks) {head : U64} {n : Nat}
    (hhead : head.toNat = h.toNat + n) :
    blocks.filter (fun b => decide (head < b.header.number)) = blocks.drop n := by
  induction blocks generalizing h n with
  | nil => simp
  | cons b blocks ih =>
      cases n with
      | zero =>
          -- nothing is dropped, and all of it is above
          obtain rfl : head = h := BitVec.eq_of_toNat_eq (by simpa using hhead)
          rw [List.drop_zero, List.filter_eq_self]
          exact fun b' hb' => decide_eq_true (hn.above b' hb')
      | succ n =>
          obtain ⟨hb, hrest⟩ := hn
          have hskip : ¬ head < b.header.number := by bv_omega
          rw [List.filter_cons_of_neg (by simpa using hskip), List.drop_succ_cons]
          exact ih hrest (by omega)

/-- The last of the first `n` blocks is `n` above the number they start from. -/
theorem Numbered.getLast_take (hn : Numbered h blocks) {n : Nat} (hle : n ≤ blocks.length) {b : Block}
    (hb : (blocks.take n).getLast? = some b) : b.header.number.toNat = h.toNat + n := by
  induction blocks generalizing h n with
  | nil => simp at hb
  | cons b₁ blocks ih =>
      cases n with
      | zero => simp at hb
      | succ n =>
          obtain ⟨hb₁, hrest⟩ := hn
          rw [List.take_succ_cons, List.getLast?_cons] at hb
          cases hl : (blocks.take n).getLast? with
          | some b' =>
              rw [hl] at hb
              obtain rfl := Option.some.inj hb
              have := ih hrest (Nat.le_of_succ_le_succ hle) hl
              omega
          -- the block is the only one that is taken
          | none =>
              rw [hl] at hb
              obtain rfl : b₁ = b := Option.some.inj hb
              have hlen := congrArg List.length (List.getLast?_eq_none_iff.mp hl)
              rw [List.length_take, List.length_nil, Nat.min_eq_left (Nat.le_of_succ_le_succ hle)] at hlen
              omega

/-- What is pending of a stream that delivers these blocks and then ends or fails. -/
theorem pending_map (head : U64) (fed : List Block) {rest : List (Except String Block)}
    (hrest : rest = [] ∨ ∃ e, rest = [.error e]) :
    pending (some head) (fed.map Except.ok ++ rest)
      = fed.filter (fun b => decide (head < b.header.number)) := by
  induction fed with
  | nil => rcases hrest with rfl | ⟨e, rfl⟩ <;> rfl
  | cons b fed ih =>
      rw [List.map_cons, List.cons_append, pending, ih]
      by_cases hb : b.header.number ≤ head
      · have : ¬ head < b.header.number := BitVec.not_lt.mpr hb
        simp [hb, this]
      · have : head < b.header.number := BitVec.not_le.mp hb
        simp [hb, this]

/-- **Either way, a call is left with the blocks behind the head.** -/
theorem Fed.filter_above {head : U64} {fed : List Block} (hfed : Fed blocks head fed) :
    fed.filter (fun b => decide (head < b.header.number))
      = blocks.filter (fun b => decide (head < b.header.number)) := by
  rcases hfed with rfl | rfl
  · rfl
  · rw [List.filter_filter]
    refine List.filter_congr fun b _ => ?_
    by_cases hb : head < b.header.number
    · have hstart : startBlock none (some head) ≤ b.header.number := by
        simp only [startBlock, Option.none_or, Option.map_some, Option.getD_some]
        bv_omega
      simp [hb, hstart]
    · simp [hb]

end Feeding

/-! ## Schedules -/

section Schedule

variable (evm : Evm) (keccak256 : Bytes → B256) (spec : ChainSpec) (blocks : List Block)

/--
Any number of calls on one database, each cut short: its stream ends early or fails, its
callback stops it, or the process does behind some commit. Kept are the numbers of the
blocks committed so far.
-/
inductive Interruptions (db₀ : StateDb) : List U64 → StateDb → Prop
  | start : Interruptions db₀ [] db₀
  | call {committed : List U64} {db db' : StateDb} {head : U64} {fed : List Block}
      {call : PipelineCall} {n k : Nat} {rest : List (Except String Block)} :
      Interruptions db₀ committed db → db.getHeadBlock = .ok (some head) → Fed blocks head fed →
      call.spec = spec → call.blocks = (fed.take n).map Except.ok ++ rest →
      (rest = [] ∨ ∃ e, rest = [.error e]) →
      (pipelineStates evm keccak256 db call)[k]? = some db' →
      Interruptions db₀ (committed ++ (runPipeline evm keccak256 db call).committed.take k) db'

end Schedule

section Resumed

variable {evm : Evm} {keccak256 : Bytes → B256} {spec : ChainSpec} {blocks : List Block}
  {db₀ db : StateDb} {h : U64}

/-- The first `n` blocks were replayed, each once. -/
structure AtPrefix (evm : Evm) (keccak256 : Bytes → B256) (spec : ChainSpec) (blocks : List Block)
    (db₀ : StateDb) (n : Nat) (committed : List U64) (db : StateDb) : Prop where
  le : n ≤ blocks.length
  committed : committed = (blocks.take n).map (fun b => b.header.number)
  db : replayAll evm keccak256 { blocks := [], spec := spec } 0 db₀ (blocks.take n) = .ok db

/-- The head says how many blocks were replayed. -/
theorem AtPrefix.head (hn : Numbered h blocks) (hdb₀ : db₀.getHeadBlock = .ok (some h)) {n : Nat}
    {committed : List U64} (hp : AtPrefix evm keccak256 spec blocks db₀ n committed db) :
    ∃ head : U64, db.getHeadBlock = .ok (some head) ∧ head.toNat = h.toNat + n := by
  have hhead := getHeadBlock_replayAll hp.db
  cases hl : (blocks.take n).getLast? with
  | some b =>
      rw [hl] at hhead
      exact ⟨_, hhead, hn.getLast_take hp.le hl⟩
  | none =>
      have hlen := congrArg List.length (List.getLast?_eq_none_iff.mp hl)
      rw [List.length_take, List.length_nil, Nat.min_eq_left hp.le] at hlen
      rw [hl] at hhead
      exact ⟨h, hhead.trans hdb₀, by rw [hlen, Nat.add_zero]⟩

/-- What a call leaves is its state behind everything it reports as committed. -/
theorem runPipeline_last {call : PipelineCall} {head : U64} (hhead : db.getHeadBlock = .ok (some head))
    (hplain : ∀ b ∈ pending (some head) call.blocks, b.stateDiffs = []) :
    ∃ k, (pipelineStates evm keccak256 db call)[k]? = some (runPipeline evm keccak256 db call).db
      ∧ (runPipeline evm keccak256 db call).committed.length ≤ k := by
  obtain ⟨hcommitted, hlast, _⟩ := plain_run evm keccak256 call ⟨db, {}, []⟩ hplain
  simp only [pipelineStates, runPipeline, hhead]
  rw [List.getLast?_eq_getElem?] at hlast
  refine ⟨_, hlast, ?_⟩
  rw [hcommitted, List.length_map, List.length_take]
  exact Nat.min_le_left _ _

/-- One more call, cut at any of its states. -/
theorem AtPrefix.call (hplain : ∀ b ∈ blocks, b.stateDiffs = []) {n k : Nat} {committed : List U64} {head : U64}
    {todo : List Block} {call : PipelineCall} {db' : StateDb}
    (hp : AtPrefix evm keccak256 spec blocks db₀ n committed db)
    (hhead : db.getHeadBlock = .ok (some head)) (hspec : call.spec = spec)
    (htodo : pending (some head) call.blocks = todo) (hpre : todo <+: blocks.drop n)
    (hk : (pipelineStates evm keccak256 db call)[k]? = some db') :
    ∃ n', AtPrefix evm keccak256 spec blocks db₀ n'
      (committed ++ (runPipeline evm keccak256 db call).committed.take k) db' := by
  obtain ⟨rest, hrest⟩ := hpre
  have htodoPlain : ∀ b ∈ pending (some head) call.blocks, b.stateDiffs = [] := by
    intro b hb
    rw [htodo] at hb
    exact hplain b (List.mem_of_mem_drop (hrest ▸ List.mem_append_left rest hb))
  have hstates : pipelineStates evm keccak256 db call
      = db :: pipelineCommits evm keccak256 call (some head) call.blocks ⟨db, {}, []⟩ := by
    rw [pipelineStates, hhead]
  have hrun : runPipeline evm keccak256 db call
      = pipelineLoop evm keccak256 call (some head) call.blocks ⟨db, {}, []⟩ := by
    rw [runPipeline, hhead]
  obtain ⟨hcommitted, _, hreplay⟩ := plain_run evm keccak256 call ⟨db, {}, []⟩ htodoPlain
  rw [htodo] at hcommitted hreplay
  rw [hstates] at hk
  -- the state is one of those the call goes through
  have hlt : k ≤ (pipelineCommits evm keccak256 call (some head) call.blocks ⟨db, {}, []⟩).length := by
    have := (List.getElem?_eq_some_iff.mp hk).1
    rw [List.length_cons] at this
    omega
  have htaken := List.prefix_iff_eq_take.mp ((List.take_prefix k todo).trans ⟨rest, hrest⟩)
  -- what this call commits goes on where the blocks before it ended
  have hmore : blocks.take n ++ todo.take k = blocks.take (n + (todo.take k).length) := by
    rw [List.take_add, ← htaken]
  refine ⟨n + (todo.take k).length, ?_, ?_, ?_⟩
  · have := congrArg List.length hrest
    simp only [List.length_append, List.length_drop] at this
    have := hp.le
    simp only [List.length_take]
    omega
  · rw [hp.committed, hrun, hcommitted, ← List.map_take, List.take_take, ← List.map_append,
      List.length_cons, Nat.add_sub_cancel, Nat.min_eq_left hlt, hmore]
  · rw [← hmore, replayAll_append hp.db, ← hreplay k db' hk]
    refine replayAll_plain hspec.symm (fun b hb => htodoPlain b ?_) _ _ _
    rw [htodo]
    exact List.mem_of_mem_take hb

/-- **Every interruption leaves a whole number of blocks**, each of them replayed once. -/
theorem interruptions_atPrefix (hn : Numbered h blocks) (hplain : ∀ b ∈ blocks, b.stateDiffs = [])
    (hdb₀ : db₀.getHeadBlock = .ok (some h)) {committed : List U64}
    (hint : Interruptions evm keccak256 spec blocks db₀ committed db) :
    ∃ n, AtPrefix evm keccak256 spec blocks db₀ n committed db := by
  induction hint with
  | start => exact ⟨0, Nat.zero_le _, rfl, rfl⟩
  | @call committed db db' head fed call n k rest _ hhead hfed hspec hstream hrest hk ih =>
      obtain ⟨m, hp⟩ := ih
      obtain ⟨head', hhead', hnum⟩ := hp.head hn hdb₀
      obtain rfl : head = head' := Option.some.inj (Except.ok.inj (hhead.symm.trans hhead'))
      refine hp.call hplain hhead hspec (by rw [hstream, pending_map _ _ hrest]) ?_ hk
      -- the stream was cut, so only a first part of what is behind the head is pending
      rw [← hn.filter_above hnum, ← hfed.filter_above]
      exact (List.take_prefix n fed).filter _

/-- An uninterrupted call replays what is pending, if that goes through at all. -/
theorem db_pipelineLoop {call : PipelineCall} {head last : U64} {bs : List Block}
    (st : PipelineState) {d : StateDb} (hgo : ∀ ps, call.onProgress ps = true)
    (hlast : st.stats.lastBlock.all (fun l => decide (l = last)) = true) (hn : Numbered last bs)
    (hle : head ≤ last) (hd : replayAll evm keccak256 call st.stats.blocksProcessed st.db bs = .ok d) :
    (pipelineLoop evm keccak256 call (some head) (bs.map Except.ok) st).db = d := by
  induction bs generalizing st last with
  | nil =>
      rw [replayAll, Except.ok.injEq] at hd
      exact hd
  | cons b bs ih =>
      obtain ⟨hb, hrest⟩ := hn
      have habove : ¬ Skipped (some head) b := by
        rw [skipped_some]
        bv_omega
      -- the blocks are numbered in sequence, so there is no gap
      have hnext : GoesOn b st := by
        intro l hl
        rw [hl, Option.all_some, decide_eq_true_eq] at hlast
        bv_omega
      rw [replayAll] at hd
      rw [List.map_cons]
      have hturn := pipelineTurn evm keccak256 call (some head) b (bs.map Except.ok) st
      generalize pipelineLoop evm keccak256 call (some head) (.ok b :: bs.map Except.ok) st = run
        at hturn ⊢
      generalize pipelineCommits evm keccak256 call (some head) (.ok b :: bs.map Except.ok) st = commits
        at hturn
      cases hturn with
      | skipped hskip => exact absurd hskip habove
      | gap _ hstop => exact absurd hnext hstop
      | failed _ _ herr =>
          simp only [herr] at hd
          cases hd
      | last _ _ _ hno =>
          rw [hgo] at hno
          cases hno
      | next _ _ hres _ =>
          simp only [hres] at hd
          exact ih (call.after evm keccak256 b st) (by simp [PipelineState.next]) hrest
            (by bv_omega) hd

/--
**Stopping and resuming changes nothing.** For blocks without diffs that go on from the
head: after any schedule of interrupted calls, a call that gets its whole stream through
leaves the database that one uninterrupted call leaves, and over all calls each block
was committed once.
-/
theorem interrupted_eq (hn : Numbered h blocks) (hplain : ∀ b ∈ blocks, b.stateDiffs = [])
    (hdb₀ : db₀.getHeadBlock = .ok (some h)) {committed : List U64}
    (hint : Interruptions evm keccak256 spec blocks db₀ committed db) {head : U64}
    (hhead : db.getHeadBlock = .ok (some head)) {fed : List Block} (hfed : Fed blocks head fed)
    {call : PipelineCall} (hspec : call.spec = spec) (hstream : call.blocks = fed.map Except.ok)
    (hconsumed : (runPipeline evm keccak256 db call).committed
      = (pending (some head) call.blocks).map (fun b => b.header.number))
    {whole : PipelineCall} (hwholeSpec : whole.spec = spec)
    (hwhole : whole.blocks = blocks.map Except.ok) (hgo : ∀ ps, whole.onProgress ps = true) :
    (runPipeline evm keccak256 db call).db = (runPipeline evm keccak256 db₀ whole).db
      ∧ committed ++ (runPipeline evm keccak256 db call).committed
        = blocks.map (fun b => b.header.number) := by
  obtain ⟨n, hp⟩ := interruptions_atPrefix hn hplain hdb₀ hint
  obtain ⟨head', hhead', hnum⟩ := hp.head hn hdb₀
  obtain rfl : head = head' := Option.some.inj (Except.ok.inj (hhead.symm.trans hhead'))
  have htodo : pending (some head) call.blocks = blocks.drop n := by
    have := pending_map head fed (.inl rfl)
    rw [List.append_nil] at this
    rw [hstream, this, hfed.filter_above, hn.filter_above hnum]
  have htodoPlain : ∀ b ∈ pending (some head) call.blocks, b.stateDiffs = [] := fun b hb =>
    hplain b (List.mem_of_mem_drop (htodo ▸ hb))
  obtain ⟨k, hk, hlen⟩ := runPipeline_last hhead htodoPlain
  obtain ⟨n', hp'⟩ := hp.call hplain hhead hspec htodo List.prefix_rfl hk
  rw [List.take_of_length_le hlen] at hp'
  -- everything that was pending went through, so nothing is missing
  have hall : committed ++ (runPipeline evm keccak256 db call).committed
      = blocks.map (fun b => b.header.number) := by
    rw [hp.committed, hconsumed, htodo, ← List.map_append, List.take_append_drop]
  have hn' : n' = blocks.length := by
    have := congrArg List.length (hp'.committed.symm.trans hall)
    simp only [List.length_map, List.length_take] at this
    have := hp'.le
    omega
  have hreplay := hp'.db
  rw [hn', List.take_length] at hreplay
  refine ⟨?_, hall⟩
  have hrun : runPipeline evm keccak256 db₀ whole
      = pipelineLoop evm keccak256 whole (some h) (blocks.map Except.ok) ⟨db₀, {}, []⟩ := by
    rw [runPipeline, hdb₀, hwhole]
  have hwholeReplay : replayAll evm keccak256 whole 0 db₀ blocks
      = .ok (runPipeline evm keccak256 db call).db :=
    (replayAll_plain hwholeSpec hplain 0 0 db₀).trans hreplay
  rw [hrun]
  exact (db_pipelineLoop ⟨db₀, {}, []⟩ hgo rfl hn (BitVec.le_refl h) hwholeReplay).symm

end Resumed

/-! ## A connection that is lost -/

/-- The two blocks above `headDb`. -/
def twoBlocks : List Block := [{ header := { number := 4 } }, { header := { number := 5 } }]

/-- The whole list, of which the first block arrives. -/
def lostCall : PipelineCall where
  blocks := (twoBlocks.take 1).map Except.ok ++ [.error "connection reset"]
  spec := ethereumMainnet

/-- The blocks from a head on. -/
def resumedCall (head : U64) : PipelineCall where
  blocks := (twoBlocks.filter fun b =>
    decide (startBlock none (some head) ≤ b.header.number)).map Except.ok
  spec := ethereumMainnet

def wholeCall : PipelineCall where
  blocks := twoBlocks.map Except.ok
  spec := ethereumMainnet

theorem interrupted_eq_lostCall :
    let evm := Evm.counting fun _ => KECCAK256_EMPTY
    let keccak256 := fun _ => KECCAK256_EMPTY
    let db := (runPipeline evm keccak256 headDb lostCall).db
    (runPipeline evm keccak256 db (resumedCall 4)).db
        = (runPipeline evm keccak256 headDb wholeCall).db
      ∧ (runPipeline evm keccak256 headDb lostCall).committed
          ++ (runPipeline evm keccak256 db (resumedCall 4)).committed = [4, 5] := by
  intro evm keccak256 db
  have hn : Numbered 3 twoBlocks := ⟨by decide, by decide, trivial⟩
  have hdb₀ : headDb.getHeadBlock = .ok (some 3) := by decide
  have hhead : db.getHeadBlock = .ok (some 4) := by decide
  -- one call that lost its stream behind block 4
  have hint : Interruptions evm keccak256 ethereumMainnet twoBlocks headDb
      ([] ++ (runPipeline evm keccak256 headDb lostCall).committed.take 1) db :=
    .call .start hdb₀ (.inl rfl) rfl rfl (.inr ⟨_, rfl⟩) rfl
  exact interrupted_eq hn (by decide) hdb₀ hint hhead (.inr rfl) rfl rfl (by decide) rfl rfl
    (fun _ => rfl)

end EvmState
