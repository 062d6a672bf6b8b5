import Mathlib.Data.List.Chain
import EvmState.Proof.Execute
import EvmState.Proof.Gaps
import EvmState.Proof.Hybrid

/-!
# The head and the state it stands for

Every state of the database during a call is the replay of a first part of the
blocks the call is given, or that and the first commit of a hybrid block
(`pipelineCommits_prefix`), and the head is the number of the last block of that
part. Along the call the head does not go back, unless the numbers do: the successor
of the largest `u64` is computed without a check, and a release build takes block 0
for the one that follows it.
-/

namespace EvmState

/-- The blocks a call does not skip, up to the first error of its stream. -/
def pending (head : Option U64) : List (Except String Block) → List Block
  | [] => []
  | .error _ :: _ => []
  | .ok block :: blocks =>
      if head.any (fun h => decide (block.header.number ≤ h)) then pending head blocks
      else block :: pending head blocks

section Replays

variable (evm : Evm) (keccak256 : Bytes → B256) (call : PipelineCall)

/-- Replay blocks one after another, the first of them as the `i`-th of the call. -/
def replayAll : Nat → StateDb → List Block → Except ReplayError StateDb
  | _, db, [] => .ok db
  | i, db, block :: blocks =>
      let r := replayBlock evm keccak256 (call.order i) db block call.spec
      match r.result with
      | .ok _ => replayAll (i + 1) (r.db db) blocks
      | .error err => .error err

/--
The database is `db` after a first part of `blocks`, or that and the first commit of
the block with diffs that is next.
-/
def IsPrefixState (i : Nat) (db : StateDb) (blocks : List Block) (d : StateDb) : Prop :=
  ∃ done rest d', blocks = done ++ rest ∧ replayAll evm keccak256 call i db done = .ok d'
    ∧ d'.getHeadBlock
        = (match done.getLast? with
          | some b => .ok (some b.header.number)
          | none => db.getHeadBlock)
    ∧ d.getHeadBlock = d'.getHeadBlock
    ∧ (d = d' ∨ ∃ next rest', rest = next :: rest' ∧ next.stateDiffs ≠ []
        ∧ d = (replayBlock evm keccak256 (call.order (i + done.length)) d' next call.spec).dbAfter 1
            d')

end Replays

/-! ## The commits of one block -/

section OneBlock

variable {evm : Evm} {keccak256 : Bytes → B256} {σ : HashOrder} {db : StateDb} {block : Block}
  {spec : ChainSpec}

/-- A first commit leaves the head alone. -/
theorem getHeadBlock_flush_none {c : Cache} :
    (flushCacheToDb σ db c none).getHeadBlock = db.getHeadBlock :=
  StateDb.getHeadBlock_commit_none (lastVal_flushBatch σ c none .headBlock)

/-- The commits of a replay: none, the last one, or in front of it one that leaves the head alone. -/
theorem mem_commits {d : StateDb} (h : d ∈ (replayBlock evm keccak256 σ db block spec).commits) :
    ((∃ res, (replayBlock evm keccak256 σ db block spec).result = .ok res)
        ∧ d = (replayBlock evm keccak256 σ db block spec).db db)
      ∨ block.stateDiffs ≠ [] ∧ d.getHeadBlock = db.getHeadBlock
        ∧ d = (replayBlock evm keccak256 σ db block spec).dbAfter 1 db := by
  have hcases := replayBlock_cases evm keccak256 σ db block spec
  generalize replayBlock evm keccak256 σ db block spec = r at hcases h
  cases hcases with
  | failed _ => cases h
  | plain _ _ =>
      obtain rfl := List.mem_singleton.mp h
      exact .inl ⟨⟨_, rfl⟩, rfl⟩
  -- the first commit of two leaves the head alone, the second one is the block
  | hybrid _ hne _ =>
      simp only [List.mem_cons, List.not_mem_nil, or_false] at h
      rcases h with rfl | rfl
      · exact .inr ⟨hne, getHeadBlock_flush_none, rfl⟩
      · exact .inl ⟨⟨_, rfl⟩, rfl⟩
  | half _ hne _ =>
      obtain rfl := List.mem_singleton.mp h
      exact .inr ⟨hne, getHeadBlock_flush_none, rfl⟩

variable (evm keccak256 σ db block spec) in
/-- Only the last commit of a replay that went through moves the head. -/
theorem commits_eq : ∃ front, (∀ d ∈ front, d.getHeadBlock = db.getHeadBlock)
    ∧ (replayBlock evm keccak256 σ db block spec).commits
      = front ++ match (replayBlock evm keccak256 σ db block spec).result with
        | .ok _ => [(replayBlock evm keccak256 σ db block spec).db db]
        | .error _ => [] := by
  have hcases := replayBlock_cases evm keccak256 σ db block spec
  generalize replayBlock evm keccak256 σ db block spec = r at hcases
  cases hcases with
  | failed _ => exact ⟨[], by simp, rfl⟩
  | plain _ _ => exact ⟨[], by simp, rfl⟩
  | @hybrid _ c _ _ _ _ =>
      exact ⟨[flushCacheToDb σ db c none], by simpa using getHeadBlock_flush_none, rfl⟩
  | @half _ c _ _ _ _ =>
      exact ⟨[flushCacheToDb σ db c none], by simpa using getHeadBlock_flush_none, rfl⟩

end OneBlock

/-! ## Every state of a call -/

section Call

variable {evm : Evm} {keccak256 : Bytes → B256} {call : PipelineCall} {head : Option U64}

/-- The head after blocks that were replayed is the last of them. -/
theorem getHeadBlock_replayAll {blocks : List Block} {i : Nat} {db d : StateDb}
    (h : replayAll evm keccak256 call i db blocks = .ok d) :
    d.getHeadBlock
      = match blocks.getLast? with
        | some b => .ok (some b.header.number)
        | none => db.getHeadBlock := by
  induction blocks generalizing i db with
  | nil =>
      rw [replayAll, Except.ok.injEq] at h
      rw [h]
      rfl
  | cons b blocks ih =>
      rw [replayAll] at h
      split at h
      · rename_i res hres
        rw [ih h, List.getLast?_cons]
        -- the last block sets the head
        cases hlast : blocks.getLast? with
        | some b' => rfl
        | none => exact getHeadBlock_replayBlock_ok hres
      · cases h

/-- The state a call starts in. -/
theorem isPrefixState_start (i : Nat) (db : StateDb) (blocks : List Block) :
    IsPrefixState evm keccak256 call i db blocks db :=
  ⟨[], blocks, db, rfl, rfl, rfl, rfl, .inl rfl⟩

/-- One more block in front of those that were replayed. -/
theorem IsPrefixState.cons {i : Nat} {db d : StateDb} {block : Block} {blocks : List Block}
    {res : BlockResult}
    (hres : (replayBlock evm keccak256 (call.order i) db block call.spec).result = .ok res)
    (h : IsPrefixState evm keccak256 call (i + 1)
      ((replayBlock evm keccak256 (call.order i) db block call.spec).db db) blocks d) :
    IsPrefixState evm keccak256 call i db (block :: blocks) d := by
  obtain ⟨done, rest, d', hsplit, hdone, hhead, hsame, hstate⟩ := h
  refine ⟨block :: done, rest, d', by rw [hsplit]; rfl, ?_, ?_, hsame, ?_⟩
  · simp only [replayAll, hres, hdone]
  · rw [hhead, List.getLast?_cons]
    cases done.getLast? with
    | some b => rfl
    | none => exact getHeadBlock_replayBlock_ok hres
  · rwa [List.length_cons, Nat.add_comm done.length 1, ← Nat.add_assoc]

/-- The commits of the next block. -/
theorem isPrefixState_commits {st : PipelineState} {block : Block} (blocks : List Block)
    {d : StateDb} (h : d ∈ (call.replay evm keccak256 block st).commits) :
    IsPrefixState evm keccak256 call st.stats.blocksProcessed st.db (block :: blocks) d := by
  rcases mem_commits h with ⟨⟨res, hres⟩, rfl⟩ | ⟨hne, hhead, hfirst⟩
  · exact (isPrefixState_start _ _ _).cons hres
  · -- the first commit of a hybrid block, on what was there before
    exact ⟨[], _, st.db, rfl, rfl, rfl, hhead, .inr ⟨block, _, rfl, hne, hfirst⟩⟩

/-- **Every state of a call is a prefix of its blocks, replayed.** -/
theorem pipelineCommits_prefix {blocks : List (Except String Block)} {st : PipelineState}
    {d : StateDb} (h : d ∈ pipelineCommits evm keccak256 call head blocks st) :
    IsPrefixState evm keccak256 call st.stats.blocksProcessed st.db (pending head blocks) d := by
  induction blocks generalizing st with
  | nil => cases h
  | cons item blocks ih =>
      cases item with
      | error e => cases h
      | ok block =>
          have hturn := pipelineTurn evm keccak256 call head block blocks st
          generalize pipelineLoop evm keccak256 call head (.ok block :: blocks) st = run at hturn
          generalize pipelineCommits evm keccak256 call head (.ok block :: blocks) st = commits
            at h hturn
          rw [pending]
          cases hturn with
          | skipped hskip =>
              rw [if_pos hskip]
              exact ih h
          | gap _ _ => cases h
          -- whatever the block ends in, the commits are its own
          | failed hskip _ _ | last hskip _ _ _ =>
              rw [if_neg hskip]
              exact isPrefixState_commits _ h
          | next hskip _ hres _ =>
              rw [if_neg hskip]
              rcases List.mem_append.mp h with h | h
              · exact isPrefixState_commits _ h
              · exact IsPrefixState.cons hres (ih h)

/-- The head of `d` is at or below that of `d'`. -/
def HeadLe (d d' : StateDb) : Prop :=
  ∀ n, d.getHeadBlock = .ok (some n) → ∃ n', d'.getHeadBlock = .ok (some n') ∧ n ≤ n'

theorem HeadLe.of_eq {d d' : StateDb} (h : d'.getHeadBlock = d.getHeadBlock) : HeadLe d d' :=
  fun n hn => ⟨n, h.trans hn, BitVec.le_refl n⟩

theorem HeadLe.trans {d₁ d₂ d₃ : StateDb} (h : HeadLe d₁ d₂) (h' : HeadLe d₂ d₃) : HeadLe d₁ d₃ := by
  intro n hn
  obtain ⟨n₂, hn₂, hle⟩ := h n hn
  obtain ⟨n₃, hn₃, hle'⟩ := h' n₂ hn₂
  exact ⟨n₃, hn₃, BitVec.le_trans hle hle'⟩

/-- A block with the largest number is not followed by block 0. -/
def NoWrap (x y : Except String Block) : Prop :=
  ∀ b b', x = .ok b → y = .ok b' → ¬ (b.header.number = 18446744073709551615 ∧ b'.header.number = 0)

/-- Where a call stands: nothing replayed yet, or `last` was, and is the head. -/
def AtLast (head : Option U64) (st : PipelineState) (blocks : List (Except String Block)) : Prop :=
  (st.stats.lastBlock = none ∧ st.db.getHeadBlock = .ok head
      ∧ (head.isSome ∨ blocks.IsChain NoWrap))
    ∨ ∃ last : Block, st.stats.lastBlock = some last.header.number
      ∧ st.db.getHeadBlock = .ok (some last.header.number)
      ∧ (head.any (fun h => decide (h ≤ last.header.number)) = true
          ∨ head = none ∧ (.ok last :: blocks).IsChain NoWrap)

/-- The next block that is replayed is above the head. -/
theorem AtLast.headLe {st : PipelineState} {block : Block} {blocks : List (Except String Block)}
    (h : AtLast head st (.ok block :: blocks))
    (hskip : ¬ Skipped head block) (hgo : GoesOn block st) {d : StateDb}
    (hd : d.getHeadBlock = .ok (some block.header.number)) : HeadLe st.db d := by
  intro n hn
  refine ⟨_, hd, ?_⟩
  rcases h with ⟨_, hhead, _⟩ | ⟨last, hlast, hhead, hwrap⟩
  · rw [hn] at hhead
    -- nothing was replayed yet: the block is above the head it starts from
    obtain rfl := Except.ok.inj hhead
    rw [skipped_some] at hskip
    bv_omega
  · obtain rfl : n = last.header.number := Option.some.inj (Except.ok.inj (hn.symm.trans hhead))
    -- the block follows the last one, whose number is the head
    have hnum : block.header.number = last.header.number + 1 := hgo _ hlast
    rcases hwrap with hbelow | ⟨_, hchain⟩
    · cases head with
      | none => simp at hbelow
      | some h =>
          rw [skipped_some] at hskip
          simp only [Option.any_some, decide_eq_true_eq] at hbelow
          bv_omega
    · -- without a head the blocks themselves have to go on
      have := (List.isChain_cons_cons.mp hchain).1 last block rfl rfl
      bv_omega

/-- Skipping a block changes nothing; it takes a head to be skipped. -/
theorem AtLast.skip {st : PipelineState} {block : Block} {blocks : List (Except String Block)}
    (h : AtLast head st (.ok block :: blocks))
    (hskip : Skipped head block) : AtLast head st blocks := by
  rcases h with ⟨hl, hd, hcond⟩ | ⟨last, hl, hd, hcond⟩
  · exact .inl ⟨hl, hd, hcond.imp_right List.IsChain.tail⟩
  · refine .inr ⟨last, hl, hd, hcond.imp_right fun hx => ?_⟩
    rw [hx.1] at hskip
    cases hskip

/-- A block that went through is the last one. -/
theorem AtLast.next {st : PipelineState} {block : Block} {blocks : List (Except String Block)}
    (h : AtLast head st (.ok block :: blocks)) (hskip : ¬ Skipped head block) {d : StateDb}
    (hd : d.getHeadBlock = .ok (some block.header.number)) :
    AtLast head (st.next block d) blocks := by
  refine .inr ⟨block, rfl, hd, ?_⟩
  cases head with
  | none =>
      rcases h with ⟨_, _, hcond⟩ | ⟨last, _, _, hcond⟩
      · exact .inr ⟨rfl, hcond.resolve_left (by simp)⟩
      · exact .inr ⟨rfl, (hcond.resolve_left (by simp)).2.tail⟩
  | some n =>
      rw [skipped_some] at hskip
      simp only [Option.any_some, decide_eq_true_eq]
      exact .inl (BitVec.le_of_lt (BitVec.not_le.mp hskip))

/-- States that keep the head, in front of states where it has grown. -/
theorem pairwise_headLe {db : StateDb} {front l : List StateDb}
    (hfront : ∀ d ∈ front, d.getHeadBlock = db.getHeadBlock) (hdb : ∀ d ∈ l, HeadLe db d)
    (hl : l.Pairwise HeadLe) : (db :: (front ++ l)).Pairwise HeadLe := by
  have hsame : ∀ d ∈ front, ∀ d' ∈ front, HeadLe d d' := fun d hd d' hd' =>
    .of_eq ((hfront d' hd').trans (hfront d hd).symm)
  refine List.pairwise_cons.mpr ⟨fun d hd => ?_, List.pairwise_append.mpr ⟨?_, hl, ?_⟩⟩
  · rcases List.mem_append.mp hd with hd | hd
    · exact .of_eq (hfront d hd)
    · exact hdb d hd
  · exact List.pairwise_iff_forall_sublist.mpr fun hsub =>
      hsame _ (hsub.subset (by simp)) _ (hsub.subset (by simp))
  · exact fun d hd d' hd' => HeadLe.trans (.of_eq (hfront d hd).symm) (hdb d' hd')

/-- A block that fails leaves the head. -/
theorem pairwise_commits_error {st : PipelineState} {block : Block} {err : ReplayError}
    (herr : (call.replay evm keccak256 block st).result = .error err) :
    (st.db :: (call.replay evm keccak256 block st).commits).Pairwise HeadLe := by
  obtain ⟨front, hfront, hcommits⟩ := commits_eq evm keccak256
    (call.order st.stats.blocksProcessed) st.db block call.spec
  rw [herr] at hcommits
  rw [hcommits]
  exact pairwise_headLe hfront (fun _ hd => by cases hd) .nil

/-- One that goes through moves it, and what follows starts there. -/
theorem pairwise_commits_ok {st : PipelineState} {block : Block} {res : BlockResult}
    (hres : (call.replay evm keccak256 block st).result = .ok res)
    (hle : HeadLe st.db ((call.replay evm keccak256 block st).db st.db)) {l : List StateDb}
    (hl : ((call.replay evm keccak256 block st).db st.db :: l).Pairwise HeadLe) :
    (st.db :: ((call.replay evm keccak256 block st).commits ++ l)).Pairwise HeadLe := by
  obtain ⟨front, hfront, hcommits⟩ := commits_eq evm keccak256
    (call.order st.stats.blocksProcessed) st.db block call.spec
  rw [hres] at hcommits
  rw [hcommits, List.append_assoc]
  refine pairwise_headLe hfront (fun d hd => ?_) hl
  rcases List.mem_cons.mp hd with rfl | hd
  · exact hle
  · exact hle.trans (List.rel_of_pairwise_cons hl hd)

/-- The head does not go back along the commits of a call. -/
theorem pairwise_pipelineCommits {blocks : List (Except String Block)} {st : PipelineState}
    (h : AtLast head st blocks) :
    (st.db :: pipelineCommits evm keccak256 call head blocks st).Pairwise HeadLe := by
  induction blocks generalizing st with
  | nil => exact List.pairwise_singleton HeadLe st.db
  | cons item blocks ih =>
      cases item with
      | error e => exact List.pairwise_singleton HeadLe st.db
      | ok block =>
          have hturn := pipelineTurn evm keccak256 call head block blocks st
          generalize pipelineLoop evm keccak256 call head (.ok block :: blocks) st = run at hturn
          generalize pipelineCommits evm keccak256 call head (.ok block :: blocks) st = commits
            at hturn ⊢
          cases hturn with
          | skipped hskip => exact ih (h.skip hskip)
          | gap _ _ => exact List.pairwise_singleton HeadLe st.db
          | failed _ _ herr => exact pairwise_commits_error herr
          | last hskip hgo hres _ =>
              -- the head the block sets is not below the one it is at
              have hle := h.headLe hskip hgo (getHeadBlock_replayBlock_ok hres)
              have hall := pairwise_commits_ok hres hle (List.pairwise_singleton HeadLe _)
              rwa [List.append_nil] at hall
          | next hskip hgo hres _ =>
              have hd := getHeadBlock_replayBlock_ok hres
              exact pairwise_commits_ok hres (h.headLe hskip hgo hd) (ih (h.next hskip hd))

theorem mem_db (r : Replay) (db : StateDb) : r.db db ∈ db :: r.commits := by
  unfold Replay.db
  cases hlast : r.commits.getLast? with
  | none => exact List.mem_cons_self
  | some d => exact List.mem_cons_of_mem _ (List.mem_of_getLast? hlast)

/-- What a call leaves is one of its states. -/
theorem db_mem_pipelineCommits (blocks : List (Except String Block)) (st : PipelineState) :
    (pipelineLoop evm keccak256 call head blocks st).db
      ∈ st.db :: pipelineCommits evm keccak256 call head blocks st := by
  induction blocks generalizing st with
  | nil => exact List.mem_cons_self
  | cons item blocks ih =>
      cases item with
      | error e => exact List.mem_cons_self
      | ok block =>
          have hturn := pipelineTurn evm keccak256 call head block blocks st
          generalize pipelineLoop evm keccak256 call head (.ok block :: blocks) st = run at hturn ⊢
          generalize pipelineCommits evm keccak256 call head (.ok block :: blocks) st = commits
            at hturn ⊢
          have hdb := mem_db (call.replay evm keccak256 block st) st.db
          cases hturn with
          | skipped _ => exact ih st
          | gap _ _ => exact List.mem_cons_self
          | failed _ _ _ | last _ _ _ _ => exact hdb
          -- the loop goes on from the last commit of this block
          | next _ _ _ _ =>
              rw [← List.cons_append]
              rcases List.mem_cons.mp (ih (call.after evm keccak256 block st)) with heq | hmem
              · exact List.mem_append_left _ (heq ▸ hdb)
              · exact List.mem_append_right _ hmem

end Call

section Sound

variable {evm : Evm} {keccak256 : Bytes → B256}

theorem db_mem_pipelineStates (db : StateDb) (call : PipelineCall) :
    (runPipeline evm keccak256 db call).db ∈ pipelineStates evm keccak256 db call := by
  unfold runPipeline pipelineStates
  cases db.getHeadBlock with
  | error e => exact List.mem_singleton.mpr rfl
  | ok head => exact db_mem_pipelineCommits _ _

/--
**The head never runs ahead of the state.** In every state of a call the database is
a first part of the call's blocks replayed, with the last of them as the head, or that
and the first commit of the next block, if it has diffs. And the head does not go
back, if there is one to begin with or the numbers of the blocks do not start over.
-/
theorem pipelineStates_sound {db : StateDb} {call : PipelineCall} :
    (∀ d ∈ pipelineStates evm keccak256 db call, ∀ n, d.getHeadBlock = .ok (some n) →
        ∃ head, db.getHeadBlock = .ok head
          ∧ IsPrefixState evm keccak256 call 0 db (pending head call.blocks) d)
      ∧ (db.getHeadBlock ≠ .ok none ∨ call.blocks.IsChain NoWrap →
          (pipelineStates evm keccak256 db call).Pairwise HeadLe) := by
  unfold pipelineStates
  cases hd : db.getHeadBlock with
  | error e =>
      refine ⟨fun d hmem n hn => ?_, fun _ => List.pairwise_singleton HeadLe db⟩
      obtain rfl := List.mem_singleton.mp hmem
      rw [hd] at hn
      cases hn
  | ok head =>
      refine ⟨fun d hmem n _ => ⟨head, rfl, ?_⟩, fun h => ?_⟩
      · rcases List.mem_cons.mp hmem with rfl | hmem
        · exact isPrefixState_start 0 _ _
        · exact pipelineCommits_prefix hmem
      · -- before the first block the head of the call is that of the database
        have hstart : AtLast head ⟨db, {}, []⟩ call.blocks := by
          refine .inl ⟨rfl, hd, h.imp_left fun hne => ?_⟩
          cases head with
          | none => exact absurd rfl hne
          | some n => rfl
        exact pairwise_pipelineCommits hstart

/-- The block with the largest number, and behind it block 0. -/
def wrapCall : PipelineCall where
  blocks := [.ok { header := { number := 18446744073709551615 } }, .ok { header := { number := 0 } }]
  spec := ethereumMainnet

/-- Without a head to begin with, block 0 goes through and becomes the head. -/
theorem pipelineStates_head_decreases :
    ¬ (pipelineStates (.counting fun _ => KECCAK256_EMPTY) (fun _ => KECCAK256_EMPTY) .empty
        wrapCall).Pairwise HeadLe := by
  intro h
  have hheads : (pipelineStates (.counting fun _ => KECCAK256_EMPTY) (fun _ => KECCAK256_EMPTY)
      .empty wrapCall).map StateDb.getHeadBlock
      = [.ok none, .ok (some 18446744073709551615), .ok (some 0)] := by decide
  have hpair := (List.pairwise_map (f := StateDb.getHeadBlock)
    (R := fun x y => ∀ n, x = .ok (some n) → ∃ n', y = .ok (some n') ∧ n ≤ n')).mpr h
  rw [hheads] at hpair
  obtain ⟨_, hpair⟩ := List.pairwise_cons.mp hpair
  obtain ⟨n, hn, hle⟩ := (List.pairwise_cons.mp hpair).1 _ List.mem_cons_self _ rfl
  obtain rfl := Option.some.inj (Except.ok.inj hn)
  exact absurd hle (by decide)

/-- The sender at block 9. -/
def ninthDb : StateDb := senderDb.commit [.setHeadBlock 9]

/-- A block with a transaction and diffs, and an empty one. -/
def mixedCall : PipelineCall where
  blocks := [.ok hybridBlock, .ok { header := { number := 11 } }]
  spec := polygonMainnet

/-- Between the two commits of block 10 the head is still 9. -/
theorem pipelineStates_sound_mixedCall :
    let states := pipelineStates (.counting fun _ => KECCAK256_EMPTY) (fun _ => KECCAK256_EMPTY)
      ninthDb mixedCall
    states.map StateDb.getHeadBlock = [.ok (some 9), .ok (some 9), .ok (some 10), .ok (some 11)]
      ∧ (∀ d ∈ states, ∀ n, d.getHeadBlock = .ok (some n) →
          ∃ head, ninthDb.getHeadBlock = .ok head
            ∧ IsPrefixState (.counting fun _ => KECCAK256_EMPTY) (fun _ => KECCAK256_EMPTY)
              mixedCall 0 ninthDb (pending head mixedCall.blocks) d)
      ∧ states.Pairwise HeadLe :=
  ⟨by decide, pipelineStates_sound.1, pipelineStates_sound.2 (.inl (by decide))⟩

end Sound

end EvmState
