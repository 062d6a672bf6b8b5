import EvmState.Proof.Gaps
import EvmState.Replayer.Loop

/-!
# What the statistics of a pipeline run say

A run takes the blocks of its stream one by one until it stops: a part it has `seen`,
of which the blocks above the initial head are committed, and a `rest`. `Stop` lists
the ways a run can stop, each with the result it has then. So the committed blocks
are numbered in sequence, each is reported once and right after it was replayed, and
where the result is `Ok` its numbers count them (`run_facts`).
-/

namespace EvmState

/-- The number of the last committed block. -/
def lastNumber (committed : List Block) : Option U64 :=
  committed.getLast?.map (fun b => b.header.number)

/-- The statistics of the committed blocks. -/
def statsOf (committed : List Block) : PipelineStats where
  blocksProcessed := committed.length
  firstBlock := committed.head?.map (fun b => b.header.number)
  lastBlock := lastNumber committed

/-- The reports on the committed blocks, which count them from one. -/
def reportsOf (committed : List Block) : List BlockProgress :=
  committed.zipIdx.map fun e => ⟨e.1.header.number, e.1.transactions.length, e.2 + 1⟩

/-- Each block is replayed and then reported, before the next one is; `k` were before them. -/
def eventsFrom (k : Nat) (committed : List Block) : List PipelineEvent :=
  (committed.zipIdx k).flatMap fun e =>
    [.replayed e.1, .progress ⟨e.1.header.number, e.1.transactions.length, e.2 + 1⟩]

/-- The block is not skipped. -/
def aboveHead (head : Option U64) (block : Block) : Bool :=
  !head.any fun h => decide (block.header.number ≤ h)

/-- The block may follow the committed ones. -/
def Follows (committed : List Block) (block : Block) : Prop :=
  ∀ last, lastNumber committed = some last → block.header.number = last + 1

/-- The callback did not ask to stop after these. -/
def Accepts (onProgress : List BlockProgress → Bool) (committed : List Block) : Prop :=
  committed ≠ [] → onProgress (reportsOf committed) = true

section Facts

variable {δ : Type} (step : ReplayStep δ) (onProgress : List BlockProgress → Bool)
  (head : Option U64)

/--
How a run stops, with what is left of the stream: the events that come then, the
database and the result.
-/
inductive Stop (committed : List Block) (db : δ) :
    List (Except String Block) → List PipelineEvent → δ → Except ReplayError PipelineStats → Prop
  /-- The stream has ended. -/
  | ended : Accepts onProgress committed → Stop committed db [] [] db (.ok (statsOf committed))
  /-- The callback returned false for the last block. -/
  | refused {rest : List (Except String Block)} : committed ≠ [] →
      onProgress (reportsOf committed) = false →
      Stop committed db rest [] db (.ok (statsOf committed))
  | source {rest : List (Except String Block)} {e : String} : Accepts onProgress committed →
      Stop committed db (.error e :: rest) [] db (.error (.source e))
  | gap {rest : List (Except String Block)} {block : Block} {last : U64} :
      Accepts onProgress committed → aboveHead head block = true →
      lastNumber committed = some last → block.header.number ≠ last + 1 →
      Stop committed db (.ok block :: rest) [] db (.error (gapError last block.header.number))
  | replay {rest : List (Except String Block)} {block : Block} {db' : δ} {err : ReplayError} :
      Accepts onProgress committed → aboveHead head block = true → Follows committed block →
      step.replay committed.length db block = (db', .error err) →
      Stop committed db (.ok block :: rest) [.failed block err] db' (.error err)

/-- A run of the loop, from where the blocks `done` are committed. -/
structure LoopRuns (done : List Block) (blocks : List (Except String Block)) (run : LoopRun δ)
    (seen : List Block) (rest : List (Except String Block)) : Prop where
  stream : blocks = seen.map .ok ++ rest
  /-- Each block that is committed follows those before it, and none of them was to be the last. -/
  commits : ∀ pre b post, seen.filter (aboveHead head) = pre ++ b :: post →
    Follows (done ++ pre) b ∧ Accepts onProgress (done ++ pre)
  stops : ∃ tail db,
    run.events = eventsFrom done.length (seen.filter (aboveHead head)) ++ tail
      ∧ step.head db = .ok ((lastNumber (done ++ seen.filter (aboveHead head))).or head)
      ∧ Stop step onProgress head (done ++ seen.filter (aboveHead head)) db rest tail run.db
          run.result

variable {step onProgress head}

theorem lastNumber_concat (done : List Block) (block : Block) :
    lastNumber (done ++ [block]) = some block.header.number := by
  simp [lastNumber]

theorem statsOf_concat (done : List Block) (block : Block) :
    (statsOf done).next block = statsOf (done ++ [block]) := by
  have hlast := lastNumber_concat done block
  cases done with
  | nil => simp [PipelineStats.next, statsOf, lastNumber]
  | cons b done =>
      simp only [PipelineStats.next, statsOf, hlast]
      simp

theorem reportsOf_concat (done : List Block) (block : Block) :
    reportsOf done ++ [BlockProgress.ofBlock (statsOf (done ++ [block])) block]
      = reportsOf (done ++ [block]) := by
  simp [reportsOf, BlockProgress.ofBlock, statsOf, List.zipIdx_append]

/-- A block that is skipped changes nothing. -/
theorem LoopRuns.skip {done seen : List Block} {blocks rest : List (Except String Block)}
    {block : Block} {run : LoopRun δ} (hskip : aboveHead head block = false)
    (h : LoopRuns step onProgress head done blocks run seen rest) :
    LoopRuns step onProgress head done (.ok block :: blocks) run (block :: seen) rest := by
  have hfilter : (block :: seen).filter (aboveHead head) = seen.filter (aboveHead head) := by
    simp [hskip]
  refine ⟨by rw [h.stream, List.map_cons, List.cons_append], ?_, ?_⟩
  · rw [hfilter]
    exact h.commits
  · rw [hfilter]
    exact h.stops

/-- **What one turn of the loop adds**: the block is committed and reported, and the run goes on. -/
theorem LoopRuns.next {done seen : List Block} {blocks rest : List (Except String Block)}
    {block : Block} {run : LoopRun δ} (habove : aboveHead head block = true)
    (hfollows : Follows done block) (haccepts : Accepts onProgress done)
    (h : LoopRuns step onProgress head (done ++ [block]) blocks run seen rest) :
    LoopRuns step onProgress head done (.ok block :: blocks)
      { run with
        events := .replayed block
          :: .progress (BlockProgress.ofBlock (statsOf (done ++ [block])) block) :: run.events }
      (block :: seen) rest := by
  -- the block is above the head, so it is one of those that are committed
  have hfilter : (block :: seen).filter (aboveHead head)
      = block :: seen.filter (aboveHead head) := by
    simp [habove]
  have happend : ∀ l, done ++ block :: l = done ++ [block] ++ l := by simp
  refine ⟨by rw [h.stream, List.map_cons, List.cons_append], ?_, ?_⟩
  · rw [hfilter]
    intro pre b post heq
    cases pre with
    -- the first committed block is this one
    | nil =>
        obtain ⟨rfl, _⟩ := List.cons.inj heq
        rw [List.append_nil]
        exact ⟨hfollows, haccepts⟩
    | cons c pre =>
        obtain ⟨hc, htail⟩ := List.cons.inj heq
        rw [← hc, happend]
        exact h.commits pre b post htail
  · obtain ⟨tail, db, hevents, hhead, hstop⟩ := h.stops
    refine ⟨tail, db, ?_, ?_, ?_⟩
    · rw [hfilter, hevents]
      simp [eventsFrom, BlockProgress.ofBlock, statsOf]
    · rw [hfilter, happend]
      exact hhead
    · rw [hfilter, happend]
      exact hstop

/-- A run that stops before it takes a block. -/
theorem LoopRuns.stop {done : List Block} {blocks : List (Except String Block)} {db : δ}
    {run : LoopRun δ} (hhead : step.head db = .ok ((lastNumber done).or head))
    (hstop : Stop step onProgress head done db blocks run.events run.db run.result) :
    LoopRuns step onProgress head done blocks run [] blocks := by
  refine ⟨rfl, by simp, run.events, db, ?_, ?_, ?_⟩
  · rw [List.filter_nil, eventsFrom, List.zipIdx_nil, List.flatMap_nil, List.nil_append]
  · rw [List.filter_nil, List.append_nil]
    exact hhead
  · rw [List.filter_nil, List.append_nil]
    exact hstop

/-! ### One turn, for each way it can go -/

/-- What the loop carries when the blocks `done` are committed. -/
def loopState (done : List Block) (db : δ) : LoopState δ := ⟨db, statsOf done, reportsOf done⟩

section Turn

variable {done : List Block} {db db' : δ} {block : Block} (blocks : List (Except String Block))

theorem not_skipped (habove : aboveHead head block = true) :
    ¬ (head.any fun h => decide (block.header.number ≤ h)) = true := by
  simpa [aboveHead] using habove

theorem no_gap (hfollows : Follows done block) :
    (statsOf done).lastBlock.filter (fun last => block.header.number != last + 1) = none := by
  refine Option.filter_eq_none_iff.mpr fun last hlast => ?_
  simpa using hfollows last hlast

theorem loop_skip (hskip : aboveHead head block = false) :
    step.loop onProgress head (.ok block :: blocks) (loopState done db)
      = step.loop onProgress head blocks (loopState done db) := by
  have hle : (head.any fun h => decide (block.header.number ≤ h)) = true := by
    simpa [aboveHead] using hskip
  rw [ReplayStep.loop, if_pos hle]

theorem loop_gap (habove : aboveHead head block = true) {last : U64}
    (hlast : lastNumber done = some last) (hne : block.header.number ≠ last + 1) :
    step.loop onProgress head (.ok block :: blocks) (loopState done db)
      = ⟨db, [], .error (gapError last block.header.number)⟩ := by
  have hgap : (statsOf done).lastBlock.filter (fun last => block.header.number != last + 1)
      = some last := Option.filter_eq_some_iff.mpr ⟨hlast, by simpa using hne⟩
  rw [ReplayStep.loop, if_neg (not_skipped habove)]
  simp only [loopState, hgap]

theorem loop_failed (habove : aboveHead head block = true) (hfollows : Follows done block)
    {err : ReplayError} (hstep : step.replay done.length db block = (db', .error err)) :
    step.loop onProgress head (.ok block :: blocks) (loopState done db)
      = ⟨db', [.failed block err], .error err⟩ := by
  have hcount : (statsOf done).blocksProcessed = done.length := rfl
  rw [ReplayStep.loop, if_neg (not_skipped habove)]
  simp only [loopState, no_gap hfollows, hcount, hstep]

/-- A block that is replayed is reported, and the callback decides whether the run goes on. -/
theorem loop_replayed (habove : aboveHead head block = true) (hfollows : Follows done block)
    (hstep : step.replay done.length db block = (db', .ok ())) :
    step.loop onProgress head (.ok block :: blocks) (loopState done db)
      = let run := if onProgress (reportsOf (done ++ [block])) then
            step.loop onProgress head blocks (loopState (done ++ [block]) db')
          else ⟨db', [], .ok (statsOf (done ++ [block]))⟩
        { run with
          events := .replayed block
            :: .progress (BlockProgress.ofBlock (statsOf (done ++ [block])) block) :: run.events } := by
  have hcount : (statsOf done).blocksProcessed = done.length := rfl
  rw [ReplayStep.loop, if_neg (not_skipped habove)]
  simp only [loopState, no_gap hfollows, hcount, hstep, statsOf_concat, reportsOf_concat]

end Turn

/-- Every run of the loop stops in one of those ways. -/
theorem exists_loopRuns (blocks : List (Except String Block)) {done : List Block} {db : δ}
    (haccepts : Accepts onProgress done)
    (hhead : step.head db = .ok ((lastNumber done).or head)) :
    ∃ seen rest, LoopRuns step onProgress head done blocks
      (step.loop onProgress head blocks (loopState done db)) seen rest := by
  -- on the stream: an item either ends the run or is one turn of it
  induction blocks generalizing done db with
  | nil => exact ⟨[], [], .stop hhead (.ended haccepts)⟩
  | cons item blocks ih =>
      cases item with
      | error e => exact ⟨[], .error e :: blocks, .stop hhead (.source haccepts)⟩
      | ok block =>
          by_cases habove : aboveHead head block = true
          · by_cases hfollows : Follows done block
            · cases hstep : step.replay done.length db block with
              | mk db' result =>
                  cases result with
                  | error err =>
                      rw [loop_failed blocks habove hfollows hstep]
                      exact ⟨[], .ok block :: blocks,
                        .stop hhead (.replay haccepts habove hfollows hstep)⟩
                  | ok u =>
                      have hhead' : step.head db'
                          = .ok ((lastNumber (done ++ [block])).or head) := by
                        rw [lastNumber_concat, Option.some_or]
                        exact step.head_of_ok _ _ _ _ hstep
                      rw [loop_replayed blocks habove hfollows hstep]
                      -- the callback is asked about the blocks up to this one
                      by_cases hgo : onProgress (reportsOf (done ++ [block])) = true
                      · obtain ⟨seen, rest, hruns⟩ := ih (fun _ => hgo) hhead'
                        rw [if_pos hgo]
                        exact ⟨block :: seen, rest, hruns.next habove hfollows haccepts⟩
                      · have hstop : LoopRuns step onProgress head (done ++ [block]) blocks
                            ⟨db', [], .ok (statsOf (done ++ [block]))⟩ [] blocks :=
                          .stop hhead' (.refused (by simp) (by simpa using hgo))
                        rw [if_neg hgo]
                        exact ⟨[block], blocks, hstop.next habove hfollows haccepts⟩
            · obtain ⟨last, hlast, hne⟩ : ∃ last, lastNumber done = some last
                  ∧ block.header.number ≠ last + 1 := by
                simpa [Follows] using hfollows
              rw [loop_gap blocks habove hlast hne]
              exact ⟨[], .ok block :: blocks, .stop hhead (.gap haccepts habove hlast hne)⟩
          · have hskip : aboveHead head block = false := by simpa using habove
            obtain ⟨seen, rest, hruns⟩ := ih haccepts hhead
            rw [loop_skip blocks hskip]
            exact ⟨block :: seen, rest, hruns.skip hskip⟩

/-! ## The whole run -/

/-- Blocks in sequence are counted by their numbers. -/
theorem count_of_follows {committed : List Block} (hne : committed ≠ [])
    (hmax : ∀ b ∈ committed, b.header.number < BitVec.allOnes 64)
    (hseq : ∀ pre b post, committed = pre ++ b :: post → Follows pre b) :
    ∃ first last, (statsOf committed).firstBlock = some first
      ∧ (statsOf committed).lastBlock = some last
      ∧ first.toNat + committed.length = last.toNat + 1 := by
  -- from the end, as each block is compared with the one before it
  induction committed using List.reverseRecOn with
  | nil => exact absurd rfl hne
  | append_singleton pre b ih =>
      have hlast : (statsOf (pre ++ [b])).lastBlock = some b.header.number := lastNumber_concat pre b
      cases pre with
      | nil => exact ⟨b.header.number, b.header.number, rfl, hlast, rfl⟩
      | cons c pre =>
          obtain ⟨first, last, hfirst, hlast', hcount⟩ := ih (by simp)
            (fun x hx => hmax x (List.mem_append_left _ hx))
            (fun pre' x post heq => hseq pre' x (post ++ [b]) (by rw [heq]; simp))
          have hnext : b.header.number = last + 1 :=
            hseq (c :: pre) b [] rfl last hlast'
          have hlast'' : (c :: pre).getLast?.map (fun b => b.header.number) = some last := hlast'
          obtain ⟨l, hl, hnum⟩ := Option.map_eq_some_iff.mp hlast''
          -- the number before is not the largest one, so adding one does not wrap
          have hlt : last < BitVec.allOnes 64 :=
            hnum ▸ hmax l (List.mem_append_left _ (List.mem_of_getLast? hl))
          have hones : (BitVec.allOnes 64).toNat = 2 ^ 64 - 1 := BitVec.toNat_allOnes
          refine ⟨first, b.header.number, ?_, hlast, ?_⟩
          · simpa [statsOf] using hfirst
          · rw [List.length_append, List.length_singleton, hnext]
            bv_omega

variable (step onProgress head)

/-- What a run of the pipeline is, from its stream to its result. -/
structure PipelineFacts (blocks : List (Except String Block)) (run : LoopRun δ)
    (seen : List Block) (rest : List (Except String Block)) (committed : List Block) : Prop where
  stream : blocks = seen.map .ok ++ rest
  /-- Of what the run has seen, everything above the initial head is committed. -/
  committed_eq : committed = seen.filter (aboveHead head)
  /-- Each committed block follows the one before it, and the callback let the run go on. -/
  sequence : ∀ pre b post, committed = pre ++ b :: post →
    Follows pre b ∧ Accepts onProgress pre
  /-- Nothing is replayed or reported but the committed blocks, and at most one that fails. -/
  stops : ∃ tail db, run.events = eventsFrom 0 committed ++ tail
    ∧ Stop step onProgress head committed db rest tail run.db run.result
  /-- No block at or below the initial head is ever replayed. -/
  above : ∀ b, (.replayed b ∈ run.events ∨ ∃ err, .failed b err ∈ run.events) →
    ∀ h, head = some h → h < b.header.number
  /-- The result is `Ok` exactly if the stream ended or the callback returned false. -/
  ok_iff : (∃ stats, run.result = .ok stats)
    ↔ rest = [] ∨ committed ≠ [] ∧ onProgress (reportsOf committed) = false
  /-- Then the statistics are those of the committed blocks, and count them. -/
  stats : ∀ stats, run.result = .ok stats → stats = statsOf committed
    ∧ ∀ first last, stats.firstBlock = some first → stats.lastBlock = some last →
        last.toNat - first.toNat + 1 = stats.blocksProcessed
  /-- The last committed block is the head. -/
  headBlock : step.head run.db = .ok ((lastNumber committed).or head)

variable {step onProgress head}

theorem Stop.ok_iff {committed : List Block} {db db' : δ} {rest : List (Except String Block)}
    {tail : List PipelineEvent} {result : Except ReplayError PipelineStats}
    (h : Stop step onProgress head committed db rest tail db' result) :
    (∃ stats, result = .ok stats)
      ↔ rest = [] ∨ committed ≠ [] ∧ onProgress (reportsOf committed) = false := by
  -- as long as something is left, only a refusal of the callback ends in `Ok`
  have hnot : ∀ {item rest}, Accepts onProgress committed →
      ¬ ((item :: rest : List (Except String Block)) = []
        ∨ committed ≠ [] ∧ onProgress (reportsOf committed) = false) := by
    intro item rest haccepts hx
    rcases hx with hx | ⟨hne, hx⟩
    · cases hx
    · rw [haccepts hne] at hx
      cases hx
  cases h with
  | ended _ => simp
  | refused hne hanswer => exact iff_of_true ⟨_, rfl⟩ (.inr ⟨hne, hanswer⟩)
  | source haccepts => exact iff_of_false (by simp) (hnot haccepts)
  | gap haccepts _ _ _ => exact iff_of_false (by simp) (hnot haccepts)
  | replay haccepts _ _ _ => exact iff_of_false (by simp) (hnot haccepts)

theorem Stop.stats_eq {committed : List Block} {db db' : δ} {rest : List (Except String Block)}
    {tail : List PipelineEvent} {stats : PipelineStats}
    (h : Stop step onProgress head committed db rest tail db' (.ok stats)) :
    stats = statsOf committed := by
  cases h with
  | ended _ => rfl
  | refused _ _ => rfl

/-- A run that stops leaves the head where the committed blocks left it. -/
theorem Stop.head_eq {committed : List Block} {db db' : δ} {rest : List (Except String Block)}
    {tail : List PipelineEvent} {result : Except ReplayError PipelineStats}
    (h : Stop step onProgress head committed db rest tail db' result) :
    step.head db' = step.head db := by
  cases h with
  | ended _ => rfl
  | refused _ _ => rfl
  | source _ => rfl
  | gap _ _ _ _ => rfl
  | replay _ _ _ hstep => exact step.head_of_error _ _ _ _ _ hstep

/-- Only a block above the head is tried at the end. -/
theorem Stop.above {committed : List Block} {db db' : δ} {rest : List (Except String Block)}
    {tail : List PipelineEvent} {result : Except ReplayError PipelineStats} {b : Block}
    (h : Stop step onProgress head committed db rest tail db' result)
    (hb : .replayed b ∈ tail ∨ ∃ err, .failed b err ∈ tail) : aboveHead head b = true := by
  cases h with
  | replay _ habove _ _ =>
      rcases hb with hb | ⟨err, hb⟩
      · simp at hb
      · simp only [List.mem_singleton, PipelineEvent.failed.injEq] at hb
        exact hb.1 ▸ habove
  | ended _ => simp at hb
  | refused _ _ => simp at hb
  | source _ => simp at hb
  | gap _ _ _ _ => simp at hb

theorem mem_eventsFrom {k : Nat} {committed : List Block} {b : Block}
    (h : .replayed b ∈ eventsFrom k committed ∨ ∃ err, .failed b err ∈ eventsFrom k committed) :
    b ∈ committed := by
  rcases h with h | ⟨err, h⟩
  · obtain ⟨e, he, hmem⟩ := List.mem_flatMap.mp h
    simp only [List.mem_cons, PipelineEvent.replayed.injEq, reduceCtorEq, List.not_mem_nil,
      or_false] at hmem
    exact hmem ▸ List.fst_mem_of_mem_zipIdx he
  · obtain ⟨e, _, hmem⟩ := List.mem_flatMap.mp h
    simp at hmem

/-- Whatever a run tries is above the head. -/
theorem LoopRuns.aboveHead_of_mem {done seen : List Block} {blocks rest : List (Except String Block)}
    {run : LoopRun δ} (h : LoopRuns step onProgress head done blocks run seen rest) {b : Block}
    (hb : .replayed b ∈ run.events ∨ ∃ err, .failed b err ∈ run.events) :
    aboveHead head b = true := by
  obtain ⟨tail, db, hevents, _, hstop⟩ := h.stops
  rw [hevents] at hb
  simp only [List.mem_append] at hb
  rcases hb with (hb | hb) | ⟨err, hb | hb⟩
  · exact (List.mem_filter.mp (mem_eventsFrom (.inl hb))).2
  · exact hstop.above (.inl hb)
  · exact (List.mem_filter.mp (mem_eventsFrom (.inr ⟨err, hb⟩))).2
  · exact hstop.above (.inr ⟨err, hb⟩)

/-- The numbers of the ends tell how many blocks there are. -/
theorem length_of_follows {committed : List Block}
    (hmax : ∀ b ∈ committed, b.header.number < BitVec.allOnes 64)
    (hseq : ∀ pre b post, committed = pre ++ b :: post → Follows pre b) {first last : U64}
    (hfirst : (statsOf committed).firstBlock = some first)
    (hlast : (statsOf committed).lastBlock = some last) :
    last.toNat - first.toNat + 1 = committed.length := by
  have hne : committed ≠ [] := by
    intro hnil
    rw [hnil] at hfirst
    cases hfirst
  obtain ⟨first', last', hfirst', hlast', hcount⟩ := count_of_follows hne hmax hseq
  obtain rfl := Option.some.inj (hfirst.symm.trans hfirst')
  obtain rfl := Option.some.inj (hlast.symm.trans hlast')
  have hpos : 0 < committed.length := List.length_pos_iff.mpr hne
  omega

/-- The run of a step is one of the loop. -/
theorem exists_loopRuns_run {blocks : List (Except String Block)} {db : δ}
    (hhead : step.head db = .ok head) :
    ∃ seen rest,
      LoopRuns step onProgress head [] blocks (step.run onProgress db blocks) seen rest := by
  have hrun : step.run onProgress db blocks
      = step.loop onProgress head blocks (loopState [] db) := by
    rw [ReplayStep.run, hhead]
    rfl
  rw [hrun]
  exact exists_loopRuns blocks (fun h => absurd rfl h) (by simpa [lastNumber] using hhead)

/-- What is known of a run of the loop that begins with nothing committed. -/
theorem LoopRuns.facts {blocks rest : List (Except String Block)} {run : LoopRun δ}
    {seen : List Block} (hruns : LoopRuns step onProgress head [] blocks run seen rest)
    (hmax : ∀ b, .ok b ∈ blocks → b.header.number < BitVec.allOnes 64) :
    PipelineFacts step onProgress head blocks run seen rest (seen.filter (aboveHead head)) := by
  have hseq : ∀ pre b post, seen.filter (aboveHead head) = pre ++ b :: post →
      Follows pre b ∧ Accepts onProgress pre := by
    intro pre b post heq
    simpa using hruns.commits pre b post heq
  obtain ⟨tail, dbc, hevents, hheadc, hstop⟩ := hruns.stops
  simp only [List.nil_append, List.length_nil] at hevents hheadc hstop
  -- the committed blocks are among those of the stream
  have hmem : ∀ b ∈ seen.filter (aboveHead head), b.header.number < BitVec.allOnes 64 := by
    intro b hb
    refine hmax b ?_
    rw [hruns.stream]
    exact List.mem_append_left _ (List.mem_map_of_mem (List.mem_of_mem_filter hb))
  refine ⟨hruns.stream, rfl, hseq, ⟨tail, dbc, hevents, hstop⟩, ?_, hstop.ok_iff, ?_,
    hstop.head_eq.trans hheadc⟩
  · intro b hb h hh
    -- a block that is tried is not skipped, and so not at or below the head
    have habove := hruns.aboveHead_of_mem hb
    simp only [aboveHead, hh, Option.any_some, Bool.not_eq_true', decide_eq_false_iff_not] at habove
    bv_omega
  · intro stats hstats
    rw [hstats] at hstop
    obtain rfl := hstop.stats_eq
    refine ⟨rfl, fun first last hfirst hlast => ?_⟩
    exact length_of_follows hmem (fun pre b post heq => (hseq pre b post heq).1) hfirst hlast

/--
**The pipeline does what its statistics say.** Whatever replays the blocks, and
whatever the callback answers, a run commits in sequence what it sees above the
initial head, reports each block once and right after its commit, stops at the first
thing that is not a next block, and its result counts what it committed.
-/
theorem run_facts {blocks : List (Except String Block)} {db : δ}
    (hhead : step.head db = .ok head)
    (hmax : ∀ b, .ok b ∈ blocks → b.header.number < BitVec.allOnes 64) :
    ∃ seen rest committed, PipelineFacts step onProgress head blocks
      (step.run onProgress db blocks) seen rest committed := by
  obtain ⟨seen, rest, hruns⟩ := @exists_loopRuns_run _ step onProgress head blocks db hhead
  exact ⟨seen, rest, _, hruns.facts hmax⟩

end Facts

/-! ## `replay_block` is such a step -/

/-- The number of a block that was replayed. -/
def PipelineEvent.replayedNumber : PipelineEvent → Option U64
  | .replayed block => some block.header.number
  | .failed _ _ => none
  | .progress _ => none

/-- The blocks a run committed, without the order of its events. -/
def LoopRun.toPipelineRun (run : LoopRun StateDb) : PipelineRun :=
  ⟨run.db, run.events.filterMap PipelineEvent.replayedNumber, run.result⟩

section Replay

variable (evm : Evm) (keccak256 : Bytes → B256) (call : PipelineCall)

/-- Replaying the blocks of a call. -/
def blockReplay : ReplayStep StateDb where
  head := StateDb.getHeadBlock
  replay := fun k db block =>
    let r := replayBlock evm keccak256 (call.order k) db block call.spec
    (r.db db, r.result.map fun _ => ())
  head_of_ok := by
    intro k db block db' h
    obtain ⟨rfl, hresult⟩ := Prod.mk.inj h
    cases hr : (replayBlock evm keccak256 (call.order k) db block call.spec).result with
    | error err =>
        rw [hr] at hresult
        cases hresult
    | ok res => exact getHeadBlock_replayBlock_ok hr
  head_of_error := by
    intro k db block db' err h
    obtain ⟨rfl, hresult⟩ := Prod.mk.inj h
    cases hr : (replayBlock evm keccak256 (call.order k) db block call.spec).result with
    | error err' => exact getHeadBlock_replayBlock_error hr
    | ok res =>
        rw [hr] at hresult
        cases hresult

theorem replay_blockReplay_ok {k : Nat} {db : StateDb} {block : Block} {res : BlockResult}
    (h : (replayBlock evm keccak256 (call.order k) db block call.spec).result = .ok res) :
    (blockReplay evm keccak256 call).replay k db block
      = ((replayBlock evm keccak256 (call.order k) db block call.spec).db db, .ok ()) := by
  simp only [blockReplay, h]
  rfl

theorem replay_blockReplay_error {k : Nat} {db : StateDb} {block : Block} {err : ReplayError}
    (h : (replayBlock evm keccak256 (call.order k) db block call.spec).result = .error err) :
    (blockReplay evm keccak256 call).replay k db block
      = ((replayBlock evm keccak256 (call.order k) db block call.spec).db db, .error err) := by
  simp only [blockReplay, h]
  rfl

theorem pipelineLoop_eq (head : Option U64) (blocks : List (Except String Block))
    (st : PipelineState) :
    pipelineLoop evm keccak256 call head blocks st
      = ((blockReplay evm keccak256 call).loop call.onProgress head blocks
          ⟨st.db, st.stats, st.progress⟩).toPipelineRun := by
  induction blocks generalizing st with
  | nil => rfl
  | cons item blocks ih =>
      cases item with
      | error e => rfl
      | ok block =>
          rw [pipelineLoop, ReplayStep.loop]
          split
          · exact ih st
          · -- both loops look for a gap in the same way, then replay the block
            cases st.stats.lastBlock.filter (fun last => block.header.number != last + 1) with
            | some last => rfl
            | none =>
                cases hr : (replayBlock evm keccak256 (call.order st.stats.blocksProcessed) st.db
                  block call.spec).result with
                | error err =>
                    simp only [replay_blockReplay_error evm keccak256 call hr, hr]
                    rfl
                | ok res =>
                    have hprogress : ∀ db, (st.next block db).progress
                        = st.progress ++ [BlockProgress.ofBlock (st.stats.next block) block] :=
                      fun _ => rfl
                    simp only [replay_blockReplay_ok evm keccak256 call hr, hr, ih, hprogress]
                    split
                    · rfl
                    · rfl

/-- **The pipeline is the loop over `replay_block`.** -/
theorem runPipeline_eq (db : StateDb) :
    runPipeline evm keccak256 db call
      = ((blockReplay evm keccak256 call).run call.onProgress db call.blocks).toPipelineRun := by
  rw [runPipeline, ReplayStep.run]
  simp only [blockReplay]
  cases db.getHeadBlock with
  | error e => rfl
  | ok head => exact pipelineLoop_eq evm keccak256 call head call.blocks _

theorem replayedNumber_eventsFrom (k : Nat) (committed : List Block) :
    (eventsFrom k committed).filterMap PipelineEvent.replayedNumber
      = committed.map fun b => b.header.number := by
  induction committed generalizing k with
  | nil => rfl
  | cons b committed ih =>
      have htail := ih (k + 1)
      rw [eventsFrom] at htail
      rw [eventsFrom, List.zipIdx_cons, List.flatMap_cons, List.filterMap_append, htail]
      rfl

/-- However a run stops, no block is replayed after the committed ones. -/
theorem Stop.replayedNumber {step : ReplayStep StateDb} {onProgress : List BlockProgress → Bool}
    {head : Option U64} {committed : List Block} {db db' : StateDb}
    {rest : List (Except String Block)} {tail : List PipelineEvent}
    {result : Except ReplayError PipelineStats}
    (h : Stop step onProgress head committed db rest tail db' result) :
    tail.filterMap PipelineEvent.replayedNumber = [] := by
  cases h with
  | ended _ => rfl
  | refused _ _ => rfl
  | source _ => rfl
  | gap _ _ _ _ => rfl
  | replay _ _ _ _ => rfl

/-- The numbers of the blocks a run commits. -/
theorem PipelineFacts.replayedNumbers {step : ReplayStep StateDb}
    {onProgress : List BlockProgress → Bool} {head : Option U64}
    {blocks rest : List (Except String Block)} {run : LoopRun StateDb} {seen committed : List Block}
    (h : PipelineFacts step onProgress head blocks run seen rest committed) :
    run.toPipelineRun.committed = committed.map fun b => b.header.number := by
  obtain ⟨tail, db, hevents, hstop⟩ := h.stops
  -- the numbers are read off the events, of which the last add none
  rw [LoopRun.toPipelineRun, hevents, List.filterMap_append, replayedNumber_eventsFrom,
    hstop.replayedNumber, List.append_nil]

/--
**So does `run_pipeline`**: the blocks it says it committed are those of the facts, and the
database and the result are theirs.
-/
theorem runPipeline_facts {db : StateDb} {head : Option U64} (hhead : db.getHeadBlock = .ok head)
    (hmax : ∀ b, .ok b ∈ call.blocks → b.header.number < BitVec.allOnes 64) :
    ∃ run seen rest committed,
      PipelineFacts (blockReplay evm keccak256 call) call.onProgress head call.blocks run seen rest
          committed
        ∧ runPipeline evm keccak256 db call
          = ⟨run.db, committed.map fun b => b.header.number, run.result⟩ := by
  have hstep : (blockReplay evm keccak256 call).head db = .ok head := hhead
  obtain ⟨seen, rest, hruns⟩ :=
    @exists_loopRuns_run _ (blockReplay evm keccak256 call) call.onProgress head call.blocks db hstep
  have hfacts := hruns.facts hmax
  refine ⟨_, seen, rest, _, hfacts, ?_⟩
  rw [runPipeline_eq, ← hfacts.replayedNumbers]
  rfl

end Replay

/-- A stream that skips block 3. -/
def skippingCall : PipelineCall where
  blocks := [.ok { header := { number := 1 } }, .ok { header := { number := 2 } },
    .ok { header := { number := 4 } }]
  spec := ethereumMainnet

theorem run_facts_skippingCall :
    let step := blockReplay (.counting fun _ => KECCAK256_EMPTY) (fun _ => KECCAK256_EMPTY)
      skippingCall
    ∃ seen rest committed, PipelineFacts step skippingCall.onProgress none skippingCall.blocks
      (step.run skippingCall.onProgress .empty skippingCall.blocks) seen rest committed := by
  have hhead : StateDb.empty.getHeadBlock = .ok none := rfl
  have hmax : ∀ b, .ok b ∈ skippingCall.blocks → b.header.number < BitVec.allOnes 64 := by
    intro b hb
    simp only [skippingCall, List.mem_cons, Except.ok.injEq, List.not_mem_nil, or_false] at hb
    rcases hb with rfl | rfl | rfl <;> decide
  exact run_facts hhead hmax

end EvmState
