import EvmState.Cli.Replay
import EvmState.Proof.Faults
import EvmState.Proof.Interrupted
import EvmState.Replayer.Loop

/-!
# What the replay command does

Over a portal that answers honestly, however it cuts its answers, the command comes down
to replaying the blocks of its range that are above the head, one after another up to the
first that fails (`runReplay_refines`). Portals that fail and processes that die cost
nothing but the time to go on: for blocks without diffs, where they are left is where the
blocks replayed so far lead (`commandRuns_atPrefix`), and a run that gets through leaves
what it would have left at once (`commandRuns_resumed`).
-/

namespace EvmState

open Framing

/-! ## Blocks one after another -/

/-- Each block has the number after the one before it. -/
def Contiguous : List Block → Prop
  | [] => True
  | b :: blocks => Numbered b.header.number blocks

/-- What is in the database after some blocks, which of them were replayed, and what failed. -/
structure Replayed where
  db : StateDb
  blocks : List Block
  result : Except ReplayError Unit

section Each

variable (evm : Evm) (keccak256 : Bytes → B256) (spec : ChainSpec) (order : Nat → HashOrder)

/-- Replay blocks one after another, up to the first that fails. -/
def replayEach : Nat → StateDb → List Block → Replayed
  | _, db, [] => ⟨db, [], .ok ()⟩
  | i, db, b :: blocks =>
      let r := replayBlock evm keccak256 (order i) db b spec
      match r.result with
      | .ok _ =>
          let rest := replayEach (i + 1) (r.db db) blocks
          { rest with blocks := b :: rest.blocks }
      | .error err => ⟨r.db db, [], .error err⟩

end Each

/-- The statistics of a call that replayed these blocks. -/
def replayedStats (blocks : List Block) : PipelineStats where
  blocksProcessed := blocks.length
  firstBlock := blocks.head?.map fun b => b.header.number
  lastBlock := blocks.getLast?.map fun b => b.header.number

theorem foldl_next (stats : PipelineStats) (blocks : List Block) :
    blocks.foldl PipelineStats.next stats
      = { blocksProcessed := stats.blocksProcessed + blocks.length
          firstBlock := stats.firstBlock.or (blocks.head?.map fun b => b.header.number)
          lastBlock := (blocks.getLast?.map fun b => b.header.number).or stats.lastBlock } := by
  induction blocks generalizing stats with
  | nil => simp
  | cons b blocks ih =>
      have hcount : stats.blocksProcessed + 1 + blocks.length
          = stats.blocksProcessed + (blocks.length + 1) := by omega
      rw [List.foldl_cons, ih, List.getLast?_cons]
      cases blocks.getLast? <;> simp [PipelineStats.next, hcount]

section Numbers

variable {blocks : List Block} {h n : U64}

theorem Numbered.contiguous (hn : Numbered h blocks) : Contiguous blocks := by
  cases blocks with
  | nil => trivial
  | cons b blocks => exact hn.2

theorem Contiguous.tail {b : Block} (hc : Contiguous (b :: blocks)) : Contiguous blocks :=
  Numbered.contiguous hc

theorem Contiguous.ascending (hc : Contiguous blocks) :
    blocks.Pairwise (fun x y => x.header.number < y.header.number) := by
  induction blocks with
  | nil => exact .nil
  | cons b blocks ih => exact .cons (Numbered.above hc) (ih hc.tail)

/-- What starts at a number goes on to the end. -/
theorem Contiguous.filter_from {p : U64 → Bool} (hp : ∀ m n, m ≤ n → p m = true → p n = true)
    (hc : Contiguous blocks) : Contiguous (blocks.filter fun b => p b.header.number) := by
  induction blocks with
  | nil => trivial
  | cons b blocks ih =>
      cases hb : p b.header.number with
      | true =>
          -- what holds of the first block holds of all behind it
          have hall : ∀ b' ∈ b :: blocks, p b'.header.number = true := by
            refine List.forall_mem_cons.mpr ⟨hb, fun b' hb' => ?_⟩
            exact hp _ _ (BitVec.le_of_lt (Numbered.above hc b' hb')) hb
          rw [List.filter_eq_self.mpr hall]
          exact hc
      | false =>
          rw [List.filter_cons_of_neg (by simp [hb])]
          exact ih hc.tail

/-- What is up to a number starts at the start. -/
theorem filter_le_isPrefix
    (hasc : blocks.Pairwise (fun x y => x.header.number < y.header.number)) :
    blocks.filter (fun b => decide (b.header.number ≤ n)) <+: blocks := by
  induction blocks with
  | nil => exact List.prefix_rfl
  | cons b blocks ih =>
      obtain ⟨habove, hasc⟩ := List.pairwise_cons.mp hasc
      by_cases hb : b.header.number ≤ n
      · rw [List.filter_cons_of_pos (by simpa using hb)]
        exact List.cons_prefix_cons.mpr ⟨rfl, ih hasc⟩
      · -- the numbers ascend, so none behind this one is within the bound either
        have hnone : ∀ b' ∈ b :: blocks, ¬ b'.header.number ≤ n := by
          refine List.forall_mem_cons.mpr ⟨hb, fun b' hb' hle => ?_⟩
          exact hb (BitVec.le_trans (BitVec.le_of_lt (habove b' hb')) hle)
        rw [List.filter_eq_nil_iff.mpr fun b' hb' => by simpa using hnone b' hb']
        exact List.nil_prefix

theorem Numbered.prefix {front : List Block} (hn : Numbered h blocks) (hp : front <+: blocks) :
    Numbered h front := by
  induction front generalizing h blocks with
  | nil => trivial
  | cons b front ih =>
      obtain ⟨rest, rfl⟩ := hp
      exact ⟨hn.1, ih hn.2 ⟨rest, rfl⟩⟩

theorem Contiguous.prefix {front : List Block} (hc : Contiguous blocks) (hp : front <+: blocks) :
    Contiguous front := by
  cases front with
  | nil => trivial
  | cons b front =>
      obtain ⟨rest, rfl⟩ := hp
      exact Numbered.prefix hc ⟨rest, rfl⟩

/-- A range of blocks that follow one another is such blocks. -/
theorem Contiguous.inRange (hc : Contiguous blocks) (fromBlock : U64) (toBlock : Option U64) :
    Contiguous (inRange blocks fromBlock toBlock) := by
  rw [EvmState.inRange, ← List.filter_filter]
  refine Contiguous.filter_from (p := fun n => decide (fromBlock ≤ n)) (fun m n hle hm => ?_) ?_
  · rw [decide_eq_true_eq] at hm ⊢
    exact BitVec.le_trans hm hle
  cases toBlock with
  | none => simpa using hc
  | some n => simpa using hc.prefix (filter_le_isPrefix hc.ascending)

end Numbers

/-! ## The pipeline over a whole range -/

section Pipeline

variable (evm : Evm) (keccak256 : Bytes → B256) (call : PipelineCall) (head : Option U64)

/-- Blocks at or below the head might as well not come. -/
theorem pipelineLoop_skips (blocks : List Block) (st : PipelineState) :
    pipelineLoop evm keccak256 call head (blocks.map Except.ok) st
      = pipelineLoop evm keccak256 call head
          ((blocks.filter fun b => head.all (fun h => decide (h < b.header.number))).map Except.ok)
          st := by
  induction blocks generalizing st with
  | nil => rfl
  | cons b blocks ih =>
      -- the loop skips exactly what the filter leaves out
      by_cases hskip : Skipped head b
      · have hbelow : head.all (fun h => decide (h < b.header.number)) = false := by
          cases head with
          | none => cases hskip
          | some h =>
              rw [skipped_some] at hskip
              simpa using hskip
        rw [List.filter_cons_of_neg (by simp [hbelow]), List.map_cons, pipelineLoop, if_pos hskip]
        exact ih st
      · have habove : head.all (fun h => decide (h < b.header.number)) = true := by
          cases head with
          | none => rfl
          | some h =>
              rw [skipped_some] at hskip
              simpa using hskip
        rw [List.filter_cons_of_pos (by simpa using habove), List.map_cons, List.map_cons,
          pipelineLoop, pipelineLoop, if_neg hskip, if_neg hskip]
        simp only [ih]

/-- A call whose blocks follow one another replays each of them. -/
theorem pipelineLoop_each (hgo : ∀ ps, call.onProgress ps = true) {blocks : List Block}
    (st : PipelineState) (habove : ∀ b ∈ blocks, ¬ Skipped head b) (hc : Contiguous blocks)
    (hlast : ∀ last, st.stats.lastBlock = some last → Numbered last blocks) :
    let each := replayEach evm keccak256 call.spec call.order st.stats.blocksProcessed st.db blocks
    pipelineLoop evm keccak256 call head (blocks.map Except.ok) st
      = ⟨each.db, each.blocks.map (fun b => b.header.number),
          each.result.map fun _ => each.blocks.foldl PipelineStats.next st.stats⟩ := by
  induction blocks generalizing st with
  | nil => rfl
  | cons b blocks ih =>
      intro each
      have hnext : GoesOn b st := by
        intro last hl
        have := (hlast last hl).1
        bv_omega
      have hskip : ¬ Skipped head b := habove b List.mem_cons_self
      rw [List.map_cons]
      have hturn := pipelineTurn evm keccak256 call head b (blocks.map Except.ok) st
      generalize pipelineLoop evm keccak256 call head (.ok b :: blocks.map Except.ok) st = run
        at hturn ⊢
      generalize pipelineCommits evm keccak256 call head (.ok b :: blocks.map Except.ok) st = commits
        at hturn
      -- of the ways a turn can go, the blocks leave it only to fail or to be replayed
      cases hturn with
      | skipped hbelow => exact absurd hbelow hskip
      | gap _ hstop => exact absurd hnext hstop
      | failed _ _ herr => simp only [each, replayEach, herr]; rfl
      -- the callback never asks to stop
      | last _ _ _ hno =>
          rw [hgo] at hno
          cases hno
      | next _ _ hres _ =>
          have := ih (call.after evm keccak256 b st)
            (fun b' hb' => habove b' (List.mem_cons_of_mem b hb')) hc.tail ?_
          · simp only [each, replayEach, hres, this]
            rfl
          · intro last hl
            obtain rfl : b.header.number = last := Option.some.inj hl
            exact hc

end Pipeline

/-! ## A command over an honest portal -/

/--
A portal that has these blocks, with the state diffs that are asked for or without, and
answers each query with a first part of what is in its range, with an empty one only if
nothing is.
-/
def HonestAt (fromStr : String → Option Block) (dataset : Bool → List Block) (network : Network)
    (url : String) : Prop :=
  ∀ (query : Json.Doc) (stateDiffs : Bool) (fromBlock : U64) (toBlock : Option U64) (k : Nat),
    AsksFor query stateDiffs fromBlock toBlock →
      ∃ body served rest,
        startRequest (network url query k) = .ok body ∧ Serves fromStr body served
          ∧ inRange (dataset stateDiffs) fromBlock toBlock = served ++ rest
          ∧ (served = [] → rest = [])

/-- One that sends first parts only, but may also break off or fail. -/
def UnreliableAt (fromStr : String → Option Block) (dataset : Bool → List Block)
    (network : Network) (url : String) : Prop :=
  ∀ (query : Json.Doc) (stateDiffs : Bool) (fromBlock : U64) (toBlock : Option U64) (k : Nat),
    AsksFor query stateDiffs fromBlock toBlock →
      (∃ e, startRequest (network url query k) = .error e)
        ∨ ∃ body served,
            startRequest (network url query k) = .ok body
              ∧ (Serves fromStr body served ∨ BreaksOff fromStr body served)
              ∧ served <+: inRange (dataset stateDiffs) fromBlock toBlock

section Honest

variable {evm : Evm} {keccak256 : Bytes → B256} {fromStr : String → Option Block}
  {display : FetchError → String} {dataset : Bool → List Block} {c : Command} {plan : ReplayPlan}
  {db : StateDb}

theorem HonestAt.answers {f : SqdFetcher} (h : HonestAt fromStr dataset c.network f.portalUrl) :
    Answers fromStr (dataset f.useStateDiffs) (f.portal c.network) :=
  fun k fromBlock toBlock => h _ _ _ _ k (asksFor_buildQuery fromBlock toBlock f.useStateDiffs)

theorem UnreliableAt.unreliable {f : SqdFetcher}
    (h : UnreliableAt fromStr dataset c.network f.portalUrl) :
    Unreliable fromStr (dataset f.useStateDiffs) (f.portal c.network) :=
  fun k fromBlock toBlock => h _ _ _ _ k (asksFor_buildQuery fromBlock toBlock f.useStateDiffs)

/-- What a plan is made of. -/
theorem plan_ok (h : c.plan db = .ok plan) :
    ∃ head, db.getHeadBlock = .ok head
      ∧ plan.fromBlock = startBlock c.args.fromBlock head
      ∧ plan.fetcher.useStateDiffs = plan.spec.requiresStateDiffs := by
  unfold Command.plan at h
  dsimp only at h
  split at h
  · cases h
  · split at h
    · cases h
    · split at h
      · cases h
      · rename_i head hhead
        obtain rfl := Except.ok.inj h
        exact ⟨head, hhead, rfl, rfl⟩

/-- The blocks a run is for: those of its range that are above the head. -/
def Command.range (c : Command) (dataset : List Block) (head : Option U64) : List Block :=
  (inRange dataset (startBlock c.args.fromBlock head) c.args.toBlock).filter
    fun b => head.all fun h => decide (h < b.header.number)

/-- **Over an honest portal** the blocks of the range are replayed one after another. -/
theorem runReplay_honest {head : Option U64} (hplan : c.plan db = .ok plan)
    (hhead : db.getHeadBlock = .ok head)
    (hc : Contiguous (dataset plan.spec.requiresStateDiffs))
    (hmax : ∀ b ∈ dataset plan.spec.requiresStateDiffs, b.header.number < BitVec.allOnes 64)
    (hportal : HonestAt fromStr dataset c.network plan.fetcher.portalUrl)
    (hfuel : (dataset plan.spec.requiresStateDiffs).length < c.fuel) :
    let each := replayEach evm keccak256 plan.spec c.order 0 db
      (c.range (dataset plan.spec.requiresStateDiffs) head)
    runReplay evm keccak256 fromStr display c db
      = some
          { db := each.db
            committed := each.blocks.map fun b => b.header.number
            result := (each.result.mapError .replay).map fun _ => replayedStats each.blocks } := by
  intro each
  obtain ⟨head', hhead', hstart, hdiffs⟩ := plan_ok hplan
  obtain rfl : head = head' := Except.ok.inj (hhead.symm.trans hhead')
  -- the query asks for state diffs exactly if the chain needs them
  have hanswers := hportal.answers
  rw [hdiffs] at hanswers
  have hstream : streamBlocks fromStr (plan.fetcher.portal c.network) c.fuel plan.fromBlock
      c.args.toBlock = some ((inRange (dataset plan.spec.requiresStateDiffs)
        (startBlock c.args.fromBlock head) c.args.toBlock).map Except.ok) := by
    rw [hstart]
    refine streamFrom_delivers hc.ascending hmax hanswers _ ?_
    exact Nat.lt_of_le_of_lt (List.length_filter_le _ _) hfuel
  -- no item of the stream is an error, so there is none to be shown
  have hblocks : ∀ blocks : List Block,
      (blocks.map Except.ok).map (Except.mapError display) = blocks.map Except.ok := by
    intro blocks
    rw [List.map_map]
    rfl
  have hrange : Contiguous (c.range (dataset plan.spec.requiresStateDiffs) head) :=
    (hc.inRange _ _).filter_from (p := fun n => head.all fun h => decide (h < n)) fun m n hle hm => by
      cases head with
      | none => rfl
      | some h =>
          simp only [Option.all_some, decide_eq_true_eq] at hm ⊢
          bv_omega
  -- what is above the head is not skipped
  have habove : ∀ b ∈ c.range (dataset plan.spec.requiresStateDiffs) head, ¬ Skipped head b := by
    intro b hb
    have hb := (List.mem_filter.mp hb).2
    cases head with
    | none => simp [Skipped]
    | some h =>
        rw [skipped_some]
        simpa using hb
  have hrun := pipelineLoop_each evm keccak256
    { blocks := (inRange (dataset plan.spec.requiresStateDiffs)
        (startBlock c.args.fromBlock head) c.args.toBlock).map Except.ok
      spec := plan.spec, order := c.order } head (fun _ => rfl) ⟨db, {}, []⟩ habove
    hrange (fun _ h => by cases h)
  simp only [runReplay, hplan, Command.call, hstream, Option.map_some, runPipeline, hhead, hblocks]
  rw [pipelineLoop_skips]
  simp only [Command.range] at hrun
  rw [hrun, foldl_next]
  simp only [each, Command.range, Option.some.injEq, CommandRun.mk.injEq, true_and]
  -- the result is the loop's, whichever way it went
  generalize (replayEach evm keccak256 plan.spec c.order 0 db _).result = result
  cases result with
  | error e => rfl
  | ok u => simp [Except.map, Except.mapError, replayedStats]

end Honest

/-! ## A portal that sends one block at a time -/

/-- The range a query names. -/
def queryRange (query : Json.Doc) : U64 × Option U64 :=
  (BitVec.ofNat 64 (((query.get "fromBlock").bind Json.Doc.asNum).getD 0),
    ((query.get "toBlock").bind Json.Doc.asNum).map (BitVec.ofNat 64))

theorem queryRange_of_asksFor {query : Json.Doc} {stateDiffs : Bool} {fromBlock : U64}
    {toBlock : Option U64} (h : AsksFor query stateDiffs fromBlock toBlock) :
    queryRange query = (fromBlock, toBlock) := by
  rw [queryRange, h.fromBlock, h.toBlock]
  cases toBlock <;> simp [Json.Doc.asNum]

/-- A block as one line of a page. -/
def WritesLine (fromStr : String → Option Block) (text : Block → String) (b : Block) : Prop :=
  '\n' ∉ (text b).toList ∧ (Text.trim (text b).toList).head? = some '\x7b'
    ∧ fromStr (String.ofList (Text.trim (text b).toList)) = some b

/-- The first block that is left, without a newline behind it, to requests it answers. -/
def oneNetwork (text : Block → String) (blocks : List Block) (alive : Nat → Bool) : Network :=
  fun _ query k _ =>
    if alive k then
      .response 200
        [.ok (utf8 (((inRange blocks (queryRange query).1 (queryRange query).2).take 1).flatMap
          fun b => (text b).toList))]
    else .failed

section One

variable {fromStr : String → Option Block} {text : Block → String} {blocks : List Block}

theorem serves_one (htext : ∀ b ∈ blocks, WritesLine fromStr text b) {l : List Block}
    (hl : ∀ b ∈ l, b ∈ blocks) :
    Serves fromStr [.ok (utf8 ((l.take 1).flatMap fun b => (text b).toList))] (l.take 1) := by
  cases l with
  | nil => exact ⟨[[]], [], [], rfl, rfl, .nil, .inl rfl⟩
  | cons b l =>
      obtain ⟨hline, hhead, hparse⟩ := htext b (hl b List.mem_cons_self)
      refine ⟨[utf8 (text b).toList], [(text b).toList], (text b).toList, by simp, by simp,
        .block hline hhead hparse .nil, .inr ?_⟩
      simp [Text.unlines]

theorem startRequest_one {alive : Nat → Bool} {query : Json.Doc} {stateDiffs : Bool}
    {fromBlock : U64} {toBlock : Option U64} {k : Nat} (url : String)
    (hquery : AsksFor query stateDiffs fromBlock toBlock) :
    startRequest (oneNetwork text blocks alive url query k)
      = if alive k then
          .ok [.ok (utf8 (((inRange blocks fromBlock toBlock).take 1).flatMap
            fun b => (text b).toList))]
        else .error .http := by
  -- every attempt is answered the same way
  have hreply : oneNetwork text blocks alive url query k = fun _ =>
      if alive k then
        .response 200 [.ok (utf8 (((inRange blocks fromBlock toBlock).take 1).flatMap
          fun b => (text b).toList))]
      else .failed := by
    funext attempt
    simp only [oneNetwork, queryRange_of_asksFor hquery]
  rw [hreply]
  cases alive k <;> rfl

theorem honestAt_one (htext : ∀ b ∈ blocks, WritesLine fromStr text b) (url : String) :
    HonestAt fromStr (fun _ => blocks) (oneNetwork text blocks fun _ => true) url := by
  intro query stateDiffs fromBlock toBlock k hquery
  refine ⟨_, (inRange blocks fromBlock toBlock).take 1, (inRange blocks fromBlock toBlock).drop 1,
    startRequest_one url hquery, serves_one htext fun b hb => (mem_inRange.mp hb).1,
    (List.take_append_drop 1 _).symm, fun h => ?_⟩
  cases hrange : inRange blocks fromBlock toBlock with
  | nil => rfl
  | cons b bs => simp [hrange] at h

theorem unreliableAt_one (htext : ∀ b ∈ blocks, WritesLine fromStr text b) (alive : Nat → Bool)
    (url : String) : UnreliableAt fromStr (fun _ => blocks) (oneNetwork text blocks alive) url := by
  intro query stateDiffs fromBlock toBlock k hquery
  rw [startRequest_one url hquery]
  cases alive k with
  | false => exact .inl ⟨_, rfl⟩
  | true =>
      exact .inr ⟨_, (inRange blocks fromBlock toBlock).take 1, rfl,
        .inl (serves_one htext fun b hb => (mem_inRange.mp hb).1), List.take_prefix 1 _⟩

end One

/-- The two blocks above `headDb`, and what they are written as. -/
def twoText (b : Block) : String :=
  if b.header.number = 4 then "\x7b\"header\":\x7b\"number\":4\x7d\x7d"
  else "\x7b\"header\":\x7b\"number\":5\x7d\x7d"

def twoFromStr (line : String) : Option Block := twoBlocks.find? fun b => twoText b == line

theorem writesLine_two : ∀ b ∈ twoBlocks, WritesLine twoFromStr twoText b := by
  unfold WritesLine
  decide

/-- A replay of Ethereum over a portal that answers some requests. -/
def twoCommand (alive : Nat → Bool) : Command where
  cli := { chainId := some 1 }
  network := oneNetwork twoText twoBlocks alive
  fuel := 3

theorem head_headDb : headDb.getHeadBlock = .ok (some 3) := by decide

theorem contiguous_two : Contiguous twoBlocks := by
  refine ⟨?_, trivial⟩
  decide

/-! ## The command as a replay of its range -/

section Refines

variable {evm : Evm} {keccak256 : Bytes → B256} {fromStr : String → Option Block}
  {display : FetchError → String} {dataset : Bool → List Block} {c : Command} {db : StateDb}

/--
**The command refines replaying the dataset block by block.** On a chain it knows, with a
dataset that is named or the chain's own, over a portal that answers honestly and in
whatever pages, chunks and attempts: of the blocks in the range those above the head are
replayed one after another, up to the first that fails. The blocks replayed are reported
as committed, and the statistics count them.
-/
theorem runReplay_refines {name : String} {spec : ChainSpec} {head : Option U64}
    (hname : datasetName c.cli c.config (Resolved.fromCliAndConfig c.cli c.config).chainId
      = .ok name)
    (hspec : fromChainId (Resolved.fromCliAndConfig c.cli c.config).chainId = some spec)
    (hhead : db.getHeadBlock = .ok head)
    (hc : Contiguous (dataset spec.requiresStateDiffs))
    (hmax : ∀ b ∈ dataset spec.requiresStateDiffs, b.header.number < BitVec.allOnes 64)
    (hportal : HonestAt fromStr dataset c.network
      (SqdFetcher.new (portalUrl c.cli c.config) name).portalUrl)
    (hfuel : (dataset spec.requiresStateDiffs).length < c.fuel) :
    let each := replayEach evm keccak256 spec c.order 0 db
      (c.range (dataset spec.requiresStateDiffs) head)
    runReplay evm keccak256 fromStr display c db
      = some
          { db := each.db
            committed := each.blocks.map fun b => b.header.number
            result := (each.result.mapError .replay).map fun _ => replayedStats each.blocks } := by
  have hplan : c.plan db = .ok
      { spec := spec
        fetcher := (SqdFetcher.new (portalUrl c.cli c.config) name).withStateDiffs
          spec.requiresStateDiffs
        fromBlock := startBlock c.args.fromBlock head } := by
    simp only [Command.plan, hname, hspec, hhead]
  exact runReplay_honest hplan hhead hc hmax hportal hfuel

end Refines

theorem runReplay_refines_twoBlocks :
    let evm := Evm.counting fun _ => KECCAK256_EMPTY
    let keccak256 := fun _ => KECCAK256_EMPTY
    let each := replayEach evm keccak256 ethereumMainnet (fun _ => .sorted) 0 headDb twoBlocks
    runReplay evm keccak256 twoFromStr (fun _ => "lost") (twoCommand fun _ => true) headDb
        = some
            { db := each.db
              committed := each.blocks.map fun b => b.header.number
              result := (each.result.mapError .replay).map fun _ => replayedStats each.blocks }
      ∧ each.blocks = twoBlocks := by
  intro evm keccak256 each
  refine ⟨?_, by decide⟩
  exact @runReplay_refines evm keccak256 twoFromStr (fun _ => "lost") (fun _ => twoBlocks)
    (twoCommand fun _ => true) headDb ETHEREUM_DATASET ethereumMainnet (some 3) rfl rfl head_headDb
    contiguous_two (by decide) (honestAt_one writesLine_two _) (by decide)

/-! ## Portals that fail, processes that die -/

/-- The stream of the invocation starts at the block behind the head or before. -/
def Command.StartsBehind (c : Command) (head : U64) : Prop :=
  (startBlock c.args.fromBlock (some head)).toNat ≤ head.toNat + 1

section Schedule

variable (evm : Evm) (keccak256 : Bytes → B256) (fromStr : String → Option Block)
  (display : FetchError → String) (spec : ChainSpec) (dataset : Bool → List Block)

/--
Any number of invocations on one database, each over a portal that may fail, and each
left to its end or killed behind some commit. Kept are the numbers of the blocks
committed so far.
-/
inductive CommandRuns (db₀ : StateDb) : List U64 → StateDb → Prop
  | start : CommandRuns db₀ [] db₀
  | run {committed : List U64} {db db' : StateDb} {head : U64} {c : Command} {plan : ReplayPlan}
      {call : PipelineCall} {k : Nat} :
      CommandRuns db₀ committed db → c.plan db = .ok plan → plan.spec = spec →
      db.getHeadBlock = .ok (some head) → c.StartsBehind head →
      UnreliableAt fromStr dataset c.network plan.fetcher.portalUrl →
      c.call fromStr display plan = some call →
      (pipelineStates evm keccak256 db call)[k]? = some db' →
      CommandRuns db₀ (committed ++ (runPipeline evm keccak256 db call).committed.take k) db'

/-- An invocation without an end that gets its whole stream from an honest portal. -/
structure Command.Completes (c : Command) (head : U64) (db : StateDb) (plan : ReplayPlan) :
    Prop where
  planned : c.plan db = .ok plan
  chain : plan.spec = spec
  resumes : db.getHeadBlock = .ok (some head)
  starts : c.StartsBehind head
  openEnded : c.args.toBlock = none
  honest : HonestAt fromStr dataset c.network plan.fetcher.portalUrl
  fuel : (dataset spec.requiresStateDiffs).length < c.fuel

end Schedule

section Resumed

variable {evm : Evm} {keccak256 : Bytes → B256} {fromStr : String → Option Block}
  {display : FetchError → String} {spec : ChainSpec} {dataset : Bool → List Block}
  {db₀ db : StateDb} {h : U64} {c : Command} {plan : ReplayPlan}

/-- What a stream that starts behind the head has above it. -/
theorem filter_inRange {blocks : List Block} {head : U64} (hstart : c.StartsBehind head)
    (toBlock : Option U64) :
    (inRange blocks (startBlock c.args.fromBlock (some head)) toBlock).filter
        (fun b => decide (head < b.header.number))
      = (blocks.filter fun b => decide (head < b.header.number)).filter
          fun b => toBlock.all fun n => decide (b.header.number ≤ n) := by
  rw [inRange, List.filter_filter, List.filter_filter]
  refine List.filter_congr fun b _ => ?_
  by_cases hb : head < b.header.number
  · -- a block above the head is not below the start, so the lower bound says nothing
    have hle : startBlock c.args.fromBlock (some head) ≤ b.header.number := by
      unfold Command.StartsBehind at hstart
      bv_omega
    simp [hb, hle]
  · simp [hb]

/-- The blocks above a head, in a dataset of which the first `n` above `h` are replayed. -/
theorem filter_head {blocks : List Block} {head : U64} {n : Nat}
    (hn : Numbered h (blocks.filter fun b => decide (h < b.header.number)))
    (hhead : head.toNat = h.toNat + n) :
    blocks.filter (fun b => decide (head < b.header.number))
      = (blocks.filter fun b => decide (h < b.header.number)).drop n := by
  rw [← hn.filter_above hhead, List.filter_filter]
  refine List.filter_congr fun b _ => ?_
  by_cases hb : head < b.header.number
  · have : h < b.header.number := by bv_omega
    simp [hb, this]
  · simp [hb]

variable (hc : Contiguous (dataset spec.requiresStateDiffs))
  (hmax : ∀ b ∈ dataset spec.requiresStateDiffs, b.header.number < BitVec.allOnes 64)
  (hn : Numbered h ((dataset spec.requiresStateDiffs).filter fun b =>
    decide (h < b.header.number)))
  (hplain : ∀ b ∈ dataset spec.requiresStateDiffs, b.stateDiffs = [])
  (hdb₀ : db₀.getHeadBlock = .ok (some h))

include hc hmax hn hplain hdb₀ in
/-- **Wherever the runs are left**, a whole number of blocks is replayed, each of them once. -/
theorem commandRuns_atPrefix {committed : List U64}
    (hruns : CommandRuns evm keccak256 fromStr display spec dataset db₀ committed db) :
    ∃ n, AtPrefix evm keccak256 spec
      ((dataset spec.requiresStateDiffs).filter fun b => decide (h < b.header.number)) db₀ n
      committed db := by
  induction hruns with
  | start => exact ⟨0, Nat.zero_le _, rfl, rfl⟩
  | @run committed db db' head c plan call k _ hplan hspec hhead hstart hportal hcall hk ih =>
      subst hspec
      obtain ⟨n, hp⟩ := ih
      obtain ⟨head', hhead', hnum⟩ := hp.head hn hdb₀
      obtain rfl : head = head' := Option.some.inj (Except.ok.inj (hhead.symm.trans hhead'))
      obtain ⟨_, hhead'', hfrom, hdiffs⟩ := plan_ok hplan
      obtain rfl := Except.ok.inj (hhead.symm.trans hhead'')
      have hunreliable := hportal.unreliable
      rw [hdiffs] at hunreliable
      -- the stream is a first part of the range, and perhaps an error
      obtain ⟨items, hitems, rfl⟩ := Option.map_eq_some_iff.mp hcall
      obtain ⟨sent, rest, rfl, hsent, hrest⟩ :=
        streamFrom_unreliable hc.ascending hmax hunreliable _ hitems
      rw [hfrom] at hsent
      obtain ⟨sentRest, hsentRest⟩ : ∃ r : List (Except String Block),
          rest.map (Except.mapError display) = r ∧ (r = [] ∨ ∃ e, r = [.error e]) := by
        rcases hrest with rfl | ⟨e, rfl⟩
        · exact ⟨[], rfl, .inl rfl⟩
        · exact ⟨[.error (display e)], rfl, .inr ⟨_, rfl⟩⟩
      have htodo : pending (some head)
          ((sent.map Except.ok ++ rest).map (Except.mapError display))
            = sent.filter fun b => decide (head < b.header.number) := by
        rw [List.map_append, hsentRest.1, List.map_map]
        exact pending_map head sent hsentRest.2
      have hbehind : sent.filter (fun b => decide (head < b.header.number))
          <+: ((dataset plan.spec.requiresStateDiffs).filter fun b =>
            decide (h < b.header.number)).drop n := by
        have hfiltered := hsent.filter fun b => decide (head < b.header.number)
        rw [filter_inRange hstart, filter_head hn hnum] at hfiltered
        refine hfiltered.trans ?_
        cases c.args.toBlock with
        | none => simp
        | some last => exact filter_le_isPrefix ((hc.ascending.filter _).drop)
      exact hp.call (fun b hb => hplain b (List.mem_of_mem_filter hb)) hhead rfl htodo hbehind hk

/-- For blocks without diffs neither their place in the call nor hash maps matter. -/
theorem replayEach_plain {blocks : List Block} (hplain : ∀ b ∈ blocks, b.stateDiffs = [])
    (order order' : Nat → HashOrder) (i i' : Nat) (db : StateDb) :
    replayEach evm keccak256 spec order i db blocks
      = replayEach evm keccak256 spec order' i' db blocks := by
  induction blocks generalizing i i' db with
  | nil => rfl
  | cons b blocks ih =>
      -- without diffs no hash map is walked
      have hb : replayBlock evm keccak256 (order i) db b spec
          = replayBlock evm keccak256 (order' i') db b spec :=
        replayBlock_plain_order (hplain b List.mem_cons_self) _ _ _
      rw [replayEach, replayEach, hb]
      split
      · simp only [ih (fun b' hb' => hplain b' (List.mem_cons_of_mem b hb')) (i + 1) (i' + 1)]
      · rfl

/-- Behind blocks that were replayed one goes on where they have led. -/
theorem replayEach_append {order : Nat → HashOrder} {front rest : List Block} {i : Nat}
    {db d : StateDb}
    (hfront : replayAll evm keccak256 { blocks := [], spec := spec, order := order } i db front
      = .ok d) :
    replayEach evm keccak256 spec order i db (front ++ rest)
      = { replayEach evm keccak256 spec order (i + front.length) d rest with
          blocks := front
            ++ (replayEach evm keccak256 spec order (i + front.length) d rest).blocks } := by
  induction front generalizing i db with
  | nil =>
      rw [replayAll, Except.ok.injEq] at hfront
      rw [hfront]
      rfl
  | cons b front ih =>
      rw [replayAll] at hfront
      rw [List.cons_append, replayEach]
      -- the first part has no block that fails
      split at hfront
      · rename_i res hres
        have hlen : i + (b :: front).length = i + 1 + front.length := by
          rw [List.length_cons]
          omega
        simp only [hres, ih hfront, hlen]
        rfl
      · cases hfront

/-- **Going on from a prefix** is replaying all of it at once. -/
theorem AtPrefix.replayEach_eq {blocks : List Block} {n : Nat} {committed : List U64}
    (hp : AtPrefix evm keccak256 spec blocks db₀ n committed db)
    (hplain : ∀ b ∈ blocks, b.stateDiffs = []) (order order₀ : Nat → HashOrder) :
    let rest := replayEach evm keccak256 spec order 0 db (blocks.drop n)
    replayEach evm keccak256 spec order₀ 0 db₀ blocks
      = { rest with blocks := blocks.take n ++ rest.blocks } := by
  intro rest
  have hrest : rest = replayEach evm keccak256 spec (fun _ => .sorted) (0 + (blocks.take n).length)
      db (blocks.drop n) :=
    replayEach_plain (fun b hb => hplain b (List.mem_of_mem_drop hb)) _ _ _ _ _
  rw [hrest, ← replayEach_append hp.db, List.take_append_drop]
  exact replayEach_plain hplain _ _ _ _ _

variable (evm keccak256 display) in
/-- An invocation that gets through replays everything above the head. -/
theorem Command.Completes.run {head : U64}
    (hd : c.Completes fromStr spec dataset head db plan)
    (hc : Contiguous (dataset spec.requiresStateDiffs))
    (hmax : ∀ b ∈ dataset spec.requiresStateDiffs, b.header.number < BitVec.allOnes 64)
    {blocks : List Block}
    (hblocks : (dataset spec.requiresStateDiffs).filter (fun b => decide (head < b.header.number))
      = blocks) :
    let each := replayEach evm keccak256 spec c.order 0 db blocks
    runReplay evm keccak256 fromStr display c db
      = some
          { db := each.db
            committed := each.blocks.map fun b => b.header.number
            result := (each.result.mapError .replay).map fun _ => replayedStats each.blocks } := by
  obtain rfl := hd.chain
  -- the range that is left has no upper end
  have hrange : c.range (dataset plan.spec.requiresStateDiffs) (some head) = blocks := by
    rw [Command.range, hd.openEnded]
    simp only [Option.all_some, filter_inRange hd.starts none, hblocks, Option.all_none,
      List.filter_true]
  rw [← hrange]
  exact runReplay_honest hd.planned hd.resumes hc hmax hd.honest hd.fuel

include hc hmax hn hplain hdb₀ in
/--
**Failing portals and dying processes change nothing.** On a chain whose blocks come without
diffs, and whatever invocations there were, over portals that break off, fail or come to an
early end, each of them killed behind any commit: one that gets its stream through leaves
the database that one such invocation leaves at once, ends like it, and over all of them
the blocks it commits were committed once.
-/
theorem commandRuns_resumed {committed : List U64}
    (hruns : CommandRuns evm keccak256 fromStr display spec dataset db₀ committed db)
    {head : U64} (hd : c.Completes fromStr spec dataset head db plan) {c₀ : Command}
    {plan₀ : ReplayPlan} (hd₀ : c₀.Completes fromStr spec dataset h db₀ plan₀) :
    ∃ run run₀, runReplay evm keccak256 fromStr display c db = some run
      ∧ runReplay evm keccak256 fromStr display c₀ db₀ = some run₀
      ∧ run.db = run₀.db ∧ committed ++ run.committed = run₀.committed
      ∧ run.result.map (fun _ => ()) = run₀.result.map (fun _ => ()) := by
  obtain ⟨n, hp⟩ := commandRuns_atPrefix hc hmax hn hplain hdb₀ hruns
  obtain ⟨head', hhead', hnum⟩ := hp.head hn hdb₀
  obtain rfl : head = head' := Option.some.inj (Except.ok.inj (hd.resumes.symm.trans hhead'))
  -- both invocations replay what is behind their heads, the second all of it
  have hrun := hd.run evm keccak256 display hc hmax (filter_head hn hnum)
  have hrun₀ := hd₀.run evm keccak256 display hc hmax rfl
  have hwhole := hp.replayEach_eq (fun b hb => hplain b (List.mem_of_mem_filter hb)) c.order c₀.order
  refine ⟨_, _, hrun, hrun₀, ?_, ?_, ?_⟩
  · rw [hwhole]
  · rw [hwhole, hp.committed, ← List.map_append]
  · rw [hwhole]
    simp only
    generalize (replayEach evm keccak256 spec c.order 0 db _).result = result
    cases result <;> rfl

end Resumed

/-! ### A connection that is refused -/

/-- Its plan, with the block behind the head as the first. -/
def twoPlan (first : U64) : ReplayPlan where
  spec := ethereumMainnet
  fetcher := SqdFetcher.new DEFAULT_PORTAL ETHEREUM_DATASET
  fromBlock := first

/-- The first request is answered, and the connection is refused from then on. -/
theorem call_two_lost :
    (twoCommand fun k => decide (k < 1)).call twoFromStr (fun _ => "lost") (twoPlan 4)
      = some { blocks := [.ok { header := { number := 4 } }, .error "lost"]
               spec := ethereumMainnet } := by
  have hfirst : startRequest ((twoPlan 4).fetcher.portal
      (oneNetwork twoText twoBlocks fun k => decide (k < 1)) 0 4 none) = _ :=
    startRequest_one _ (asksFor_buildQuery 4 none false)
  have hsecond : startRequest ((twoPlan 4).fetcher.portal
      (oneNetwork twoText twoBlocks fun k => decide (k < 1)) 1 5 none) = _ :=
    startRequest_one _ (asksFor_buildQuery 5 none false)
  have hrange : inRange twoBlocks 4 none = twoBlocks := by decide
  have hpage := readBody_serves (serves_one writesLine_two fun b (hb : b ∈ twoBlocks) => hb)
  rw [hrange] at hfirst
  -- the second request is never answered
  have hlost : streamFrom twoFromStr ((twoPlan 4).fetcher.portal
      (oneNetwork twoText twoBlocks fun k => decide (k < 1))) none 2 1 5 = some [.error .http] := by
    rw [streamFrom, if_neg (by decide), hsecond]
    rfl
  have hstream : streamBlocks twoFromStr ((twoPlan 4).fetcher.portal
      (oneNetwork twoText twoBlocks fun k => decide (k < 1))) 3 4 none
      = some [.ok { header := { number := 4 } }, .error .http] := by
    rw [streamBlocks, streamFrom, if_neg (by decide), hfirst]
    simp only [hpage, decide_true, if_true, Nat.zero_lt_one]
    rw [if_neg (by decide), if_neg (by decide)]
    exact congrArg (Option.map _) hlost
  simp only [Command.call, twoCommand, twoPlan] at hstream ⊢
  rw [hstream]
  rfl

theorem plan_two (alive : Nat → Bool) {head : U64} {db : StateDb}
    (hhead : db.getHeadBlock = .ok (some head)) :
    (twoCommand alive).plan db = .ok (twoPlan (head + 1)) := by
  simp only [Command.plan, hhead]
  rfl

theorem startsBehind_two (alive : Nat → Bool) (head : U64) :
    (twoCommand alive).StartsBehind head := by
  have hstart : startBlock (twoCommand alive).args.fromBlock (some head) = head + 1 := rfl
  rw [Command.StartsBehind, hstart]
  bv_omega

theorem completes_two {head : U64} {db : StateDb} (hhead : db.getHeadBlock = .ok (some head)) :
    (twoCommand fun _ => true).Completes twoFromStr ethereumMainnet (fun _ => twoBlocks) head db
      (twoPlan (head + 1)) where
  planned := plan_two _ hhead
  chain := rfl
  resumes := hhead
  starts := startsBehind_two _ head
  openEnded := rfl
  honest := honestAt_one writesLine_two _
  fuel := by decide

end EvmState
