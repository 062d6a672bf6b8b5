import EvmState.Replayer.Pipeline

/-!
# Calls that go the same way

What a call does with a block is to commit some databases and to go on or not. So two
calls over blocks that are replayed alike, with callbacks that cannot tell their reports
apart, go through the same databases and commit the same blocks (`pipelineStates_alike`).
-/

namespace EvmState

/-- Two results that are both a value, or errors in which `u` sees no difference. -/
inductive EndsAs {ε ε' α : Type} (u : ε → ε') : Except ε α → Except ε α → Prop
  | ok (v v' : α) : EndsAs u (.ok v) (.ok v')
  | error {e e' : ε} : u e' = u e → EndsAs u (.error e) (.error e')

theorem EndsAs.cases {ε ε' α : Type} {u : ε → ε'} {x y : Except ε α} (h : EndsAs u x y) :
    (∃ v v', x = .ok v ∧ y = .ok v') ∨ ∃ e e', x = .error e ∧ y = .error e' ∧ u e' = u e := by
  cases h with
  | ok v v' => exact .inl ⟨v, v', rfl, rfl⟩
  | error he => exact .inr ⟨_, _, rfl, rfl, he⟩

section Alike

variable {β ε : Type} (evm : Evm) (keccak256 : Bytes → B256) (f : BlockProgress → β)
  (u : ReplayError → ε) (call call' : PipelineCall)

/-- A block `b'` of one call is replayed as `b` is in another. -/
structure ReplayedAs (b b' : Block) : Prop where
  number : b'.header.number = b.header.number
  reported : ∀ n, f ⟨b.header.number, b'.transactions.length, n⟩
    = f ⟨b.header.number, b.transactions.length, n⟩
  commits : ∀ i db, (replayBlock evm keccak256 (call'.order i) db b' call'.spec).commits
    = (replayBlock evm keccak256 (call.order i) db b call.spec).commits
  ends : ∀ i db, EndsAs u (replayBlock evm keccak256 (call.order i) db b call.spec).result
    (replayBlock evm keccak256 (call'.order i) db b' call'.spec).result

/-- The same for what a stream delivers. -/
inductive DeliveredAs : Except String Block → Except String Block → Prop
  | error (e : String) : DeliveredAs (.error e) (.error e)
  | ok {b b' : Block} : ReplayedAs evm keccak256 f u call call' b b' →
      DeliveredAs (.ok b) (.ok b')

/-- The callbacks cannot tell reports apart in which `f` sees no difference. -/
def AsksAlike : Prop :=
  ∀ l l' : List BlockProgress, l'.map f = l.map f → call'.onProgress l' = call.onProgress l

/-- Two states of the loop in which `f` sees no difference. -/
structure PipelineState.Alike (st st' : PipelineState) : Prop where
  db : st'.db = st.db
  stats : st'.stats = st.stats
  progress : st'.progress.map f = st.progress.map f

/-- Two runs that leave the same and end alike. -/
structure PipelineRun.Alike (run run' : PipelineRun) : Prop where
  db : run'.db = run.db
  committed : run'.committed = run.committed
  result : run'.result.mapError u = run.result.mapError u

end Alike

section Calls

variable {β ε : Type} {evm : Evm} {keccak256 : Bytes → B256} {f : BlockProgress → β}
  {u : ReplayError → ε} {call call' : PipelineCall} {head : Option U64}

theorem PipelineState.Alike.next {st st' : PipelineState} (h : st.Alike f st') {b b' : Block}
    (hb : ReplayedAs evm keccak256 f u call call' b b') (db : StateDb) :
    (st.next b db).Alike f (st'.next b' db) where
  db := rfl
  stats := by simp only [PipelineState.next, h.stats, hb.number]
  progress := by
    simp only [PipelineState.next, List.map_append, List.map_cons, List.map_nil, h.progress,
      h.stats, hb.number, hb.reported]

variable (head) in
/-- **The loop goes the same way.** -/
theorem pipelineLoop_alike (hasks : AsksAlike f call call')
    {blocks blocks' : List (Except String Block)}
    (hblocks : List.Forall₂ (DeliveredAs evm keccak256 f u call call') blocks blocks')
    {st st' : PipelineState} (h : st.Alike f st') :
    pipelineCommits evm keccak256 call' head blocks' st'
        = pipelineCommits evm keccak256 call head blocks st
      ∧ (pipelineLoop evm keccak256 call head blocks st).Alike u
        (pipelineLoop evm keccak256 call' head blocks' st') := by
  induction hblocks generalizing st st' with
  | nil =>
      refine ⟨rfl, h.db, rfl, ?_⟩
      simp only [pipelineLoop, h.stats]
  | cons hitem hrest ih =>
      cases hitem with
      | error e => exact ⟨rfl, h.db, rfl, rfl⟩
      | @ok b b' hb =>
          simp only [pipelineCommits, pipelineLoop, hb.number, h.stats, h.db]
          by_cases hskip : head.any (fun h => decide (b.header.number ≤ h)) = true
          · rw [if_pos hskip, if_pos hskip, if_pos hskip, if_pos hskip]
            exact ih h
          · rw [if_neg hskip, if_neg hskip, if_neg hskip, if_neg hskip]
            cases hgap : st.stats.lastBlock.filter (fun last => b.header.number != last + 1) with
            | some last => exact ⟨rfl, rfl, rfl, rfl⟩
            | none =>
                have hcommits := hb.commits st.stats.blocksProcessed st.db
                have hleft : (replayBlock evm keccak256 (call'.order st.stats.blocksProcessed) st.db
                      b' call'.spec).db st.db
                    = (replayBlock evm keccak256 (call.order st.stats.blocksProcessed) st.db b
                      call.spec).db st.db := by
                  rw [Replay.db, Replay.db, hcommits]
                simp only [Option.isSome_none, Bool.false_eq_true, if_false, hcommits, hleft]
                rcases (hb.ends st.stats.blocksProcessed st.db).cases
                  with ⟨v, v', hres, hres'⟩ | ⟨e, e', hres, hres', he⟩
                · have hnext := h.next hb ((replayBlock evm keccak256
                    (call.order st.stats.blocksProcessed) st.db b call.spec).db st.db)
                  obtain ⟨hrest, hend⟩ := ih hnext
                  simp only [hres, hres', Except.isOk, Except.toBool, Bool.true_and,
                    hasks _ _ hnext.progress]
                  -- both callbacks are asked, and both say the same
                  cases call.onProgress (st.next b _).progress with
                  | true =>
                      exact ⟨congrArg _ hrest, hend.db, congrArg (List.cons _) hend.committed,
                        hend.result⟩
                  | false =>
                      exact ⟨rfl, rfl, rfl, congrArg (fun s => Except.ok s) hnext.stats⟩
                · simp only [hres, hres', Except.isOk, Except.toBool, Bool.false_and]
                  exact ⟨rfl, rfl, rfl, congrArg Except.error he⟩

/--
**Calls over blocks that are replayed alike** go through the same states of the database,
commit the same blocks, and end alike.
-/
theorem pipelineStates_alike (hasks : AsksAlike f call call')
    (hblocks : List.Forall₂ (DeliveredAs evm keccak256 f u call call') call.blocks call'.blocks)
    (db : StateDb) :
    pipelineStates evm keccak256 db call' = pipelineStates evm keccak256 db call
      ∧ (runPipeline evm keccak256 db call).Alike u (runPipeline evm keccak256 db call') := by
  rw [pipelineStates, pipelineStates, runPipeline, runPipeline]
  cases db.getHeadBlock with
  | error e => exact ⟨rfl, rfl, rfl, rfl⟩
  | ok head =>
      have hstart : PipelineState.Alike f ⟨db, {}, []⟩ ⟨db, {}, []⟩ := ⟨rfl, rfl, rfl⟩
      obtain ⟨hcommits, hend⟩ := pipelineLoop_alike head hasks hblocks hstart
      exact ⟨congrArg _ hcommits, hend⟩

end Calls

end EvmState
