import EvmState.Proof.Command
import EvmState.Proof.DiffState
import EvmState.Proof.Export

/-!
# Databases that change machines

A database is moved by exporting it and importing the file into an empty one. While that
goes on, and however often it is interrupted, the new database shows a part of the old
one, and it has a head only when it shows all of it (`importSnapshot_partial`). So a
replay may change machines between any two invocations (`movedRuns_resumed`).
-/

namespace EvmState

open Resume

section Import

variable {json : String → Option FlatJson.Obj} {db src : StateDb}
  {fromStr : String → Option SnapshotEntry} {file : List (Option String)}

/--
The database shows a part of `src`: what is there is as it is there, and what has been
committed is there.
-/
structure PartOf (fromStr : String → Option SnapshotEntry) (file : List (Option String))
    (src : StateDb) (history : List ImportEffect) (db : StateDb) (_ : Nat) : Prop where
  within : ∀ k, k ≠ .headBlock → db.getCf k = none ∨ db.getCf k = src.getCf k
  committed : ∀ e ∈ fileWrites fromStr file, HasCommitted history e →
    db.getCf e.2.key = src.getCf e.2.key

/-- What a batch leaves of the entries, if they say what `src` holds. -/
theorem getCf_commit_stretch (hfile : ∀ e ∈ fileWrites fromStr file, e.2.val = src.getCf e.2.key)
    (db : StateDb) (mark m : Nat) (head : Option U64) {k : Key} (hk : k ≠ .headBlock) :
    (db.commit (importBatch (stretch (fileWrites fromStr file) mark m) head)).getCf k
        = src.getCf k
      ∨ (∀ e ∈ stretch (fileWrites fromStr file) mark m, e.2.key ≠ k)
        ∧ (db.commit (importBatch (stretch (fileWrites fromStr file) mark m) head)).getCf k
          = db.getCf k := by
  -- the head the batch sets is a key of its own
  have hhead : WriteBatch.lastVal (head.toList.map .setHeadBlock) k = none := by
    refine WriteBatch.lastVal_eq_none_iff.mpr fun w hw => ?_
    obtain ⟨n, _, rfl⟩ := List.mem_map.mp hw
    exact fun h => hk h.symm
  rw [StateDb.getCf_commit, importBatch, WriteBatch.lastVal_append, hhead, Option.none_or]
  cases hlast : WriteBatch.lastVal ((stretch (fileWrites fromStr file) mark m).map Prod.snd) k with
  | none =>
      refine .inr ⟨fun e he => ?_, rfl⟩
      exact WriteBatch.lastVal_eq_none_iff.mp hlast e.2 (List.mem_map_of_mem he)
  | some v =>
      obtain ⟨w, hw, rfl, rfl⟩ := WriteBatch.mem_of_lastVal hlast
      obtain ⟨e, he, rfl⟩ := List.mem_map.mp hw
      exact .inl (hfile e (List.mem_of_mem_filter he))

/-- **A stretch more** is a part more. -/
theorem PartOf.commit (hfile : ∀ e ∈ fileWrites fromStr file, e.2.val = src.getCf e.2.key)
    {history : List ImportEffect} {mark n : Nat} (h : PartOf fromStr file src history db mark)
    (m : Nat) (head : Option U64) :
    PartOf fromStr file src
      (history ++ [.commit (stretch (fileWrites fromStr file) mark m) head])
      (db.commit (importBatch (stretch (fileWrites fromStr file) mark m) head)) n where
  within k hk := by
    rcases getCf_commit_stretch hfile db mark m head hk
      with hsrc | ⟨_, hsame⟩
    · exact .inr hsrc
    · rw [hsame]
      exact h.within k hk
  committed e he hcommitted := by
    rcases getCf_commit_stretch hfile db mark m head (key_of_mem_fileWrites he)
      with hsrc | ⟨hother, hsame⟩
    · exact hsrc
    · rw [hsame]
      obtain ⟨batch, head', hmem, hin⟩ := hcommitted
      rcases List.mem_append.mp hmem with hold | hnew
      · exact h.committed e he ⟨batch, head', hold, hin⟩
      · -- this batch is the one that committed the entry, so its key is written after all
        obtain ⟨rfl, _⟩ := ImportEffect.commit.inj (List.mem_singleton.mp hnew)
        exact absurd rfl (hother e hin)

theorem partOf_invariant
    (hfile : ∀ e ∈ fileWrites fromStr file, e.2.val = src.getCf e.2.key) :
    ImportInvariant fromStr file (PartOf fromStr file src) where
  mono h _ := ⟨h.within, h.committed⟩
  quiet h hquiet := by
    refine ⟨h.within, fun e he hcommitted => h.committed e he ?_⟩
    obtain ⟨batch, head, hmem, hin⟩ := hcommitted
    rcases List.mem_append.mp hmem with hold | hnew
    · exact ⟨batch, head, hold, hin⟩
    · exact absurd (List.mem_singleton.mp hnew).symm (hquiet batch head)
  batch h _ := h.commit hfile _ none
  finish h _ := h.commit hfile _ _

theorem partOf_start : PartOf fromStr file src [] .empty 0 where
  within k _ := .inl (by simp [StateDb.getCf, StateDb.empty])
  committed e _ hcommitted := by
    obtain ⟨batch, head, hmem, _⟩ := hcommitted
    cases hmem

/-- The writes of a file, without their numbers. -/
theorem map_snd_fileWrites :
    (fileWrites fromStr file).map Prod.snd = fileBatch fromStr file :=
  map_snd_numberedFrom 0 file

/-- **The lines of an exported file** say what the database holds, and all of it. -/
theorem exported_lines (hjson : FlatJson.Reads json) (hwf : db.WellFormed) {st : ExportState}
    (hst : exportSnapshot db = .ok st) :
    (∀ e ∈ fileWrites (SnapshotEntry.fromStr json) (fileLines st.text),
        e.2.val = db.getCf e.2.key)
      ∧ (∀ k v, k ≠ .headBlock → db.getCf k = some v →
          ∃ e ∈ fileWrites (SnapshotEntry.fromStr json) (fileLines st.text), e.2.key = k)
      ∧ (fileHead (SnapshotEntry.fromStr json) (fileLines st.text)).map (beOf 8)
        = db.getCf .headBlock := by
  obtain ⟨accounts, hacc, hmem⟩ := hwf.iterAccounts_ok
  obtain ⟨head, hhead, hget⟩ := hwf.getHeadBlock_ok
  obtain ⟨st', hst', hlines⟩ := exportSnapshot_lines hacc hhead
  obtain rfl : st = st' := Except.ok.inj (hst.symm.trans hst')
  rw [SnapshotEntry.fileLines_text hlines]
  have hwrites : (fileWrites (SnapshotEntry.fromStr json)
        ((exportEntries db accounts head).map fun e => some e.line)).map Prod.snd
      = (exportEntries db accounts head).filterMap SnapshotEntry.write? := by
    rw [map_snd_fileWrites, fileBatch_lines hjson]
  refine ⟨fun e he => ?_, fun k v hk hv => ?_, ?_⟩
  · have hw : e.2 ∈ (exportEntries db accounts head).filterMap SnapshotEntry.write? :=
      hwrites ▸ List.mem_map_of_mem he
    exact (getCf_of_exported hmem hw).2.2.symm
  · obtain ⟨w, hw, hkey⟩ : ∃ w ∈ (exportEntries db accounts head).filterMap SnapshotEntry.write?,
        w.key = k := exported_of_getCf hwf hmem hk hv
    rw [← hwrites] at hw
    obtain ⟨e, he, rfl⟩ := List.mem_map.mp hw
    exact ⟨e, he, hkey⟩
  · rw [fileHead_lines hjson, head_exported, hget]

theorem wellFormed_imports {history : List ImportEffect} {s : ImportDisk} (hdb : db.WellFormed)
    (h : Imports fromStr file db history s) : s.db.WellFormed := by
  induction h with
  | start => exact hdb
  | interrupted _ _ _ ih => exact wellFormed_applyAll ih _

/-- **A head is put in when everything is**: where there is one, nothing is missing. -/
theorem imported_of_head (hjson : FlatJson.Reads json) (hwf : db.WellFormed) {st : ExportState}
    (hst : exportSnapshot db = .ok st) {history : List ImportEffect} {s : ImportDisk}
    (h : Imports (SnapshotEntry.fromStr json) (fileLines st.text) .empty history s)
    (hhead : s.db.getHeadBlock ≠ .ok none) : s.db = db := by
  obtain ⟨hvalues, hall, hlast⟩ := exported_lines hjson hwf hst
  have htracked := headTracked_invariant.imports (headTracked_start rfl) h
  have hpart := (partOf_invariant hvalues).imports partOf_start h
  have hset : s.db.getCf .headBlock ≠ none := fun hunset =>
    hhead (getHeadBlock_of_getCf (o := none) hunset)
  refine StateDb.ext_getCf (wellFormed_imports StateDb.wellFormed_empty h) hwf fun k => ?_
  -- the head is the last head line of the file, every other key a line that was committed
  by_cases hk : k = .headBlock
  · subst hk
    obtain ⟨v, hv⟩ := Option.ne_none_iff_exists'.mp hset
    rw [← hlast, htracked.head v hv, hv]
  · cases hv : db.getCf k with
    | some v =>
        obtain ⟨e, he, rfl⟩ := hall k v hk hv
        rw [hpart.committed e he (htracked.complete hset e he), hv]
    | none =>
        rcases hpart.within k hk with hnone | hsame
        · exact hnone
        · rw [hsame, hv]

/--
**A part at every moment, and all of it with the head.** While the file of an exported
database is imported into an empty one, after any interruptions and between any two effects
of a run, what is read of the new database is absent or what is read of the old one; and it
has a head only when it is the old one.
-/
theorem importSnapshot_partial (hjson : FlatJson.Reads json) (hwf : db.WellFormed)
    {st : ExportState} (hst : exportSnapshot db = .ok st) {history : List ImportEffect}
    {s : ImportDisk}
    (h : Imports (SnapshotEntry.fromStr json) (fileLines st.text) .empty history s) :
    (∀ a, s.db.getAccount a = .ok none ∨ s.db.getAccount a = db.getAccount a)
      ∧ (∀ a slot, s.db.getStorage a slot = .ok none
          ∨ s.db.getStorage a slot = db.getStorage a slot)
      ∧ (∀ hash, s.db.getCode hash = none ∨ s.db.getCode hash = db.getCode hash)
      ∧ (s.db.getHeadBlock = .ok none ∨ s.db = db) := by
  have hwithin := ((partOf_invariant (exported_lines hjson hwf hst).1).imports partOf_start h).within
  refine ⟨fun a => ?_, fun a slot => ?_, fun hash => hwithin (.code hash) (by simp), ?_⟩
  · rw [StateDb.getAccount, StateDb.getAccount]
    rcases hwithin (.account a) (by simp) with hnone | hsame
    · exact .inl (by rw [hnone])
    · exact .inr (by rw [hsame])
  · rw [StateDb.getStorage, StateDb.getStorage]
    rcases hwithin (.slot a slot) (by simp) with hnone | hsame
    · exact .inl (by rw [hnone])
    · exact .inr (by rw [hsame])
  · by_cases hhead : s.db.getHeadBlock = .ok none
    · exact .inl hhead
    · exact .inr (imported_of_head hjson hwf hst h hhead)

/-- A run that is left alone brings the head over. -/
theorem exists_imported (hjson : FlatJson.Reads json) (hwf : db.WellFormed) {head : U64}
    (hhead : db.getHeadBlock = .ok (some head)) :
    ∃ st history s, exportSnapshot db = .ok st
      ∧ Imports (SnapshotEntry.fromStr json) (fileLines st.text) .empty history s
      ∧ s.db.getHeadBlock ≠ .ok none := by
  obtain ⟨accounts, hacc, _⟩ := hwf.iterAccounts_ok
  obtain ⟨st, hst, hlines⟩ := exportSnapshot_lines hacc hhead
  obtain ⟨s, stats, himport, _, _, hset, _⟩ :=
    importSnapshot_lines hjson (exportEntries db accounts (some head))
  rw [← SnapshotEntry.fileLines_text hlines] at himport
  have himports : Imports (SnapshotEntry.fromStr json) (fileLines st.text) .empty _
      (importSnapshot (SnapshotEntry.fromStr json) (fileLines st.text) ⟨.empty, none⟩).1 :=
    .interrupted .start (.inl rfl) (.after (List.append_nil _).symm)
  rw [himport] at himports
  refine ⟨st, _, s, hst, himports, ?_⟩
  rw [head_exported] at hset
  rw [getHeadBlock_of_getCf hset]
  simp

end Import

/-- An account, moved by a run that stops before it removes its sidecar. -/
theorem importSnapshot_partial_senderDb :
    ∃ st, exportSnapshot senderDb = .ok st
      ∧ let s := (⟨.empty, none⟩ : ImportDisk).applyAll
          ((importRun (SnapshotEntry.fromStr FlatJson.parse) (fileLines st.text) none).1.take 1)
        (∀ a, s.db.getAccount a = .ok none ∨ s.db.getAccount a = senderDb.getAccount a)
          ∧ (∀ a slot, s.db.getStorage a slot = .ok none
              ∨ s.db.getStorage a slot = senderDb.getStorage a slot)
          ∧ (∀ hash, s.db.getCode hash = none ∨ s.db.getCode hash = senderDb.getCode hash)
          ∧ (s.db.getHeadBlock = .ok none ∨ s.db = senderDb) := by
  obtain ⟨accounts, hacc, _⟩ := wellFormed_senderDb.iterAccounts_ok
  obtain ⟨head, hhead, _⟩ := wellFormed_senderDb.getHeadBlock_ok
  obtain ⟨st, hst, _⟩ := exportSnapshot_lines hacc hhead
  have himports : Imports (SnapshotEntry.fromStr FlatJson.parse) (fileLines st.text) .empty _ _ :=
    .interrupted .start (.inl rfl) (.after (List.take_append_drop 1 _).symm)
  exact ⟨st, hst, importSnapshot_partial FlatJson.parse_render wellFormed_senderDb hst himports⟩

/-! ## Runs on machine after machine -/

section Schedule

variable (evm : Evm) (keccak256 : Bytes → B256) (fromStr : String → Option Block)
  (display : FetchError → String) (spec : ChainSpec) (dataset : Bool → List Block)
  (json : String → Option FlatJson.Obj)

/--
Invocations as in `CommandRuns`, and between them moves: the database is exported, its file
imported into an empty one, with interruptions, and that is gone on with once it has a head.
-/
inductive MovedRuns (db₀ : StateDb) : List U64 → StateDb → Prop
  | start : MovedRuns db₀ [] db₀
  | run {committed : List U64} {db db' : StateDb} {head : U64} {c : Command} {plan : ReplayPlan}
      {call : PipelineCall} {k : Nat} :
      MovedRuns db₀ committed db → c.plan db = .ok plan → plan.spec = spec →
      db.getHeadBlock = .ok (some head) → c.StartsBehind head →
      UnreliableAt fromStr dataset c.network plan.fetcher.portalUrl →
      c.call fromStr display plan = some call →
      (pipelineStates evm keccak256 db call)[k]? = some db' →
      MovedRuns db₀ (committed ++ (runPipeline evm keccak256 db call).committed.take k) db'
  | moved {committed : List U64} {db : StateDb} {st : ExportState} {history : List ImportEffect}
      {s : ImportDisk} :
      MovedRuns db₀ committed db → exportSnapshot db = .ok st →
      Imports (SnapshotEntry.fromStr json) (fileLines st.text) .empty history s →
      s.db.getHeadBlock ≠ .ok none → MovedRuns db₀ committed s.db

end Schedule

section Moved

variable {evm : Evm} {keccak256 : Bytes → B256} {fromStr : String → Option Block}
  {display : FetchError → String} {spec : ChainSpec} {dataset : Bool → List Block}
  {json : String → Option FlatJson.Obj} {db₀ db : StateDb} {h : U64} {c : Command}
  {plan : ReplayPlan}

variable (hc : Contiguous (dataset spec.requiresStateDiffs))
  (hmax : ∀ b ∈ dataset spec.requiresStateDiffs, b.header.number < BitVec.allOnes 64)
  (hn : Numbered h ((dataset spec.requiresStateDiffs).filter fun b =>
    decide (h < b.header.number)))
  (hplain : ∀ b ∈ dataset spec.requiresStateDiffs, b.stateDiffs = [])
  (hdb₀ : db₀.getHeadBlock = .ok (some h)) (hwf : db₀.WellFormed) (hjson : FlatJson.Reads json)

include hc hmax hn hplain hdb₀ hwf hjson in
/-- **Moves leave no trace.** -/
theorem MovedRuns.commandRuns {committed : List U64}
    (hruns : MovedRuns evm keccak256 fromStr display spec dataset json db₀ committed db) :
    CommandRuns evm keccak256 fromStr display spec dataset db₀ committed db := by
  induction hruns with
  | start => exact .start
  | run _ hplan hspec hhead hstart hportal hcall hk ih =>
      exact .run ih hplan hspec hhead hstart hportal hcall hk
  | moved _ hst himports hhead ih =>
      -- what the runs have left can be exported in full
      obtain ⟨n, hp⟩ := commandRuns_atPrefix hc hmax hn hplain hdb₀ ih
      rw [imported_of_head hjson (wellFormed_replayAll hwf hp.db) hst himports hhead]
      exact ih

include hc hmax hn hplain hdb₀ hwf hjson in
/--
**Failing portals, dying processes and changes of machine change nothing.** On a chain whose
blocks come without diffs, and whatever invocations there were, over portals that break off,
fail or come to an early end, each of them killed behind any commit, with the database moved
to another machine between any two of them: an invocation that gets its stream through leaves
the database that one such invocation leaves at once, ends like it, and over all of them the
blocks it commits were committed once.
-/
theorem movedRuns_resumed {committed : List U64}
    (hruns : MovedRuns evm keccak256 fromStr display spec dataset json db₀ committed db)
    {head : U64} (hd : c.Completes fromStr spec dataset head db plan) {c₀ : Command}
    {plan₀ : ReplayPlan} (hd₀ : c₀.Completes fromStr spec dataset h db₀ plan₀) :
    ∃ run run₀, runReplay evm keccak256 fromStr display c db = some run
      ∧ runReplay evm keccak256 fromStr display c₀ db₀ = some run₀
      ∧ run.db = run₀.db ∧ committed ++ run.committed = run₀.committed
      ∧ run.result.map (fun _ => ()) = run₀.result.map (fun _ => ()) :=
  commandRuns_resumed hc hmax hn hplain hdb₀
    (hruns.commandRuns hc hmax hn hplain hdb₀ hwf hjson) hd hd₀

end Moved

/-- A connection that is refused, and a move before the next invocation. -/
theorem movedRuns_resumed_lost :
    let evm := Evm.counting fun _ => KECCAK256_EMPTY
    let keccak256 := fun _ => KECCAK256_EMPTY
    let lost : PipelineCall :=
      { blocks := [.ok { header := { number := 4 } }, .error "lost"], spec := ethereumMainnet }
    let db := (runPipeline evm keccak256 headDb lost).db
    ∃ st history s, exportSnapshot db = .ok st
      ∧ Imports (SnapshotEntry.fromStr FlatJson.parse) (fileLines st.text) .empty history s
      ∧ ∃ run run₀,
        runReplay evm keccak256 twoFromStr (fun _ => "lost") (twoCommand fun _ => true) s.db
            = some run
          ∧ runReplay evm keccak256 twoFromStr (fun _ => "lost") (twoCommand fun _ => true) headDb
            = some run₀
          ∧ run.db = run₀.db ∧ [4] ++ run.committed = run₀.committed
          ∧ run.result.map (fun _ => ()) = run₀.result.map (fun _ => ()) := by
  intro evm keccak256 lost db
  have hhead : db.getHeadBlock = .ok (some 4) := by decide
  -- the first run commits block 4 and loses the stream; its database is exported and imported
  have hruns : MovedRuns evm keccak256 twoFromStr (fun _ => "lost") ethereumMainnet
      (fun _ => twoBlocks) FlatJson.parse headDb
      ([] ++ (runPipeline evm keccak256 headDb lost).committed.take 1) db :=
    .run .start (plan_two _ head_headDb) rfl head_headDb (startsBehind_two _ 3)
      (unreliableAt_one writesLine_two _ _) call_two_lost rfl
  have hn : Numbered 3 (twoBlocks.filter fun b => decide (3 < b.header.number)) :=
    ⟨by decide, by decide, trivial⟩
  have hwf₀ : headDb.WellFormed := StateDb.wellFormed_commit StateDb.wellFormed_empty _
  have hcommandRuns : CommandRuns evm keccak256 twoFromStr (fun _ => "lost") ethereumMainnet
      (fun _ => twoBlocks) headDb _ db :=
    hruns.commandRuns contiguous_two (by decide) hn (by decide) head_headDb hwf₀
      FlatJson.parse_render
  obtain ⟨n, hp⟩ := commandRuns_atPrefix contiguous_two (by decide) hn (by decide) head_headDb
    hcommandRuns
  have hwf : db.WellFormed := wellFormed_replayAll hwf₀ hp.db
  obtain ⟨st, history, s, hst, himports, hset⟩ :=
    exists_imported FlatJson.parse_render hwf hhead
  have hmoved : s.db.getHeadBlock = .ok (some 4) := by
    rw [imported_of_head FlatJson.parse_render hwf hst himports hset, hhead]
  refine ⟨st, history, s, hst, himports, ?_⟩
  exact movedRuns_resumed contiguous_two (by decide) hn (by decide) head_headDb hwf₀
    FlatJson.parse_render (.moved hruns hst himports hset) (completes_two hmoved)
    (completes_two head_headDb)

end EvmState
