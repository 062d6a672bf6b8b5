import EvmState.Proof.Import

/-!
# The head an import leaves

The head block is kept in a variable until the last commit, but the lines it may come
from are skipped by number when an import is resumed. So it is never set too early,
`headTracked_invariant`: whoever sets it has committed everything else. But a run that
skips the last metadata line has forgotten what stood there.
-/

namespace EvmState

open Resume

/-- A write that was part of a batch that has been committed. -/
def HasCommitted (history : List ImportEffect) (e : Nat × Write) : Prop :=
  ∃ batch head, ImportEffect.commit batch head ∈ history ∧ e ∈ batch

theorem HasCommitted.append {history : List ImportEffect} {e : Nat × Write}
    (h : HasCommitted history e) (effects : List ImportEffect) :
    HasCommitted (history ++ effects) e := by
  obtain ⟨batch, head, hc, he⟩ := h
  exact ⟨batch, head, List.mem_append_left _ hc, he⟩

section Head

variable {fromStr : String → Option SnapshotEntry} {file : List (Option String)} {db₀ : StateDb}

/-- The head block of the last metadata line of a file. -/
def fileHead (fromStr : String → Option SnapshotEntry) (file : List (Option String)) : Option U64 :=
  (fileHeads fromStr file).getLast?.map Prod.snd

theorem lastHead_eq (q : Nat) :
    lastHead fromStr file q file.length
      = ((fileHeads fromStr file).getLast?.filter fun e => q < e.1).map Prod.snd := by
  rw [lastHead, fileHeads, getLast?_stretch (sorted_numbered file) fun e he => le_of_mem_numbered he]

/-- Whatever line a run starts at, it finds no other last head. -/
theorem fileHead_of_lastHead {q : Nat} {head : U64}
    (h : lastHead fromStr file q file.length = some head) : fileHead fromStr file = some head := by
  rw [lastHead_eq] at h
  obtain ⟨e, he, rfl⟩ := Option.map_eq_some_iff.mp h
  rw [fileHead, (Option.filter_eq_some_iff.mp he).1, Option.map_some]

/-- A run that skips nothing finds it. -/
theorem lastHead_zero : lastHead fromStr file 0 file.length = fileHead fromStr file := by
  rw [lastHead_eq, fileHead]
  cases hlast : (fileHeads fromStr file).getLast? with
  | none => rfl
  | some e =>
      have hpos : 0 < e.1 := (bounds_of_mem (List.mem_of_getLast? hlast)).1
      rw [Option.filter_some_pos (by simpa using hpos)]

/-! ## The head and the batches -/

/-- Entries leave the head alone. -/
theorem getCf_headBlock_commit (fromStr : String → Option SnapshotEntry)
    (file : List (Option String)) (db : StateDb) (mark m : Nat) (head : Option U64) :
    (db.commit (importBatch (stretch (fileWrites fromStr file) mark m) head)).getCf .headBlock
      = (head.map (beOf 8)).or (db.getCf .headBlock) := by
  have hnone : WriteBatch.lastVal (between (fileWrites fromStr file) mark m) .headBlock = none := by
    refine WriteBatch.lastVal_eq_none_iff.mpr fun w hw => ?_
    obtain ⟨e, he, rfl⟩ := List.mem_map.mp hw
    exact key_of_mem_fileWrites (List.mem_of_mem_filter he)
  rw [StateDb.getCf_commit, importBatch, WriteBatch.lastVal_append]
  rw [between] at hnone
  rw [hnone, Option.or_none]
  cases head with
  | none => rfl
  | some n => simp [WriteBatch.lastVal_singleton, Write.key, Write.val]

/-- A run that returns sets the last head above the lines it skips, if there is one. -/
theorem runs_head {skipLines mark : Nat} {effects : List ImportEffect}
    {result : Except ImportError ImportStats} {stats : ImportStats} {s : ImportDisk}
    (hr : Runs fromStr file skipLines mark effects result) (hok : result = .ok stats) :
    (s.applyAll effects).db.getCf .headBlock
      = ((lastHead fromStr file skipLines file.length).map (beOf 8)).or (s.db.getCf .headBlock) := by
  induction hr generalizing s with
  | stopped => cases hok
  | @batch mark m p effects result hm hr ih =>
      have hcommit := getCf_headBlock_commit fromStr file s.db mark m none
      exact (ih (s := ⟨_, some (progressText m)⟩) hok).trans (congrArg _ hcommit)
  | @finished mark p stats hhead =>
      refine (getCf_headBlock_commit fromStr file s.db mark file.length stats.headBlock).trans ?_
      rw [hhead]

/-! ## The head is never early -/

/-- What the sidecar counts is committed, and behind a head everything is. -/
structure HeadTracked (fromStr : String → Option SnapshotEntry) (file : List (Option String))
    (history : List ImportEffect) (db : StateDb) (p : Nat) : Prop where
  counted : ∀ e ∈ fileWrites fromStr file, e.1 ≤ p → HasCommitted history e
  complete : db.getCf .headBlock ≠ none → ∀ e ∈ fileWrites fromStr file, HasCommitted history e
  head : ∀ v, db.getCf .headBlock = some v → (fileHead fromStr file).map (beOf 8) = some v

/-- A stretch that is committed adds to what is. -/
theorem HeadTracked.counted_commit {history : List ImportEffect} {db : StateDb} {mark : Nat}
    (h : HeadTracked fromStr file history db mark) (m : Nat) (head : Option U64)
    {e : Nat × Write} (he : e ∈ fileWrites fromStr file) (hm : e.1 ≤ m) :
    HasCommitted (history ++ [.commit (stretch (fileWrites fromStr file) mark m) head]) e := by
  by_cases hmark : e.1 ≤ mark
  · exact (h.counted e he hmark).append _
  · have hin : e ∈ stretch (fileWrites fromStr file) mark m :=
      List.mem_filter.mpr ⟨he, decide_eq_true ⟨by omega, hm⟩⟩
    exact ⟨_, head, by simp, hin⟩

theorem headTracked_invariant : ImportInvariant fromStr file (HeadTracked fromStr file) where
  mono h hp := ⟨fun e he hle => h.counted e he (Nat.le_trans hle hp), h.complete, h.head⟩
  quiet h _ :=
    ⟨fun e he hle => (h.counted e he hle).append _, fun hv e he => (h.complete hv e he).append _,
      h.head⟩
  batch {history db mark m} h _ := by
    have hhead := getCf_headBlock_commit fromStr file db mark m none
    rw [Option.map_none, Option.none_or] at hhead
    refine ⟨fun e he hle => h.counted_commit m none he hle, fun hv e he => ?_, fun v hv => ?_⟩
    · exact (h.complete (hhead ▸ hv) e he).append _
    · exact h.head v (hhead ▸ hv)
  finish {history db skipLines mark n head} h hlast := by
    have hall : ∀ e ∈ fileWrites fromStr file, HasCommitted
        (history ++ [.commit (stretch (fileWrites fromStr file) mark file.length) head]) e :=
      fun e he => h.counted_commit file.length head he (le_of_mem_numbered he)
    refine ⟨fun e he _ => hall e he, fun _ => hall, fun v hv => ?_⟩
    -- the head is the one this run found, or the one that was there
    rw [getCf_headBlock_commit] at hv
    cases head with
    | none => exact h.head v hv
    | some n =>
        rw [fileHead_of_lastHead hlast.symm]
        exact hv

theorem headTracked_start (h : db₀.getHeadBlock = .ok none) :
    HeadTracked fromStr file [] db₀ 0 := by
  have hnone : db₀.getCf .headBlock = none := by
    unfold StateDb.getHeadBlock at h
    split at h
    · split at h <;> cases h
    · assumption
  refine ⟨fun e he hle => ?_, fun hv => absurd hnone hv, fun v hv => ?_⟩
  · have := (bounds_of_mem he).1
    omega
  · rw [hnone] at hv
    cases hv

/-! ## The head at the end -/

theorem getHeadBlock_of_getCf {db : StateDb} {o : Option U64}
    (h : db.getCf .headBlock = o.map (beOf 8)) : db.getHeadBlock = .ok o := by
  rw [StateDb.getHeadBlock, h]
  cases o with
  | none => rfl
  | some n => simp [ofBe_beOf (show 2 ^ 64 = 256 ^ 8 by omega)]

/-- The head is unset, or it is the file's. -/
theorem HeadTracked.cases {history : List ImportEffect} {db : StateDb} {p : Nat}
    (h : HeadTracked fromStr file history db p) :
    db.getCf .headBlock = none
      ∨ ∃ n, fileHead fromStr file = some n ∧ db.getCf .headBlock = some (beOf 8 n) := by
  cases hv : db.getCf .headBlock with
  | none => exact .inl rfl
  | some v =>
      obtain ⟨n, hn, rfl⟩ := Option.map_eq_some_iff.mp (h.head v hv)
      exact .inr ⟨n, hn, rfl⟩

/--
**When the imported head is right.** It is never set before everything is committed. A
run that returns leaves the head of the file's last metadata line if and only if the
head is set already, or the sidecar this run finds does not count that line.
-/
theorem importSnapshot_head_iff {history : List ImportEffect} {s : ImportDisk}
    (h : Imports fromStr file db₀ history s) (hnone : db₀.getHeadBlock = .ok none) :
    (s.db.getHeadBlock ≠ .ok none → ∀ e ∈ fileWrites fromStr file, HasCommitted history e) ∧
    ∀ lines stats, IsReadout file lines → (importSnapshot fromStr lines s).2 = .ok stats →
      ((importSnapshot fromStr lines s).1.db.getHeadBlock = .ok (fileHead fromStr file) ↔
        s.db.getHeadBlock ≠ .ok none
          ∨ ∀ e ∈ (fileHeads fromStr file).getLast?, readProgress s.progress < e.1) := by
  have htracked := headTracked_invariant.imports (headTracked_start hnone) h
  refine ⟨fun hset => htracked.complete fun hunset => ?_, fun lines stats hlines hok => ?_⟩
  · exact hset (getHeadBlock_of_getCf (o := none) hunset)
  have hend := runs_head (s := s) (importRun_runs hlines) hok
  rw [lastHead_eq] at hend
  rcases htracked.cases with hunset | ⟨n, hfile, hset⟩
  · -- the head is what this run finds, if anything
    have hs : s.db.getHeadBlock = .ok none := getHeadBlock_of_getCf (o := none) hunset
    rw [hunset, Option.or_none] at hend
    have hend' := getHeadBlock_of_getCf hend
    rw [show (importSnapshot fromStr lines s).1 = s.applyAll (importRun fromStr lines s.progress).1
      from rfl, hend', hs, fileHead]
    cases (fileHeads fromStr file).getLast? with
    | none => simp
    | some e =>
        obtain ⟨line, n⟩ := e
        by_cases hline : readProgress s.progress < line <;> simp [hline]
  · -- it was set before, and can only be set to the same again
    have hs : s.db.getHeadBlock = .ok (some n) := getHeadBlock_of_getCf (o := some n) hset
    have hend' : (importSnapshot fromStr lines s).1.db.getHeadBlock = .ok (some n) := by
      refine getHeadBlock_of_getCf (o := some n) (hend.trans ?_)
      rw [hset, ← lastHead_eq]
      cases hlast : lastHead fromStr file (readProgress s.progress) file.length with
      | none => rfl
      | some m =>
          obtain rfl : m = n := Option.some.inj ((fileHead_of_lastHead hlast).symm.trans hfile)
          rfl
    rw [hend', hs, hfile]
    simp

end Head

/-- In one run the sidecar counts nothing, and the head is set. -/
theorem importSnapshot_head_iff_metadata :
    let fromStr := SnapshotEntry.fromStr FlatJson.parse
    let file := [some (SnapshotEntry.metadata 65).line,
      some (SnapshotEntry.account 0xC0FFEE 7 1000 0).line]
    (importSnapshot fromStr file ⟨.empty, none⟩).1.db.getHeadBlock = .ok (fileHead fromStr file) := by
  intro fromStr file
  have hread : ∀ e : SnapshotEntry, fromStr e.line = some e :=
    SnapshotEntry.fromStr_line FlatJson.parse_render
  have hok : (importSnapshot fromStr file ⟨.empty, none⟩).2 = .ok ⟨1, 0, 0, some 65⟩ := by
    simp [importSnapshot, importRun, importLines, file, hread, SnapshotEntry.isBlank_line,
      ImportState.read, ImportState.push, ImportStats.add, readProgress, BATCH_SIZE]
  refine ((importSnapshot_head_iff .start rfl).2 file _ (.inl rfl) hok).mpr (.inr fun e he => ?_)
  exact (bounds_of_mem (List.mem_of_getLast? he)).1

/-! ## A head that is forgotten -/

section Forgotten

variable {fromStr : String → Option SnapshotEntry} {line : String} {entry : SnapshotEntry}

/-- One entry over and over until the batch is full. -/
theorem importLines_fill (hread : fromStr line = some entry) (hblank : isBlank line = false)
    {n : Nat} {st : ImportState} (h : st.entriesInBatch + (n + 1) = BATCH_SIZE) :
    ∃ batch p effects,
      (importLines fromStr 0 (List.replicate (n + 1) (some line)) st).1
        = .commit batch none :: .writeProgress (progressText (st.lineNum + (n + 1))) :: .report p
          :: effects := by
  -- on the lines still missing from the batch
  induction n generalizing st with
  | zero =>
      have hfull : BATCH_SIZE ≤ ((st.read line).push entry).entriesInBatch := h.ge
      rw [List.replicate_succ, importLines]
      simp only [hread, hblank]
      rw [if_neg (by simp [ImportState.read]), if_neg (by simp), if_pos hfull]
      exact ⟨_, _, _, rfl⟩
  | succ n ih =>
      have hroom : ¬ BATCH_SIZE ≤ ((st.read line).push entry).entriesInBatch := by
        have : ((st.read line).push entry).entriesInBatch = st.entriesInBatch + 1 := rfl
        omega
      have hfill : ((st.read line).push entry).entriesInBatch + (n + 1) = BATCH_SIZE := by
        rw [← h, show ((st.read line).push entry).entriesInBatch = st.entriesInBatch + 1 from rfl]
        omega
      obtain ⟨batch, p, effects, hrest⟩ := ih hfill
      refine ⟨batch, p, effects, ?_⟩
      rw [List.replicate_succ, importLines]
      simp only [hread, hblank]
      rw [if_neg (by simp [ImportState.read]), if_neg (by simp), if_neg hroom, hrest,
        show ((st.read line).push entry).lineNum = st.lineNum + 1 from rfl, Nat.add_assoc,
        Nat.add_comm 1]

/-- A run that skips every line returns. -/
theorem importLines_skipped {skipLines : Nat} {lines : List (Option String)} {st : ImportState}
    (hlines : none ∉ lines) (h : st.lineNum + lines.length ≤ skipLines) :
    (importLines fromStr skipLines lines st).2 = .ok st.stats := by
  induction lines generalizing st with
  | nil => rfl
  | cons l lines ih =>
      rw [List.mem_cons, not_or] at hlines
      rw [List.length_cons] at h
      cases l with
      | none => exact absurd rfl hlines.1
      | some line =>
          have hnum : (st.read line).lineNum = st.lineNum + 1 := rfl
          rw [importLines]
          simp only
          rw [if_pos (by omega), ih hlines.2 (by omega)]
          rfl

/-- A metadata line and a full batch behind it. -/
theorem importRun_full {first : String} {head : U64} (hfirst : fromStr first = some (.metadata head))
    (hblank₀ : isBlank first = false) (hread : fromStr line = some entry)
    (hblank : isBlank line = false) {n : Nat} (hn : 1 + (n + 1) = BATCH_SIZE) :
    ∃ batch p effects,
      (importRun fromStr (some first :: List.replicate (n + 1) (some line)) none).1
        = .commit batch none :: .writeProgress (progressText BATCH_SIZE) :: .report p
          :: effects := by
  have hfill : ((ImportState.read {} first).push (.metadata head)).entriesInBatch + (n + 1)
      = BATCH_SIZE := hn
  obtain ⟨batch, p, effects, h⟩ := importLines_fill hread hblank hfill
  refine ⟨batch, p, effects, ?_⟩
  have hroom : ¬ BATCH_SIZE ≤ ((ImportState.read {} first).push (.metadata head)).entriesInBatch := by
    have : ((ImportState.read {} first).push (.metadata head)).entriesInBatch = 1 := rfl
    omega
  have hskip : ¬ (ImportState.read {} first).lineNum ≤ readProgress none := by
    simp [ImportState.read, readProgress]
  rw [importRun, importLines]
  simp only [hfirst, hblank₀]
  rw [if_neg hskip, if_neg (by simp), if_neg hroom, ← hn]
  exact h

/-- What a full batch holds. -/
theorem runs_batch {file : List (Option String)} {skipLines mark : Nat}
    {effects : List ImportEffect} {result : Except ImportError ImportStats}
    (hr : Runs fromStr file skipLines mark effects result) {batch : List (Nat × Write)}
    {text : String} {rest : List ImportEffect}
    (h : effects = .commit batch none :: .writeProgress text :: rest) :
    ∃ m, batch = stretch (fileWrites fromStr file) mark m := by
  cases hr with
  | stopped => cases h
  | @batch _ m _ _ _ _ _ =>
      rw [List.cons.injEq, ImportEffect.commit.injEq] at h
      exact ⟨m, h.1.1.symm⟩
  | finished _ => simp at h

theorem readProgress_full : readProgress (some (progressText BATCH_SIZE)) = BATCH_SIZE := by decide

/-- Stopped after the progress write of a batch that ends with the file, and run again. -/
theorem head_forgotten {file : List (Option String)} (hfile : none ∉ file)
    (hlen : file.length = BATCH_SIZE) {batch : List (Nat × Write)} {p : ImportProgress}
    {effects : List ImportEffect}
    (hrun : (importRun fromStr file none).1
      = .commit batch none :: .writeProgress (progressText BATCH_SIZE) :: .report p :: effects) :
    let done := (importRun fromStr file none).1.take 2
    let s := (⟨.empty, none⟩ : ImportDisk).applyAll done
    Imports fromStr file .empty done s
      ∧ (importSnapshot fromStr file s).2 = .ok ⟨0, 0, 0, none⟩
      ∧ (importSnapshot fromStr file s).1.db.getHeadBlock = .ok none := by
  intro done s
  have hlines : IsReadout file file := .inl rfl
  have hs : s = ⟨StateDb.empty.commit (importBatch batch none), some (progressText BATCH_SIZE)⟩ := by
    show (⟨.empty, none⟩ : ImportDisk).applyAll ((importRun fromStr file none).1.take 2) = _
    rw [hrun]
    rfl
  have hbatch : (StateDb.empty.commit (importBatch batch none)).getCf .headBlock = none := by
    obtain ⟨m, rfl⟩ := runs_batch (importRun_runs hlines) hrun
    exact getCf_headBlock_commit fromStr file .empty _ m none
  -- the sidecar counts every line there is
  have hskip : readProgress s.progress = file.length := by rw [hs, readProgress_full, hlen]
  have hok : (importSnapshot fromStr file s).2 = .ok ⟨0, 0, 0, none⟩ := by
    have hall : ({} : ImportState).lineNum + file.length ≤ readProgress s.progress := by
      rw [hskip, Nat.zero_add]
    exact importLines_skipped hfile hall
  refine ⟨?_, hok, getHeadBlock_of_getCf (o := none) ?_⟩
  · exact .interrupted .start hlines (.after (List.take_append_drop 2 _).symm)
  · refine (runs_head (s := s) (importRun_runs hlines) hok).trans ?_
    rw [hskip, lastHead_nil (Nat.le_refl _), hs]
    exact hbatch

end Forgotten

/-- A metadata line, and 9,999 more that fill the first batch. -/
def headFirst : List (Option String) :=
  some (SnapshotEntry.metadata 65).line
    :: List.replicate (9998 + 1) (some (SnapshotEntry.account 0xC0FFEE 7 1000 0).line)

/-- A metadata line before others that hold none is the last one. -/
theorem fileHead_first {fromStr : String → Option SnapshotEntry} {first : Option String}
    {rest : List (Option String)} {head : U64}
    (hfirst : lineEntry fromStr first = some (.metadata head))
    (hrest : ∀ l ∈ rest, (lineEntry fromStr l).bind SnapshotEntry.head? = none) :
    fileHead fromStr (first :: rest) = some head := by
  have hnil : numberedFrom (fun l => (lineEntry fromStr l).bind SnapshotEntry.head?) 1 rest = [] := by
    refine List.eq_nil_iff_forall_not_mem.mpr fun e he => ?_
    obtain ⟨l, hl, hf⟩ := exists_of_mem he
    rw [hrest l hl] at hf
    cases hf
  rw [fileHead, fileHeads, numbered, numberedFrom, hnil, hfirst]
  rfl

/--
Stopped after the first progress write, with every line counted, the import returns
on the next run, and the head that the first line named is never set.
-/
theorem importSnapshot_forgets_head :
    let fromStr := SnapshotEntry.fromStr FlatJson.parse
    let done := (importRun fromStr headFirst none).1.take 2
    let s := (⟨.empty, none⟩ : ImportDisk).applyAll done
    Imports fromStr headFirst .empty done s
      ∧ fileHead fromStr headFirst = some 65
      ∧ (importSnapshot fromStr headFirst s).2 = .ok ⟨0, 0, 0, none⟩
      ∧ (importSnapshot fromStr headFirst s).1.db.getHeadBlock = .ok none := by
  intro fromStr done s
  have hread : ∀ e : SnapshotEntry, fromStr e.line = some e :=
    SnapshotEntry.fromStr_line FlatJson.parse_render
  have hentry : ∀ e : SnapshotEntry, lineEntry fromStr (some e.line) = some e :=
    lineEntry_line FlatJson.parse_render
  obtain ⟨batch, p, effects, hrun⟩ : ∃ batch p effects, (importRun fromStr headFirst none).1
      = .commit batch none :: .writeProgress (progressText BATCH_SIZE) :: .report p :: effects :=
    importRun_full (hread _) (SnapshotEntry.isBlank_line _) (hread _)
      (SnapshotEntry.isBlank_line _) rfl
  have hnone : none ∉ headFirst := fun h => by
    rcases List.mem_cons.mp h with h | h
    · cases h
    · cases List.eq_of_mem_replicate h
  have hlen : headFirst.length = BATCH_SIZE := by
    rw [headFirst, List.length_cons, List.length_replicate, BATCH_SIZE]
  have hhead : fileHead fromStr headFirst = some 65 :=
    fileHead_first (hentry _) fun l hl => by
      rw [List.eq_of_mem_replicate hl, hentry]
      rfl
  obtain ⟨himports, hok, hunset⟩ := head_forgotten hnone hlen hrun
  exact ⟨himports, hhead, hok, hunset⟩

end EvmState
