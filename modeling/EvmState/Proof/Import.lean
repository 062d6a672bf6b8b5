import EvmState.Lib.Resume
import EvmState.Proof.Line
import EvmState.Proof.StateDb

/-!
# Imports that are interrupted and resumed

`importLines_runs` says what a run does, whatever its file: it commits the entries
above the lines it skips in stretches, each followed by a progress write, and at the
end the rest with the head. From there on, interrupting and resuming is a matter of
logs and marks: the sidecar never counts more than is committed, and every mark up
to it is safe to go on from.
-/

namespace EvmState

open Resume

/-! ## The entries of a file -/

section File

variable (fromStr : String → Option SnapshotEntry)

/-- The entry on a line, if it is read and holds one. -/
def lineEntry : Option String → Option SnapshotEntry
  | some line => if isBlank line then none else fromStr line
  | none => none

theorem lineEntry_line {json : String → Option FlatJson.Obj} (hjson : FlatJson.Reads json)
    (e : SnapshotEntry) : lineEntry (SnapshotEntry.fromStr json) (some e.line) = some e := by
  rw [lineEntry, if_neg (by simp [SnapshotEntry.isBlank_line]), SnapshotEntry.fromStr_line hjson]

/-- The writes of a file with the numbers of their lines. -/
def fileWrites (file : List (Option String)) : List (Nat × Write) :=
  numbered (fun l => (lineEntry fromStr l).bind SnapshotEntry.write?) file

/-- The head blocks of its metadata lines. -/
def fileHeads (file : List (Option String)) : List (Nat × U64) :=
  numbered (fun l => (lineEntry fromStr l).bind SnapshotEntry.head?) file

/-- The last head block that is named on a line above `q` and up to `m`. -/
def lastHead (file : List (Option String)) (q m : Nat) : Option U64 :=
  (stretch (fileHeads fromStr file) q m).getLast?.map Prod.snd

end File

/-- What reading a file can yield: its lines, or the first of them and then an error. -/
def IsReadout (file lines : List (Option String)) : Prop :=
  lines = file ∨ ∃ k, lines = file.take k ++ [none]

/-! ## What a run does -/

/--
The effects and results of runs over a file from a mark on: stop, commit a stretch
and go on, or commit what is left and be done.
-/
inductive Runs (fromStr : String → Option SnapshotEntry) (file : List (Option String))
    (skipLines : Nat) : Nat → List ImportEffect → Except ImportError ImportStats → Prop
  | stopped {mark : Nat} {e : ImportError} : Runs fromStr file skipLines mark [] (.error e)
  | batch {mark m : Nat} {p : ImportProgress} {effects : List ImportEffect}
      {result : Except ImportError ImportStats} :
      mark ≤ m → Runs fromStr file skipLines m effects result →
      Runs fromStr file skipLines mark
        (.commit (stretch (fileWrites fromStr file) mark m) none
          :: .writeProgress (progressText m) :: .report p :: effects) result
  | finished {mark : Nat} {p : ImportProgress} {stats : ImportStats} :
      stats.headBlock = lastHead fromStr file skipLines file.length →
      Runs fromStr file skipLines mark
        [.commit (stretch (fileWrites fromStr file) mark file.length) stats.headBlock,
          .removeProgress, .report p] (.ok stats)

theorem IsReadout.tail {x : Option String} {file lines : List (Option String)} {line : String}
    (h : IsReadout (x :: file) (some line :: lines)) : x = some line ∧ IsReadout file lines := by
  rcases h with h | ⟨k, h⟩
  · obtain ⟨rfl, rfl⟩ := List.cons.inj h
    exact ⟨rfl, .inl rfl⟩
  · cases k with
    | zero => simp at h
    | succ k =>
        rw [List.take_succ_cons, List.cons_append, List.cons.injEq] at h
        exact ⟨h.1.symm, .inr ⟨k, h.2⟩⟩

section Loop

variable {fromStr : String → Option SnapshotEntry} {file : List (Option String)} {skipLines : Nat}

theorem lastHead_succ {pre post : List (Option String)} {x : Option String} {q : Nat}
    (h : q ≤ pre.length) :
    lastHead fromStr (pre ++ x :: post) q (pre.length + 1)
      = ((lineEntry fromStr x).bind SnapshotEntry.head?).or
          (lastHead fromStr (pre ++ x :: post) q pre.length) := by
  rw [lastHead, fileHeads, stretch_succ h, List.getLast?_append, lastHead, fileHeads]
  cases (lineEntry fromStr x).bind SnapshotEntry.head? <;> simp

theorem lastHead_nil {q m : Nat} (h : m ≤ q) : lastHead fromStr file q m = none := by
  rw [lastHead, stretch_nil h]
  rfl

theorem headBlock_add (stats : ImportStats) (entry : SnapshotEntry) :
    (stats.add entry).headBlock = entry.head?.or stats.headBlock := by
  cases entry <;> rfl

/-- The loop after the lines `pre`: what lies above the mark is in the batch. -/
structure AtLine (fromStr : String → Option SnapshotEntry) (file : List (Option String))
    (skipLines mark : Nat) (pre : List (Option String)) (st : ImportState) : Prop where
  lineNum : st.lineNum = pre.length
  mark_le : mark = skipLines ∨ mark ≤ pre.length
  skip_le : skipLines ≤ mark
  batch : st.batch = stretch (fileWrites fromStr file) mark pre.length
  head : st.stats.headBlock = lastHead fromStr file skipLines pre.length

theorem atLine_start (fromStr : String → Option SnapshotEntry) (file : List (Option String))
    (skipLines : Nat) : AtLine fromStr file skipLines skipLines [] {} where
  lineNum := rfl
  mark_le := .inl rfl
  skip_le := Nat.le_refl _
  batch := (stretch_nil (Nat.zero_le _)).symm
  head := (lastHead_nil (Nat.zero_le _)).symm

variable {mark : Nat} {pre post : List (Option String)} {line : String} {st : ImportState}

/-- A line that is skipped, or holds no entry. -/
theorem AtLine.pass (h : AtLine fromStr (pre ++ some line :: post) skipLines mark pre st)
    (hline : pre.length + 1 ≤ skipLines ∨ lineEntry fromStr (some line) = none) :
    AtLine fromStr (pre ++ some line :: post) skipLines mark (pre ++ [some line])
      (st.read line) := by
  have hlen : (pre ++ [some line]).length = pre.length + 1 := by simp
  refine ⟨by rw [hlen, ← h.lineNum]; rfl, h.mark_le.imp_right fun hm => by omega, h.skip_le, ?_, ?_⟩
  · rw [hlen]
    refine h.batch.trans ?_
    -- below the mark nothing is collected; above it the line has no entry to collect
    by_cases hm : pre.length + 1 ≤ mark
    · rw [stretch_nil (by omega), stretch_nil hm]
    · rcases hline with hskip | hnone
      · exact absurd (Nat.le_trans hskip h.skip_le) hm
      · rw [fileWrites, stretch_succ (by omega), hnone]
        exact (List.append_nil _).symm
  · rw [hlen]
    refine h.head.trans ?_
    by_cases hs : pre.length + 1 ≤ skipLines
    · rw [lastHead_nil (by omega), lastHead_nil hs]
    · rw [lastHead_succ (by omega), hline.resolve_left hs]
      rfl

/-- A line that holds an entry. -/
theorem AtLine.push (h : AtLine fromStr (pre ++ some line :: post) skipLines mark pre st)
    (hskip : ¬ pre.length + 1 ≤ skipLines) {entry : SnapshotEntry}
    (hentry : lineEntry fromStr (some line) = some entry) :
    AtLine fromStr (pre ++ some line :: post) skipLines mark (pre ++ [some line])
      ((st.read line).push entry) := by
  have hlen : (pre ++ [some line]).length = pre.length + 1 := by simp
  have hmark : mark ≤ pre.length := by
    have := h.mark_le
    omega
  refine ⟨by rw [hlen, ← h.lineNum]; rfl, .inr (by omega), h.skip_le, ?_, ?_⟩
  · rw [hlen, fileWrites, stretch_succ hmark, hentry, ← fileWrites, ← h.batch, ← h.lineNum]
    rfl
  · rw [hlen, lastHead_succ (by omega), hentry, ← h.head]
    exact headBlock_add st.stats entry

/-- The batch has been committed. -/
theorem AtLine.flush (h : AtLine fromStr file skipLines mark pre st)
    (hskip : skipLines ≤ pre.length) :
    AtLine fromStr file skipLines pre.length pre { st with entriesInBatch := 0, batch := [] } where
  lineNum := h.lineNum
  mark_le := .inr (Nat.le_refl _)
  skip_le := hskip
  batch := (stretch_nil (Nat.le_refl _)).symm
  head := h.head

/-- **What a run does**, from any line on. -/
theorem importLines_runs {lines : List (Option String)}
    (h : AtLine fromStr (pre ++ post) skipLines mark pre st) (hlines : IsReadout post lines) :
    Runs fromStr (pre ++ post) skipLines mark (importLines fromStr skipLines lines st).1
      (importLines fromStr skipLines lines st).2 := by
  -- on what is read, along the file: `pre` is behind the loop, `post` before it
  induction lines generalizing st mark pre post with
  | nil =>
      have hpost : post = [] := by
        rcases hlines with h | ⟨k, h⟩
        · exact h.symm
        · simp at h
      subst hpost
      rw [List.append_nil] at h ⊢
      rw [importLines, h.batch]
      exact .finished h.head
  | cons line lines ih =>
      cases line with
      | none => exact .stopped
      | some line =>
          cases post with
          | nil => exact absurd hlines (by simp [IsReadout])
          | cons x post =>
              obtain ⟨rfl, htail⟩ := hlines.tail
              have hfile : pre ++ some line :: post = (pre ++ [some line]) ++ post :=
                List.append_cons ..
              have hnum : (st.read line).lineNum = pre.length + 1 := congrArg (· + 1) h.lineNum
              rw [importLines, hnum]
              split
              · rename_i hle
                exact hfile ▸ ih (hfile ▸ h.pass (.inl hle)) htail
              · rename_i hle
                split
                · rename_i hblank
                  exact hfile ▸ ih (hfile ▸ h.pass (.inr (if_pos hblank))) htail
                · rename_i hblank
                  cases hparse : fromStr line with
                  | none => exact .stopped
                  | some entry =>
                      have hpush := h.push hle ((if_neg hblank).trans hparse)
                      dsimp only
                      split
                      · -- the batch is full
                        have hskip : skipLines ≤ (pre ++ [some line]).length := by
                          simp only [List.length_append, List.length_singleton]
                          omega
                        have hmark : mark ≤ (pre ++ [some line]).length := by
                          have := hpush.mark_le
                          omega
                        rw [hpush.batch, congrArg progressText hpush.lineNum]
                        exact .batch hmark (hfile ▸ ih (hfile ▸ hpush.flush hskip) htail)
                      · -- there is room for more in the batch
                        exact hfile ▸ ih (hfile ▸ hpush) htail

/-- A run starts where its sidecar says. -/
theorem importRun_runs {lines : List (Option String)} {sidecar : Option String}
    (h : IsReadout file lines) :
    Runs fromStr file (readProgress sidecar) (readProgress sidecar)
      (importRun fromStr lines sidecar).1 (importRun fromStr lines sidecar).2 := by
  have hstart : AtLine fromStr ([] ++ file) (readProgress sidecar) (readProgress sidecar) [] {} :=
    atLine_start fromStr file (readProgress sidecar)
  exact importLines_runs hstart h

end Loop

/-! ## Interruptions -/

/-- What has been done when a run is interrupted: its last progress write may be torn. -/
inductive Interrupted (effects : List ImportEffect) : List ImportEffect → Prop
  | after {done rest : List ImportEffect} : effects = done ++ rest → Interrupted effects done
  | torn {done rest : List ImportEffect} {text written : List Char} :
      effects = done ++ .writeProgress (String.ofList text) :: rest → written <+: text →
      Interrupted effects (done ++ [.writeProgress (String.ofList written)])

theorem interrupted_nil {done : List ImportEffect} (h : Interrupted [] done) : done = [] := by
  cases h with
  | after h => exact (List.append_eq_nil_iff.mp h.symm).1
  | torn h _ => simp at h

/-- Interrupted at once, within the first effect, or later. -/
theorem interrupted_cons {e : ImportEffect} {effects done : List ImportEffect}
    (h : Interrupted (e :: effects) done) :
    done = []
      ∨ (∃ text written, e = .writeProgress (String.ofList text) ∧ written <+: text
          ∧ done = [.writeProgress (String.ofList written)])
      ∨ ∃ done', done = e :: done' ∧ Interrupted effects done' := by
  cases h with
  | @after done rest h =>
      cases done with
      | nil => exact .inl rfl
      | cons e' done =>
          obtain ⟨rfl, hrest⟩ := List.cons.inj h
          exact .inr (.inr ⟨done, rfl, .after hrest⟩)
  | @torn done rest text written h hw =>
      cases done with
      | nil =>
          obtain ⟨rfl, _⟩ := List.cons.inj h
          exact .inr (.inl ⟨text, written, rfl, hw, rfl⟩)
      | cons e' done =>
          obtain ⟨rfl, hrest⟩ := List.cons.inj h
          exact .inr (.inr ⟨_, rfl, .torn hrest hw⟩)

section Cuts

variable {batch : List (Nat × Write)} {m : Nat} {p : ImportProgress} {head : Option U64}
  {effects done : List ImportEffect}

/-- Where a run can be cut at a full batch. -/
theorem interrupted_batch
    (h : Interrupted (.commit batch none :: .writeProgress (progressText m) :: .report p :: effects)
      done) :
    done = [] ∨ done = [.commit batch none]
      ∨ (∃ written, written <+: Nat.toDigits 10 m
          ∧ done = [.commit batch none, .writeProgress (String.ofList written)])
      ∨ ∃ done', done = .commit batch none :: .writeProgress (progressText m) :: .report p :: done'
          ∧ Interrupted effects done' := by
  rcases interrupted_cons h with h | ⟨_, _, h, _, _⟩ | ⟨done₁, rfl, h₁⟩
  · exact .inl h
  · cases h
  rcases interrupted_cons h₁ with rfl | ⟨text, written, htext, hw, rfl⟩ | ⟨done₂, rfl, h₂⟩
  · exact .inr (.inl rfl)
  · rw [progressText, ImportEffect.writeProgress.injEq, String.ofList_inj] at htext
    exact .inr (.inr (.inl ⟨written, htext ▸ hw, rfl⟩))
  rcases interrupted_cons h₂ with rfl | ⟨_, _, h, _, _⟩ | ⟨done₃, rfl, h₃⟩
  · exact .inr (.inr (.inl ⟨_, List.prefix_refl _, rfl⟩))
  · cases h
  · exact .inr (.inr (.inr ⟨done₃, rfl, h₃⟩))

/-- Where it can be cut at the end. -/
theorem interrupted_finished
    (h : Interrupted [.commit batch head, .removeProgress, .report p] done) :
    done = [] ∨ done = [.commit batch head] ∨ done = [.commit batch head, .removeProgress]
      ∨ done = [.commit batch head, .removeProgress, .report p] := by
  rcases interrupted_cons h with h | ⟨_, _, h, _, _⟩ | ⟨done₁, rfl, h₁⟩
  · exact .inl h
  · cases h
  rcases interrupted_cons h₁ with rfl | ⟨_, _, h, _, _⟩ | ⟨done₂, rfl, h₂⟩
  · exact .inr (.inl rfl)
  · cases h
  rcases interrupted_cons h₂ with rfl | ⟨_, _, h, _, _⟩ | ⟨done₃, rfl, h₃⟩
  · exact .inr (.inr (.inl rfl))
  · cases h
  · rw [interrupted_nil h₃]
    exact .inr (.inr (.inr rfl))

end Cuts

/--
The states that imports of a file come to, interrupted at any point and started over,
with everything that was done on the way.
-/
inductive Imports (fromStr : String → Option SnapshotEntry) (file : List (Option String))
    (db₀ : StateDb) : List ImportEffect → ImportDisk → Prop
  | start : Imports fromStr file db₀ [] ⟨db₀, none⟩
  | interrupted {history done : List ImportEffect} {s : ImportDisk} {lines : List (Option String)} :
      Imports fromStr file db₀ history s → IsReadout file lines →
      Interrupted (importRun fromStr lines s.progress).1 done →
      Imports fromStr file db₀ (history ++ done) (s.applyAll done)

/-! ## Progress that is read back -/

/-- A torn progress write counts no more than it should have. -/
theorem readProgress_le {n : Nat} {written : List Char} (h : written <+: Nat.toDigits 10 n) :
    readProgress (some (String.ofList written)) ≤ n := by
  have hdigit : ∀ c ∈ written, ∃ d, Radix.digitVal c = some d := fun c hc => by
    obtain ⟨d, hd, _⟩ := Radix.digitVal_of_toDigits (by omega) (by omega) (h.subset hc)
    exact ⟨d, hd⟩
  have hspace : ∀ c ∈ written, Text.isWhitespace c = false := fun c hc => by
    obtain ⟨d, hd⟩ := hdigit c hc
    obtain ⟨h1, h2⟩ := Radix.printable_of_digitVal hd
    exact Text.isWhitespace_of_printable (by omega) (by omega)
  have hplus : '+' ∉ written := fun hc => by
    obtain ⟨d, hd⟩ := hdigit _ hc
    cases hd
  rw [readProgress, String.toList_ofList, Text.trim_of_forall hspace]
  cases hx : U64.fromStrRadix written 10 with
  | none => exact Nat.zero_le n
  | some x =>
      obtain ⟨rest, hrest⟩ := h
      -- the digits that were written are a first part of those of `n`
      have hread := U64.readDigits_of_fromStrRadix hplus hx
      have hall := Radix.readDigits_toDigits (b := 10) (by omega) (by omega) n
      rw [← hrest, Radix.readDigits, Radix.readFrom_append, ← Radix.readDigits, hread,
        Option.bind_some] at hall
      exact Radix.le_of_readFrom (by omega) hall

/-! ## Invariants of imports -/

section Invariants

variable {fromStr : String → Option SnapshotEntry} {file : List (Option String)} {db₀ : StateDb}

/--
`Q history db p`: after this history, with this database, it is safe to find a sidecar
that counts `p` lines. An invariant is kept by both commits of a run, by a sidecar that
counts less, and by effects that leave the database alone.
-/
structure ImportInvariant (fromStr : String → Option SnapshotEntry) (file : List (Option String))
    (Q : List ImportEffect → StateDb → Nat → Prop) : Prop where
  mono {history : List ImportEffect} {db : StateDb} {m p : Nat} :
    Q history db m → p ≤ m → Q history db p
  quiet {history : List ImportEffect} {db : StateDb} {p : Nat} {e : ImportEffect} :
    Q history db p → (∀ batch head, e ≠ .commit batch head) → Q (history ++ [e]) db p
  batch {history : List ImportEffect} {db : StateDb} {mark m : Nat} :
    Q history db mark → mark ≤ m →
    Q (history ++ [.commit (stretch (fileWrites fromStr file) mark m) none])
      (db.commit (importBatch (stretch (fileWrites fromStr file) mark m) none)) m
  finish {history : List ImportEffect} {db : StateDb} {skipLines mark n : Nat}
      {head : Option U64} :
    Q history db mark → head = lastHead fromStr file skipLines file.length →
    Q (history ++ [.commit (stretch (fileWrites fromStr file) mark file.length) head])
      (db.commit (importBatch (stretch (fileWrites fromStr file) mark file.length) head)) n

variable {Q : List ImportEffect → StateDb → Nat → Prop}

/-- After a full batch the sidecar is written and the progress reported. -/
theorem ImportInvariant.noted (hQ : ImportInvariant fromStr file Q) {history : List ImportEffect}
    {db : StateDb} {mark m n : Nat} (h : Q history db mark) (hm : mark ≤ m) (hn : n ≤ m)
    (text : String) :
    Q (history ++ [.commit (stretch (fileWrites fromStr file) mark m) none, .writeProgress text])
      (db.commit (importBatch (stretch (fileWrites fromStr file) mark m) none)) n := by
  have := hQ.quiet (e := .writeProgress text) (hQ.mono (hQ.batch h hm) hn) (by simp)
  rwa [List.append_assoc] at this

theorem ImportInvariant.batched (hQ : ImportInvariant fromStr file Q) {history : List ImportEffect}
    {db : StateDb} {mark m : Nat} (h : Q history db mark) (hm : mark ≤ m) (text : String)
    (p : ImportProgress) :
    Q (history ++ [.commit (stretch (fileWrites fromStr file) mark m) none, .writeProgress text,
        .report p])
      (db.commit (importBatch (stretch (fileWrites fromStr file) mark m) none)) m := by
  have := hQ.quiet (e := .report p) (hQ.noted h hm (Nat.le_refl m) text) (by simp)
  rwa [List.append_assoc] at this

/-- After the last batch the sidecar is removed. -/
theorem ImportInvariant.removed (hQ : ImportInvariant fromStr file Q)
    {history : List ImportEffect} {db : StateDb} {skipLines mark : Nat} {head : Option U64}
    (h : Q history db mark) (hhead : head = lastHead fromStr file skipLines file.length) (n : Nat) :
    Q (history ++ [.commit (stretch (fileWrites fromStr file) mark file.length) head,
        .removeProgress])
      (db.commit (importBatch (stretch (fileWrites fromStr file) mark file.length) head)) n := by
  have := hQ.quiet (e := .removeProgress) (hQ.finish (n := n) h hhead) (by simp)
  rwa [List.append_assoc] at this

theorem ImportInvariant.finished (hQ : ImportInvariant fromStr file Q)
    {history : List ImportEffect} {db : StateDb} {skipLines mark : Nat} {head : Option U64}
    (h : Q history db mark) (hhead : head = lastHead fromStr file skipLines file.length)
    (p : ImportProgress) (n : Nat) :
    Q (history ++ [.commit (stretch (fileWrites fromStr file) mark file.length) head,
        .removeProgress, .report p])
      (db.commit (importBatch (stretch (fileWrites fromStr file) mark file.length) head)) n := by
  have := hQ.quiet (e := .report p) (hQ.removed h hhead n) (by simp)
  rwa [List.append_assoc] at this

/-- **Stopped anywhere**, a run leaves a sidecar that is safe to find. -/
theorem ImportInvariant.interrupted (hQ : ImportInvariant fromStr file Q) {skipLines mark : Nat}
    {effects done history : List ImportEffect} {result : Except ImportError ImportStats}
    {s : ImportDisk} (hr : Runs fromStr file skipLines mark effects result)
    (h : Q history s.db mark) (hp : readProgress s.progress ≤ mark)
    (hi : Interrupted effects done) :
    Q (history ++ done) (s.applyAll done).db (readProgress (s.applyAll done).progress) := by
  induction hr generalizing done history s with
  | stopped =>
      rw [interrupted_nil hi, List.append_nil]
      exact hQ.mono h hp
  | @batch mark m p effects result hm hr ih =>
      rcases interrupted_batch hi with rfl | rfl | ⟨written, hw, rfl⟩ | ⟨done', rfl, hi'⟩
      · rw [List.append_nil]
        exact hQ.mono h hp
      · -- committed, and the sidecar still counts what it counted before
        exact hQ.mono (hQ.batch h hm) (Nat.le_trans hp hm)
      · -- the sidecar is torn, and counts at most `m`
        exact hQ.noted h hm (readProgress_le hw) (String.ofList written)
      · have hrest := ih (s := ⟨_, some (progressText m)⟩) (hQ.batched h hm (progressText m) p)
          (readProgress_le (List.prefix_refl _)) hi'
        rwa [List.append_assoc] at hrest
  | @finished mark p stats hhead =>
      rcases interrupted_finished hi with rfl | rfl | rfl | rfl
      · rw [List.append_nil]
        exact hQ.mono h hp
      · exact hQ.finish h hhead
      · exact hQ.removed h hhead _
      · exact hQ.finished h hhead p _

/-- **Every state imports come to** has a sidecar that is safe to find. -/
theorem ImportInvariant.imports (hQ : ImportInvariant fromStr file Q) (h₀ : Q [] db₀ 0)
    {history : List ImportEffect} {s : ImportDisk} (h : Imports fromStr file db₀ history s) :
    Q history s.db (readProgress s.progress) := by
  induction h with
  | start => exact h₀
  | interrupted _ hlines hi ih =>
      exact hQ.interrupted (importRun_runs hlines) ih (Nat.le_refl _) hi

/-- After a run that returns, any sidecar would be. -/
theorem ImportInvariant.returned (hQ : ImportInvariant fromStr file Q)
    (history : List ImportEffect) {skipLines mark : Nat} {effects : List ImportEffect}
    {result : Except ImportError ImportStats}
    {stats : ImportStats} {s : ImportDisk} (hr : Runs fromStr file skipLines mark effects result)
    (hok : result = .ok stats) (h : Q history s.db mark) (n : Nat) :
    Q (history ++ effects) (s.applyAll effects).db n := by
  induction hr generalizing history s with
  | stopped => cases hok
  | @batch mark m p effects result hm hr ih =>
      have hrest := ih _ (s := ⟨_, some (progressText m)⟩) hok (hQ.batched h hm (progressText m) p)
      rwa [List.append_assoc] at hrest
  | @finished mark p stats hhead => exact hQ.finished h hhead p n

end Invariants

/-! ## Resuming -/

namespace StateDb

/-- A database without its metadata: accounts, storage and code. -/
def state (db : StateDb) : StateDb := ⟨fun t => if t = .metadata then ∅ else db.cf t⟩

theorem cf_of_state {db db' : StateDb} (h : db.state = db'.state) {t : TableName}
    (ht : t ≠ .metadata) : db.cf t = db'.cf t := by
  have := congrArg (fun d => d.cf t) h
  simpa [state, ht] using this

theorem state_commit_head (db : StateDb) (n : U64) :
    (db.commit [.setHeadBlock n]).state = db.state := by
  refine congrArg StateDb.mk (funext fun t => ?_)
  -- the state is without the metadata table, and the head is in no other
  by_cases ht : t = .metadata
  · rw [if_pos ht, if_pos ht]
  · rw [if_neg ht, if_neg ht]
    simp [commit, Tables.run, Tables.step, Write.op, Write.key, Key.table, ht]

theorem state_commit {b : WriteBatch} (hb : ∀ w ∈ b, w.key ≠ .headBlock) (db : StateDb) :
    (db.commit b).state = db.state.commit b := by
  induction b generalizing db with
  | nil => rfl
  | cons w b ih =>
      have hstep : (db.commit [w]).state = db.state.commit [w] := by
        have hw : w.key.table ≠ .metadata := by
          have := hb w List.mem_cons_self
          cases w <;> simp_all [Write.key, Key.table]
        refine congrArg StateDb.mk (Tables.ext_getElem? fun t k => ?_)
        rw [List.map_singleton, Tables.run, List.foldl_cons, List.foldl_nil, Tables.step_getElem?]
        by_cases ht : t = .metadata
        · have hne : ¬ (w.op.table = t ∧ w.op.key = k) := fun h => hw (h.1.trans ht)
          simp only [state, if_pos ht, if_neg hne]
        · simp only [state, if_neg ht]
          exact Tables.step_getElem? ..
      rw [show w :: b = [w] ++ b from rfl, commit_append, commit_append,
        ih (fun w' hw' => hb w' (List.mem_cons_of_mem w hw')), hstep]

end StateDb

/-- Committing as the replay of a log. -/
def commitReplay : Resume.Replay StateDb Write where
  run := StateDb.commit
  append := StateDb.commit_append
  absorb := fun db _ _ h => StateDb.commit_absorb db fun w hw => ⟨w, h hw, rfl⟩

section Resumed

variable {fromStr : String → Option SnapshotEntry} {file : List (Option String)} {db₀ : StateDb}

/-- The state can be gone on with from any mark up to `p`. -/
def SafeTo (fromStr : String → Option SnapshotEntry) (file : List (Option String))
    (db₀ db : StateDb) (p : Nat) : Prop :=
  commitReplay.Safe (fileWrites fromStr file) db₀.state db.state p

theorem key_of_mem_fileWrites {e : Nat × Write} (h : e ∈ fileWrites fromStr file) :
    e.2.key ≠ .headBlock := by
  obtain ⟨l, _, hl⟩ := exists_of_mem h
  obtain ⟨entry, _, hw⟩ := Option.bind_eq_some_iff.mp hl
  cases entry <;> simp only [SnapshotEntry.write?, Option.some.injEq, reduceCtorEq] at hw <;>
    simp [← hw, Write.key]

theorem state_commit_stretch (db : StateDb) (mark m : Nat) (head : Option U64) :
    (db.commit (importBatch (stretch (fileWrites fromStr file) mark m) head)).state
      = db.state.commit (between (fileWrites fromStr file) mark m) := by
  have hkeys : ∀ w ∈ between (fileWrites fromStr file) mark m, w.key ≠ .headBlock := by
    intro w hw
    obtain ⟨e, he, rfl⟩ := List.mem_map.mp hw
    exact key_of_mem_fileWrites (List.mem_of_mem_filter he)
  rw [importBatch, StateDb.commit_append]
  cases head with
  | none => exact StateDb.state_commit hkeys db
  | some n => exact (StateDb.state_commit_head _ n).trans (StateDb.state_commit hkeys db)

/-- A stretch that is committed makes its end safe. -/
theorem SafeTo.commit {db : StateDb} {mark : Nat} (h : SafeTo fromStr file db₀ db mark) (m : Nat)
    (head : Option U64) :
    SafeTo fromStr file db₀
      (db.commit (importBatch (stretch (fileWrites fromStr file) mark m) head)) m := by
  rw [SafeTo, state_commit_stretch]
  exact Resume.Replay.Safe.commit (sorted_numbered file) h (Nat.le_refl mark)

theorem safeTo_invariant :
    ImportInvariant fromStr file fun _ db p => SafeTo fromStr file db₀ db p where
  mono h hp := Resume.Replay.Safe.mono h hp
  quiet h _ := h
  batch h _ := h.commit _ none
  finish h _ := Resume.Replay.Safe.beyond (h.commit _ _) (fun _ he => le_of_mem_numbered he) _

/-! ## A run that returns -/

/-- The writes of every entry of a file, in order. -/
def fileBatch (fromStr : String → Option SnapshotEntry) (file : List (Option String)) :
    WriteBatch :=
  file.filterMap fun l => (lineEntry fromStr l).bind SnapshotEntry.write?

theorem importSnapshot_state {history : List ImportEffect} {s : ImportDisk}
    {lines : List (Option String)} {stats : ImportStats} (h : Imports fromStr file db₀ history s)
    (hlines : IsReadout file lines) (hok : (importSnapshot fromStr lines s).2 = .ok stats) :
    (importSnapshot fromStr lines s).1.db.state
      = (db₀.commit (fileBatch fromStr file)).state := by
  have hkeys : ∀ w ∈ fileBatch fromStr file, w.key ≠ .headBlock := by
    intro w hw
    rw [fileBatch, ← after_numbered] at hw
    obtain ⟨e, he, rfl⟩ := List.mem_map.mp hw
    exact key_of_mem_fileWrites (List.mem_of_mem_filter he)
  have hsafe : SafeTo fromStr file db₀ s.db (readProgress s.progress) :=
    safeTo_invariant.imports Resume.Replay.safe_start h
  have hend : SafeTo fromStr file db₀ (importSnapshot fromStr lines s).1.db file.length :=
    safeTo_invariant.returned history (importRun_runs hlines) hok hsafe file.length
  calc (importSnapshot fromStr lines s).1.db.state
      = db₀.state.commit (after (fileWrites fromStr file) 0) :=
        Resume.Replay.Safe.done hend (fun e he => le_of_mem_numbered he) rfl
    _ = db₀.state.commit (fileBatch fromStr file) := by
        rw [fileWrites, after_numbered, fileBatch]
    _ = (db₀.commit (fileBatch fromStr file)).state := (StateDb.state_commit hkeys db₀).symm

/--
**Resumed imports lose and duplicate nothing.** However often imports of a file were
interrupted before, one that returns leaves accounts, storage and code as if every
entry of the file had been applied once and in order.
-/
theorem importSnapshot_resumed {history : List ImportEffect} {s : ImportDisk}
    {lines : List (Option String)} {stats : ImportStats} (h : Imports fromStr file db₀ history s)
    (hlines : IsReadout file lines) (hok : (importSnapshot fromStr lines s).2 = .ok stats)
    (t : TableName) (ht : t ≠ .metadata) :
    (importSnapshot fromStr lines s).1.db.cf t
      = (db₀.commit (fileBatch fromStr file)).cf t :=
  StateDb.cf_of_state (importSnapshot_state h hlines hok) ht

end Resumed

/-- Committed, stopped before the sidecar was removed, and run again. -/
theorem importSnapshot_resumed_account :
    let file := [some "", some (SnapshotEntry.account 0xC0FFEE 7 1000 0).line,
      some (SnapshotEntry.metadata 65).line]
    let fromStr := SnapshotEntry.fromStr FlatJson.parse
    let s := (⟨.empty, none⟩ : ImportDisk).applyAll ((importRun fromStr file none).1.take 1)
    (importSnapshot fromStr file s).1.db.cf .accounts
      = (StateDb.empty.commit (fileBatch fromStr file)).cf .accounts := by
  intro file fromStr s
  have hread : ∀ e : SnapshotEntry, fromStr e.line = some e :=
    SnapshotEntry.fromStr_line FlatJson.parse_render
  have hblank : isBlank "" = true := by decide
  have hlines : IsReadout file file := .inl rfl
  have hstopped : Imports fromStr file .empty ([] ++ (importRun fromStr file none).1.take 1) s :=
    .interrupted .start hlines (.after (List.take_append_drop 1 _).symm)
  have hok : (importSnapshot fromStr file s).2 = .ok ⟨1, 0, 0, some 65⟩ := by
    simp [importSnapshot, importRun, importLines, file, s, hread, hblank, SnapshotEntry.isBlank_line,
      ImportState.read, ImportState.push, ImportStats.add, readProgress, BATCH_SIZE,
      ImportDisk.applyAll, ImportDisk.apply]
  exact importSnapshot_resumed hstopped hlines hok .accounts (by decide)

end EvmState
