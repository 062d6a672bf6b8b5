import EvmState.Snapshot.Import

/-!
# What an import reports

A report is made whenever a batch is full, and once more at the end
(`mem_reportLines`). It shows how many lines were read in this run, blank ones
included, and not how many entries of the file are in the database. The two are the
same number exactly if the lines read in this run have as many blank ones among them as
the lines that were skipped have entries; and where the sidecar counts more lines than
there are, the difference is below zero.
-/

namespace EvmState

/-! ## Counting lines -/

/-- A line that holds an entry: one that is not blank. -/
def isEntryLine : Option String → Bool
  | some line => !isBlank line
  | none => false

def isBlankLine : Option String → Bool
  | some line => isBlank line
  | none => false

def entryCount (lines : List (Option String)) : Nat := lines.countP isEntryLine

def blankCount (lines : List (Option String)) : Nat := lines.countP isBlankLine

theorem entryCount_append (xs ys : List (Option String)) :
    entryCount (xs ++ ys) = entryCount xs + entryCount ys := List.countP_append

/-- Where every line can be read, each is an entry or blank. -/
theorem entryCount_add_blankCount {lines : List (Option String)} (h : none ∉ lines) :
    entryCount lines + blankCount lines = lines.length := by
  induction lines with
  | nil => rfl
  | cons x lines ih =>
      rw [List.mem_cons, not_or] at h
      have hrest := ih h.2
      cases x with
      | none => exact absurd rfl h.1
      | some line =>
          rw [entryCount, blankCount, List.countP_cons, List.countP_cons, List.length_cons]
          rw [entryCount, blankCount] at hrest
          -- a line is an entry or blank
          cases hb : isBlank line
          · simp only [isEntryLine, isBlankLine, hb]
            simp only [Bool.not_false, if_true, Bool.false_eq_true, if_false]
            omega
          · simp only [isEntryLine, isBlankLine, hb]
            simp only [Bool.not_true, if_true, Bool.false_eq_true, if_false]
            omega

theorem entryCount_take_mono (lines : List (Option String)) {m n : Nat} (h : m ≤ n) :
    entryCount (lines.take m) ≤ entryCount (lines.take n) :=
  (List.take_sublist_take_left h).countP_le

/-! ## Where the reports are -/

/-- The line behind `i` others does not end the run: it is skipped, blank, or an entry. -/
def readsLine (fromStr : String → Option SnapshotEntry) (skipLines i : Nat) :
    Option String → Bool
  | some line => decide (i < skipLines) || isBlank line || (fromStr line).isSome
  | none => false

/-- The first `n` lines are there and are read. -/
def ReadsTo (fromStr : String → Option SnapshotEntry) (skipLines : Nat)
    (lines : List (Option String)) (n : Nat) : Prop :=
  ∀ i < n, ∃ x, lines[i]? = some x ∧ readsLine fromStr skipLines i x = true

/-- The `n`-th line is an entry that fills a batch. -/
def FillsBatch (skipLines : Nat) (lines : List (Option String)) (n : Nat) : Prop :=
  skipLines < n ∧ (∃ x, lines[n - 1]? = some x ∧ isEntryLine x = true)
    ∧ entryCount ((lines.take n).drop skipLines) % BATCH_SIZE = 0

/-- An import that skips these lines makes a report behind the `n`-th line. -/
def ReportsAt (fromStr : String → Option SnapshotEntry) (skipLines : Nat)
    (lines : List (Option String)) (n : Nat) : Prop :=
  ReadsTo fromStr skipLines lines n ∧ (n = lines.length ∨ FillsBatch skipLines lines n)

/-- The reports of a run. -/
def reports (effects : List ImportEffect) : List ImportProgress :=
  effects.filterMap fun
    | .report p => some p
    | _ => none

/-- How many lines had been read at each report of the loop. -/
def reportLines (fromStr : String → Option SnapshotEntry) (skipLines : Nat) :
    List (Option String) → Nat → Nat → List Nat
  | [], lineNum, _ => [lineNum]
  | none :: _, _, _ => []
  | some line :: lines, lineNum, inBatch =>
      if lineNum + 1 ≤ skipLines then reportLines fromStr skipLines lines (lineNum + 1) inBatch
      else if isBlank line then reportLines fromStr skipLines lines (lineNum + 1) inBatch
      else if (fromStr line).isNone then []
      else if BATCH_SIZE ≤ inBatch + 1 then
        (lineNum + 1) :: reportLines fromStr skipLines lines (lineNum + 1) 0
      else reportLines fromStr skipLines lines (lineNum + 1) (inBatch + 1)

section Reports

variable {fromStr : String → Option SnapshotEntry} {skipLines : Nat}

/-- The reports of the loop, in order. -/
theorem reports_importLines (lines : List (Option String)) (st : ImportState) :
    (reports (importLines fromStr skipLines lines st).1).map ImportProgress.entriesImported
      = (reportLines fromStr skipLines lines st.lineNum st.entriesInBatch).map fun n =>
          BitVec.ofNat 64 n - BitVec.ofNat 64 skipLines := by
  induction lines generalizing st with
  | nil => rfl
  | cons x lines ih =>
      cases x with
      | none => rfl
      | some line =>
          have hnum : (st.read line).lineNum = st.lineNum + 1 := rfl
          rw [importLines, reportLines, hnum]
          by_cases hskip : st.lineNum + 1 ≤ skipLines
          · rw [if_pos hskip, if_pos hskip]
            exact ih _
          · rw [if_neg hskip, if_neg hskip]
            by_cases hblank : isBlank line = true
            · rw [if_pos hblank, if_pos hblank]
              exact ih _
            · rw [if_neg hblank, if_neg hblank]
              cases hparse : fromStr line with
              | none => rfl
              | some entry =>
                  have hbatch : ((st.read line).push entry).entriesInBatch
                      = st.entriesInBatch + 1 := rfl
                  rw [if_neg (by simp)]
                  dsimp only
                  rw [hbatch]
                  -- a full batch is reported, with the lines read so far
                  by_cases hfull : BATCH_SIZE ≤ st.entriesInBatch + 1
                  · rw [if_pos hfull, if_pos hfull, List.map_cons]
                    exact congrArg (_ :: ·) (ih _)
                  · rw [if_neg hfull, if_neg hfull]
                    exact ih _

theorem ReadsTo.le_length {lines : List (Option String)} {n : Nat}
    (h : ReadsTo fromStr skipLines lines n) : n ≤ lines.length := by
  rcases Nat.eq_zero_or_pos n with rfl | hpos
  · exact Nat.zero_le _
  · obtain ⟨x, hx, _⟩ := h (n - 1) (by omega)
    have := (List.getElem?_eq_some_iff.mp hx).1
    omega

theorem ReadsTo.notMem {lines : List (Option String)} {n : Nat}
    (h : ReadsTo fromStr skipLines lines n) : none ∉ lines.take n := by
  intro hmem
  obtain ⟨i, hi⟩ := List.mem_iff_getElem?.mp hmem
  rw [List.getElem?_take] at hi
  split at hi
  · rename_i hlt
    obtain ⟨x, hx, hreads⟩ := h i hlt
    rw [hi] at hx
    obtain rfl := Option.some.inj hx
    cases hreads
  · cases hi

variable {pre post : List (Option String)} {x : Option String}

/-- One more line is read, or the run ends with it. -/
theorem readsTo_succ (h : ReadsTo fromStr skipLines (pre ++ x :: post) pre.length) :
    ReadsTo fromStr skipLines (pre ++ x :: post) (pre.length + 1)
      ↔ readsLine fromStr skipLines pre.length x = true := by
  have hx : (pre ++ x :: post)[pre.length]? = some x := by simp
  constructor
  · intro h'
    obtain ⟨y, hy, hreads⟩ := h' pre.length (Nat.lt_succ_self _)
    rw [hx] at hy
    obtain rfl := Option.some.inj hy
    exact hreads
  · intro hreads i hi
    -- the new line is the last one, the others were read before
    by_cases hlast : i = pre.length
    · subst hlast
      exact ⟨x, hx, hreads⟩
    · exact h i (by omega)

theorem not_readsTo_of_not_reads (hreads : readsLine fromStr skipLines pre.length x = false)
    {n : Nat} (hn : pre.length < n) : ¬ ReadsTo fromStr skipLines (pre ++ x :: post) n := by
  intro h
  obtain ⟨y, hy, hy'⟩ := h pre.length hn
  have hx : (pre ++ x :: post)[pre.length]? = some x := by simp
  rw [hx] at hy
  obtain rfl := Option.some.inj hy
  rw [hreads] at hy'
  cases hy'

/-- The entries above the skipped lines, one line further on. -/
theorem entryCount_drop_concat (skipLines : Nat) (pre : List (Option String)) (x : Option String) :
    entryCount ((pre ++ [x]).drop skipLines)
      = entryCount (pre.drop skipLines)
        + if skipLines ≤ pre.length ∧ isEntryLine x = true then 1 else 0 := by
  by_cases hskip : skipLines ≤ pre.length
  · rw [List.drop_append_of_le_length hskip, entryCount_append]
    cases hx : isEntryLine x <;> simp [hskip, hx, entryCount]
  · have hone : (pre ++ [x]).drop skipLines = [] := by
      refine List.drop_eq_nil_of_le ?_
      simp
      omega
    have hnone : pre.drop skipLines = [] := List.drop_eq_nil_of_le (by omega)
    simp [hone, hnone, hskip]

theorem fillsBatch_succ :
    FillsBatch skipLines (pre ++ x :: post) (pre.length + 1)
      ↔ skipLines ≤ pre.length ∧ isEntryLine x = true
        ∧ (entryCount (pre.drop skipLines) + 1) % BATCH_SIZE = 0 := by
  have hx : (pre ++ x :: post)[pre.length + 1 - 1]? = some x := by simp
  -- the lines up to here are the old ones and this one
  have htake : (pre ++ x :: post).take (pre.length + 1) = pre ++ [x] := by
    rw [List.append_cons]
    exact List.take_left' (by simp)
  rw [FillsBatch, htake, entryCount_drop_concat, hx]
  constructor
  · intro h
    obtain ⟨hskip, ⟨y, hy, hentry⟩, hcount⟩ := h
    obtain rfl := Option.some.inj hy
    have hle : skipLines ≤ pre.length := by omega
    rw [if_pos ⟨hle, hentry⟩] at hcount
    exact ⟨hle, hentry, hcount⟩
  · intro h
    obtain ⟨hle, hentry, hcount⟩ := h
    rw [if_pos ⟨hle, hentry⟩]
    exact ⟨by omega, ⟨x, rfl, hentry⟩, hcount⟩

/-- The reports from a line on: one behind it if it fills a batch, and those further on. -/
theorem reportsAt_succ (h : ReadsTo fromStr skipLines (pre ++ x :: post) (pre.length + 1))
    (n : Nat) :
    (ReportsAt fromStr skipLines (pre ++ x :: post) n
        ∧ (pre.length < n ∨ n = (pre ++ x :: post).length))
      ↔ (n = pre.length + 1 ∧ FillsBatch skipLines (pre ++ x :: post) (pre.length + 1))
        ∨ (ReportsAt fromStr skipLines (pre ++ x :: post) n
          ∧ (pre.length + 1 < n ∨ n = (pre ++ x :: post).length)) := by
  constructor
  · intro hx
    obtain ⟨hreport, hn⟩ := hx
    by_cases hnext : n = pre.length + 1
    · -- a report on this line is for a full batch or for the end of the file
      rcases hreport.2 with hend | hfills
      · exact .inr ⟨hreport, .inr hend⟩
      · exact .inl ⟨hnext, hnext ▸ hfills⟩
    · exact .inr ⟨hreport, hn.imp_left fun hlt => by omega⟩
  · intro hx
    rcases hx with ⟨rfl, hfills⟩ | ⟨hreport, hn⟩
    · exact ⟨⟨h, .inr hfills⟩, .inl (by omega)⟩
    · exact ⟨hreport, hn.imp_left fun hlt => by omega⟩

/-- A line that ends the run is the last that anything is said about. -/
theorem not_reportsAt (hreads : readsLine fromStr skipLines pre.length x = false) {n : Nat}
    (hn : pre.length < n ∨ n = (pre ++ x :: post).length) :
    ¬ ReportsAt fromStr skipLines (pre ++ x :: post) n := by
  have hlt : pre.length < n := by
    rcases hn with hlt | heq
    · exact hlt
    · rw [heq, List.length_append, List.length_cons]
      omega
  intro h
  exact not_readsTo_of_not_reads hreads hlt h.1

/-- A line that ends the run ends the reports. -/
theorem reportLines_stops {lineNum m : Nat}
    (hreads : readsLine fromStr skipLines lineNum x = false) :
    reportLines fromStr skipLines (x :: post) lineNum m = [] := by
  cases x with
  | none => rfl
  | some line =>
      simp only [readsLine, Bool.or_eq_false_iff, decide_eq_false_iff_not] at hreads
      obtain ⟨⟨hskip, hblank⟩, hparse⟩ := hreads
      rw [reportLines, if_neg (by omega), hblank, if_neg (by simp)]
      rw [if_pos (by simpa using hparse)]

/-- Any other line adds a report if its entry makes the batch full. -/
theorem reportLines_reads {lineNum m : Nat} (hm : m < BATCH_SIZE)
    (hreads : readsLine fromStr skipLines lineNum x = true) :
    reportLines fromStr skipLines (x :: post) lineNum m
      = (if (skipLines ≤ lineNum ∧ isEntryLine x = true) ∧ m + 1 = BATCH_SIZE then [lineNum + 1]
          else [])
        ++ reportLines fromStr skipLines post (lineNum + 1)
          ((m + if skipLines ≤ lineNum ∧ isEntryLine x = true then 1 else 0) % BATCH_SIZE) := by
  cases x with
  | none => cases hreads
  | some line =>
      have hentry : isEntryLine (some line) = !isBlank line := rfl
      rw [reportLines, hentry]
      -- a skipped line fills nothing
      by_cases hskip : lineNum + 1 ≤ skipLines
      · have hno : ¬ skipLines ≤ lineNum := by omega
        simp [hskip, hno, Nat.mod_eq_of_lt hm]
      · have hle : skipLines ≤ lineNum := by omega
        rw [if_neg hskip]
        cases hblank : isBlank line with
        | true => simp [Nat.mod_eq_of_lt hm]
        | false =>
            -- the line is read, so it is an entry
            have hparse : (fromStr line).isNone = false := by
              simp only [readsLine, hblank, Nat.not_lt.mpr hle, decide_false, Bool.false_or] at hreads
              simpa using hreads
            rw [if_neg (by simp), hparse, if_neg (by simp)]
            by_cases hfull : BATCH_SIZE ≤ m + 1
            · have hlast : m + 1 = BATCH_SIZE := by omega
              simp [hle, hlast]
            · have hroom : m + 1 < BATCH_SIZE := by omega
              have hne : m + 1 ≠ BATCH_SIZE := by omega
              simp [hle, hne, hfull, Nat.mod_eq_of_lt hroom]

/-- **Reports are made where a batch is full, and at the end.** -/
theorem mem_reportLines (hread : ReadsTo fromStr skipLines (pre ++ post) pre.length) {n : Nat} :
    n ∈ reportLines fromStr skipLines post pre.length
        (entryCount (pre.drop skipLines) % BATCH_SIZE)
      ↔ ReportsAt fromStr skipLines (pre ++ post) n
        ∧ (pre.length < n ∨ n = (pre ++ post).length) := by
  -- on what is left of the file; `pre` is behind the loop
  induction post generalizing pre with
  | nil =>
      rw [List.append_nil] at hread ⊢
      rw [reportLines, List.mem_singleton]
      constructor
      · intro h
        subst h
        exact ⟨⟨hread, .inl rfl⟩, .inr rfl⟩
      · intro h
        have := h.1.1.le_length
        omega
  | cons x post ih =>
      cases hreads : readsLine fromStr skipLines pre.length x with
      | false =>
          rw [reportLines_stops hreads]
          refine iff_of_false (by simp) ?_
          intro h
          exact not_reportsAt hreads h.2 h.1
      | true =>
          have hnext := (readsTo_succ hread).mpr hreads
          have hlen : (pre ++ [x]).length = pre.length + 1 := by simp
          have hfile : pre ++ x :: post = (pre ++ [x]) ++ post := List.append_cons ..
          have hnext' : ReadsTo fromStr skipLines ((pre ++ [x]) ++ post) (pre ++ [x]).length := by
            rw [← hfile, hlen]
            exact hnext
          have hrest := ih hnext'
          rw [← hfile, hlen, entryCount_drop_concat] at hrest
          have hmod : entryCount (pre.drop skipLines) % BATCH_SIZE < BATCH_SIZE :=
            Nat.mod_lt _ (by decide)
          have hfull : entryCount (pre.drop skipLines) % BATCH_SIZE + 1 = BATCH_SIZE
              ↔ (entryCount (pre.drop skipLines) + 1) % BATCH_SIZE = 0 := by
            rw [BATCH_SIZE] at *
            omega
          rw [reportLines_reads hmod hreads, Nat.mod_add_mod, reportsAt_succ hnext, ← hrest,
            fillsBatch_succ, List.mem_append, ← hfull, ← and_assoc (a := skipLines ≤ pre.length)]
          refine or_congr ?_ Iff.rfl
          split
          · rename_i hfills
            rw [List.mem_singleton]
            exact ⟨fun h => ⟨h, hfills⟩, fun h => h.1⟩
          · rename_i hfills
            exact iff_of_false (by simp) fun h => hfills h.2

theorem le_of_mem_reportLines {lines : List (Option String)} {lineNum inBatch n : Nat}
    (h : n ∈ reportLines fromStr skipLines lines lineNum inBatch) : lineNum ≤ n := by
  induction lines generalizing lineNum inBatch with
  | nil => exact Nat.le_of_eq (List.mem_singleton.mp h).symm
  | cons x lines ih =>
      cases x with
      | none => cases h
      | some line =>
          -- whatever the line is, later reports are on later lines
          rw [reportLines] at h
          split at h
          · exact Nat.le_of_succ_le (ih h)
          · split at h
            · exact Nat.le_of_succ_le (ih h)
            · split at h
              · cases h
              · split at h
                · rcases List.mem_cons.mp h with rfl | h
                  · exact Nat.le_succ _
                  · exact Nat.le_of_succ_le (ih h)
                · exact Nat.le_of_succ_le (ih h)

/-- Reports follow one another along the file. -/
theorem pairwise_reportLines (lines : List (Option String)) (lineNum inBatch : Nat) :
    (reportLines fromStr skipLines lines lineNum inBatch).Pairwise (· ≤ ·) := by
  induction lines generalizing lineNum inBatch with
  | nil => exact List.pairwise_singleton ..
  | cons x lines ih =>
      cases x with
      | none => exact .nil
      | some line =>
          rw [reportLines]
          split
          · exact ih _ _
          · split
            · exact ih _ _
            · split
              · exact .nil
              · split
                · exact .cons (fun n hn => le_of_mem_reportLines hn) (ih _ _)
                · exact ih _ _

end Reports

/-! ## When the reports are honest -/

/-- The lines read when each report of a run is made. -/
def runLines (fromStr : String → Option SnapshotEntry) (lines : List (Option String))
    (sidecar : Option String) : List Nat := reportLines fromStr (readProgress sidecar) lines 0 0

/-- The reports of a run count the entries of the file. -/
structure ProgressHonest (fromStr : String → Option SnapshotEntry) (lines : List (Option String))
    (sidecar : Option String) : Prop where
  /-- No difference is below zero. -/
  noUnderflow : ∀ n ∈ runLines fromStr lines sidecar, readProgress sidecar ≤ n
  /-- A report shows the entries up to its line, those of resumed runs included. -/
  counts : List.Forall₂ (fun p n => p.entriesImported.toNat = entryCount (lines.take n))
    (reports (importRun fromStr lines sidecar).1) (runLines fromStr lines sidecar)
  ascending : ((reports (importRun fromStr lines sidecar).1).map fun p =>
    p.entriesImported.toNat).Pairwise (· ≤ ·)
  bounded : ∀ p ∈ reports (importRun fromStr lines sidecar).1,
    p.entriesImported.toNat ≤ entryCount lines

/--
The blank lines behind the skipped ones, up to the `n`-th line, make up for the entries
among those. The counters are 64 bits wide.
-/
def CountsAgree (skipLines : Nat) (lines : List (Option String)) (n : Nat) : Prop :=
  skipLines ≤ n
    ∧ blankCount ((lines.take n).drop skipLines) % 2 ^ 64 = entryCount (lines.take skipLines)
    ∧ entryCount (lines.take n) < 2 ^ 64

theorem readProgress_lt (sidecar : Option String) : readProgress sidecar < 2 ^ 64 := by
  unfold readProgress
  split
  · rename_i text
    cases U64.fromStrRadix (Text.trim text.toList) 10 with
    | none => exact Nat.two_pow_pos 64
    | some x => exact x.isLt
  · exact Nat.two_pow_pos 64

theorem entryCount_le_length (lines : List (Option String)) : entryCount lines ≤ lines.length :=
  List.countP_le_length

section Honest

variable {fromStr : String → Option SnapshotEntry} {lines : List (Option String)}
  {sidecar : Option String}

theorem mem_runLines {n : Nat} :
    n ∈ runLines fromStr lines sidecar ↔ ReportsAt fromStr (readProgress sidecar) lines n := by
  have hstart : ReadsTo fromStr (readProgress sidecar) ([] ++ lines) ([] : List (Option String)).length :=
    fun i hi => absurd hi (Nat.not_lt_zero i)
  have hmem : n ∈ reportLines fromStr (readProgress sidecar) lines 0 _ ↔ _ := mem_reportLines hstart
  have hnil : entryCount (([] : List (Option String)).drop (readProgress sidecar)) % BATCH_SIZE = 0 := by
    simp [entryCount]
  rw [hnil] at hmem
  refine hmem.trans (and_iff_left_of_imp ?_)
  intro h
  rcases h.2 with hend | hfills
  · exact .inr hend
  · exact .inl (Nat.zero_lt_of_lt hfills.1)

/-- What a report shows is the number of entries exactly if the counts agree. -/
theorem shown_eq_iff {skipLines n : Nat} (hskip : skipLines < 2 ^ 64) (hle : skipLines ≤ n)
    (h : ReadsTo fromStr skipLines lines n) :
    (BitVec.ofNat 64 n - BitVec.ofNat 64 skipLines).toNat = entryCount (lines.take n)
      ↔ CountsAgree skipLines lines n := by
  have hlen : (lines.take n).length = n := List.length_take_of_le h.le_length
  have hsplit : entryCount (lines.take n)
      = entryCount (lines.take skipLines) + entryCount ((lines.take n).drop skipLines) := by
    have htake : (lines.take n).take skipLines = lines.take skipLines := by
      rw [List.take_take, Nat.min_eq_left hle]
    rw [← htake, ← entryCount_append, List.take_append_drop]
  -- behind the skipped lines each line is an entry or blank
  have hread : entryCount ((lines.take n).drop skipLines)
      + blankCount ((lines.take n).drop skipLines) = n - skipLines := by
    rw [entryCount_add_blankCount fun hmem => h.notMem (List.mem_of_mem_drop hmem),
      List.length_drop, hlen]
  have hfront : entryCount (lines.take skipLines) ≤ skipLines :=
    Nat.le_trans (entryCount_le_length _) (List.length_take_le _ _)
  -- the subtraction is one of 64 bits
  have hshown : (BitVec.ofNat 64 n - BitVec.ofNat 64 skipLines).toNat = (n - skipLines) % 2 ^ 64 := by
    rw [BitVec.toNat_sub, BitVec.toNat_ofNat, BitVec.toNat_ofNat]
    omega
  rw [hshown, CountsAgree, hsplit, ← hread]
  omega

/-- The numbers of a run, one for each report. -/
theorem reports_importRun :
    (reports (importRun fromStr lines sidecar).1).map ImportProgress.entriesImported
      = (runLines fromStr lines sidecar).map fun n =>
          BitVec.ofNat 64 n - BitVec.ofNat 64 (readProgress sidecar) :=
  reports_importLines lines {}

theorem counts_iff :
    List.Forall₂ (fun p n => p.entriesImported.toNat = entryCount (lines.take n))
        (reports (importRun fromStr lines sidecar).1) (runLines fromStr lines sidecar)
      ↔ ∀ n ∈ runLines fromStr lines sidecar,
          (BitVec.ofNat 64 n - BitVec.ofNat 64 (readProgress sidecar)).toNat
            = entryCount (lines.take n) := by
  have hmap := List.forall₂_map_left_iff
    (R := fun (v : U64) (n : Nat) => v.toNat = entryCount (lines.take n))
    (f := ImportProgress.entriesImported) (l := reports (importRun fromStr lines sidecar).1)
    (u := runLines fromStr lines sidecar)
  rw [← hmap, reports_importRun, List.forall₂_map_left_iff, List.forall₂_same]

/-- Honest counts neither go down nor beyond the entries of the file. -/
theorem honest_of_counts
    (hunder : ∀ n ∈ runLines fromStr lines sidecar, readProgress sidecar ≤ n)
    (hcounts : List.Forall₂ (fun p n => p.entriesImported.toNat = entryCount (lines.take n))
      (reports (importRun fromStr lines sidecar).1) (runLines fromStr lines sidecar)) :
    ProgressHonest fromStr lines sidecar := by
  have heq : (reports (importRun fromStr lines sidecar).1).map (fun p => p.entriesImported.toNat)
      = (runLines fromStr lines sidecar).map fun n => entryCount (lines.take n) := by
    refine List.forall₂_eq_eq_eq ▸ ?_
    rw [List.forall₂_map_left_iff, List.forall₂_map_right_iff]
    exact hcounts
  refine ⟨hunder, hcounts, ?_, ?_⟩
  · -- what is read further contains what was read before
    rw [heq, List.pairwise_map]
    exact (pairwise_reportLines lines 0 0).imp fun hmn => entryCount_take_mono lines hmn
  · intro p hp
    have hmem := List.mem_map_of_mem (f := fun p : ImportProgress => p.entriesImported.toNat) hp
    rw [heq, List.mem_map] at hmem
    obtain ⟨n, _, hn⟩ := hmem
    rw [← hn]
    exact (List.take_sublist n lines).countP_le

/--
**When import progress is honest**: if at every report, made where a batch is full and
at the end, the sidecar counts no more lines than were read, and the lines behind the
skipped ones have as many blank ones among them as the skipped ones have entries.
-/
theorem progressHonest_iff (fromStr : String → Option SnapshotEntry)
    (lines : List (Option String)) (sidecar : Option String) :
    ProgressHonest fromStr lines sidecar
      ↔ ∀ n, ReportsAt fromStr (readProgress sidecar) lines n →
          CountsAgree (readProgress sidecar) lines n := by
  constructor
  · intro h n hn
    have hmem := mem_runLines.mpr hn
    exact (shown_eq_iff (readProgress_lt sidecar) (h.noUnderflow n hmem) hn.1).mp
      (counts_iff.mp h.counts n hmem)
  · intro h
    refine honest_of_counts ?_ (counts_iff.mpr ?_)
    · intro n hn
      exact (h n (mem_runLines.mp hn)).1
    · intro n hn
      have hreport := mem_runLines.mp hn
      have hagree := h n hreport
      exact (shown_eq_iff (readProgress_lt sidecar) hagree.1 hreport.1).mpr hagree

end Honest

/--
**Two dishonest imports** of a file that is one blank line: the first counts it as an
entry, and the second, which finds the sidecar of a longer file, counts below zero.
-/
theorem progress_dishonest :
    (reports (importRun (fun _ => none) [some ""] none).1).map ImportProgress.entriesImported = [1]
      ∧ entryCount [some ""] = 0
      ∧ ¬ ProgressHonest (fun _ => none) [some ""] none
      ∧ readProgress (some "7") = 7 ∧ runLines (fun _ => none) [some ""] (some "7") = [1]
      ∧ ¬ ProgressHonest (fun _ => none) [some ""] (some "7") := by
  have hfresh : (reports (importRun (fun _ => none) [some ""] none).1).map
      ImportProgress.entriesImported = [1] := by decide
  have hstale : runLines (fun _ => none) [some ""] (some "7") = [1] := by decide
  have hseven : readProgress (some "7") = 7 := by decide
  have hnone : entryCount [some ""] = 0 := by decide
  refine ⟨hfresh, hnone, ?_, hseven, hstale, ?_⟩
  · intro h
    -- the blank line is reported as an entry, which is more than there are
    obtain ⟨p, hp, hone⟩ := List.mem_map.mp (hfresh ▸ List.mem_singleton_self (1 : U64))
    have hle := h.bounded p hp
    rw [hone, hnone] at hle
    exact absurd hle (by decide)
  · intro h
    have hle := h.noUnderflow 1 (hstale ▸ List.mem_singleton_self 1)
    rw [hseven] at hle
    omega

end EvmState
