import EvmState.Proof.ImportHead

/-!
# Import undoes export

The iterators list exactly what a well-formed database holds, so the export writes a
line for every key, and those lines are read back as the entries they were written
for. Importing them into an empty database commits one write per key, in batches that
make no difference, and the last commit sets the head.
-/

namespace EvmState

/-! ## What the export writes -/

/-- The entries of a database, in the order they are exported. -/
def exportEntries (db : StateDb) (accounts : List (Address × AccountInfo)) (head : Option U64) :
    List SnapshotEntry :=
  accounts.map (fun e => .account e.1 e.2.nonce e.2.balance e.2.codeHash)
    ++ db.iterStorage.map (fun e => .storage e.1 e.2.1 e.2.2)
    ++ db.iterCode.map (fun e => .code e.1 e.2)
    ++ head.toList.map .metadata

/-- Steps that each add a line add one line each. -/
theorem lines_foldl {α : Type} (write : ExportState → α → ExportState) (line : α → String)
    (h : ∀ st e, (write st e).lines = st.lines ++ [line e]) (l : List α) (st : ExportState) :
    (l.foldl write st).lines = st.lines ++ l.map line := by
  induction l generalizing st with
  | nil => simp
  | cons e l ih => rw [List.foldl_cons, ih, h, List.append_assoc, List.map_cons]; rfl

theorem lines_report (st : ExportState) : st.report.lines = st.lines := by
  unfold ExportState.report
  split <;> rfl

/-- **Every key has its line.** -/
theorem exportSnapshot_lines {db : StateDb} {accounts : List (Address × AccountInfo)}
    {head : Option U64} (hacc : db.iterAccounts = .ok accounts)
    (hhead : db.getHeadBlock = .ok head) :
    ∃ st, exportSnapshot db = .ok st
      ∧ st.lines = (exportEntries db accounts head).map SnapshotEntry.line := by
  unfold exportSnapshot
  rw [hacc, hhead]
  refine ⟨_, rfl, ?_⟩
  have h₁ := lines_foldl ExportState.writeAccount (fun e => accountLine e.1 e.2)
    (fun st e => lines_report _)
  have h₂ := lines_foldl ExportState.writeStorage (fun e => storageLine e.1 e.2.1 e.2.2)
    (fun st e => lines_report _)
  have h₃ := lines_foldl ExportState.writeCode (fun e => codeLine e.1 e.2) (fun st e => rfl)
  -- the four parts add their lines one after another
  have h₄ : ∀ st : ExportState, (st.writeHead head).lines
      = st.lines ++ (head.toList.map .metadata).map SnapshotEntry.line := by
    intro st
    cases head <;> simp [ExportState.writeHead, SnapshotEntry.line]
  simp only [h₄, h₃, h₂, h₁, exportEntries, List.map_append, List.map_map]
  rfl

/-- The writes of the exported entries say what the database holds. -/
theorem getCf_of_exported {db : StateDb} {accounts : List (Address × AccountInfo)}
    {head : Option U64}
    (hacc : ∀ a i, (a, i) ∈ accounts ↔ db.getCf (.account a) = some i.toBytes)
    {w : Write} (hw : w ∈ (exportEntries db accounts head).filterMap SnapshotEntry.write?) :
    w.key ≠ .headBlock ∧ w.val ≠ none ∧ db.getCf w.key = w.val := by
  obtain ⟨e, he, hwrite⟩ := List.mem_filterMap.mp hw
  simp only [exportEntries, List.mem_append, List.mem_map] at he
  rcases he with ((⟨⟨a, i⟩, hr, rfl⟩ | ⟨⟨a, s, v⟩, hr, rfl⟩) | ⟨⟨h, b⟩, hr, rfl⟩) | ⟨n, _, rfl⟩
  · obtain rfl := Option.some.inj hwrite
    exact ⟨by simp [Write.key], by simp [Write.val], (hacc a i).mp hr⟩
  · obtain rfl := Option.some.inj hwrite
    exact ⟨by simp [Write.key], by simp [Write.val], StateDb.mem_iterStorage.mp hr⟩
  · obtain rfl := Option.some.inj hwrite
    exact ⟨by simp [Write.key], by simp [Write.val], StateDb.mem_iterCode.mp hr⟩
  · cases hwrite

/-- Every key is written, the head's apart. -/
theorem exported_of_getCf {db : StateDb} (hwf : db.WellFormed)
    {accounts : List (Address × AccountInfo)} {head : Option U64}
    (hacc : ∀ a i, (a, i) ∈ accounts ↔ db.getCf (.account a) = some i.toBytes)
    {k : Key} {v : Bytes} (hk : k ≠ .headBlock) (hv : db.getCf k = some v) :
    ∃ w ∈ (exportEntries db accounts head).filterMap SnapshotEntry.write?, w.key = k := by
  have hfits := hwf.fits hv
  cases k with
  | account a =>
      obtain ⟨i, hi⟩ : ∃ i, AccountInfo.fromBytes v = .ok i := ⟨_, if_pos hfits⟩
      have hmem : (a, i) ∈ accounts :=
        (hacc a i).mpr (by rw [hv, AccountInfo.toBytes_of_fromBytes hi])
      refine ⟨.setAccount a i,
        List.mem_filterMap.mpr ⟨.account a i.nonce i.balance i.codeHash, ?_, rfl⟩, rfl⟩
      simp only [exportEntries, List.mem_append]
      exact .inl (.inl (.inl (List.mem_map_of_mem (f := fun e : Address × AccountInfo =>
        SnapshotEntry.account e.1 e.2.nonce e.2.balance e.2.codeHash) hmem)))
  | slot a s =>
      have hlen : v.length = 32 := hfits
      have hmem : (a, s, ofBe 256 v) ∈ db.iterStorage :=
        StateDb.mem_iterStorage.mpr (by rw [hv, beOf_ofBe (by omega) hlen])
      refine ⟨.setStorage a s (ofBe 256 v),
        List.mem_filterMap.mpr ⟨.storage a s (ofBe 256 v), ?_, rfl⟩, rfl⟩
      simp only [exportEntries, List.mem_append]
      exact .inl (.inl (.inr (List.mem_map_of_mem
        (f := fun e : Address × B256 × U256 => SnapshotEntry.storage e.1 e.2.1 e.2.2) hmem)))
  | code h =>
      have hmem : (h, v) ∈ db.iterCode := StateDb.mem_iterCode.mpr hv
      refine ⟨.setCode h v, List.mem_filterMap.mpr ⟨.code h v, ?_, rfl⟩, rfl⟩
      simp only [exportEntries, List.mem_append]
      exact .inl (.inr (List.mem_map_of_mem
        (f := fun e : B256 × Bytes => SnapshotEntry.code e.1 e.2) hmem))
  | headBlock => exact absurd rfl hk

theorem lastVal_exported {db : StateDb} (hwf : db.WellFormed)
    {accounts : List (Address × AccountInfo)} {head : Option U64}
    (hacc : ∀ a i, (a, i) ∈ accounts ↔ db.getCf (.account a) = some i.toBytes)
    {k : Key} (hk : k ≠ .headBlock) :
    WriteBatch.lastVal ((exportEntries db accounts head).filterMap SnapshotEntry.write?) k
      = (db.getCf k).map some := by
  have hspec := WriteBatch.lastVal_eq_of_spec
    (b := (exportEntries db accounts head).filterMap SnapshotEntry.write?)
    (F := fun k => if k = .headBlock then none else (db.getCf k).map some)
    (fun w hw => by
      obtain ⟨hne, hval, hget⟩ := getCf_of_exported hacc hw
      rw [if_neg hne, hget]
      cases hv : w.val with
      | none => exact absurd hv hval
      | some v => rfl)
    (fun k v hF => by
      by_cases hne : k = .headBlock
      · simp [hne] at hF
      · rw [if_neg hne] at hF
        obtain ⟨u, hu, _⟩ := Option.map_eq_some_iff.mp hF
        exact exported_of_getCf hwf hacc hne hu) k
  rw [hspec, if_neg hk]

/-- The only metadata line is the last. -/
theorem head_exported (db : StateDb) (accounts : List (Address × AccountInfo)) (head : Option U64) :
    ((exportEntries db accounts head).filterMap SnapshotEntry.head?).getLast? = head := by
  -- none of the first three parts holds a metadata entry
  have hnone : ∀ {α : Type} (f : α → SnapshotEntry), (∀ x, (f x).head? = none) → ∀ l : List α,
      (l.map f).filterMap SnapshotEntry.head? = [] := by
    intro α f hf l
    rw [List.filterMap_map]
    exact List.filterMap_eq_nil_iff.mpr fun x _ => hf x
  simp only [exportEntries, List.filterMap_append]
  rw [hnone _ fun _ => rfl, hnone _ fun _ => rfl, hnone _ fun _ => rfl]
  cases head <;> rfl

/-! ## Importing it again -/

/-- Lines that all hold an entry are imported without an error. -/
theorem importLines_ok {fromStr : String → Option SnapshotEntry} {skipLines : Nat}
    {lines : List (Option String)} {st : ImportState}
    (h : ∀ l ∈ lines, ∃ e, lineEntry fromStr l = some e) :
    ∃ stats, (importLines fromStr skipLines lines st).2 = .ok stats := by
  induction lines generalizing st with
  | nil => exact ⟨st.stats, rfl⟩
  | cons l lines ih =>
      obtain ⟨e, he⟩ := h l List.mem_cons_self
      have hrest : ∀ l' ∈ lines, ∃ e, lineEntry fromStr l' = some e := fun l' hl' =>
        h l' (List.mem_cons_of_mem l hl')
      cases l with
      | none => cases he
      | some line =>
          rw [lineEntry, Option.ite_none_left_eq_some] at he
          rw [importLines, if_neg he.1, he.2]
          dsimp only
          split
          · exact ih hrest
          · split
            · exact ih hrest
            · exact ih hrest

/-- A run that returns leaves no sidecar. -/
theorem runs_progress {fromStr : String → Option SnapshotEntry} {file : List (Option String)}
    {skipLines mark : Nat} {effects : List ImportEffect}
    {result : Except ImportError ImportStats} {stats : ImportStats} {s : ImportDisk}
    (hr : Runs fromStr file skipLines mark effects result) (hok : result = .ok stats) :
    (s.applyAll effects).progress = none := by
  induction hr generalizing s with
  | stopped => cases hok
  | batch _ _ ih => exact ih hok
  | finished _ => rfl

theorem wellFormed_applyAll {s : ImportDisk} (h : s.db.WellFormed) (effects : List ImportEffect) :
    (s.applyAll effects).db.WellFormed := by
  induction effects generalizing s with
  | nil => exact h
  | cons e effects ih =>
      refine ih (s := s.apply e) ?_
      cases e with
      | commit batch head => exact StateDb.wellFormed_commit h _
      | writeProgress text => exact h
      | removeProgress => exact h
      | report p => exact h

section Lines

variable {json : String → Option FlatJson.Obj}

theorem fileBatch_lines (hjson : FlatJson.Reads json) (es : List SnapshotEntry) :
    fileBatch (SnapshotEntry.fromStr json) (es.map fun e => some e.line)
      = es.filterMap SnapshotEntry.write? := by
  rw [fileBatch, List.filterMap_map]
  exact List.filterMap_congr fun e _ => by simp [lineEntry_line hjson]

theorem fileHead_lines (hjson : FlatJson.Reads json) (es : List SnapshotEntry) :
    fileHead (SnapshotEntry.fromStr json) (es.map fun e => some e.line)
      = (es.filterMap SnapshotEntry.head?).getLast? := by
  rw [fileHead, fileHeads, ← List.getLast?_map, Resume.numbered, Resume.map_snd_numberedFrom,
    List.filterMap_map]
  exact congrArg List.getLast? (List.filterMap_congr fun e _ => by simp [lineEntry_line hjson])

/-- What importing lines into an empty database leaves at each key. -/
theorem importSnapshot_lines (hjson : FlatJson.Reads json) (es : List SnapshotEntry) :
    ∃ s stats, importSnapshot (SnapshotEntry.fromStr json) (es.map fun e => some e.line)
          ⟨.empty, none⟩ = (s, .ok stats)
      ∧ s.progress = none ∧ s.db.WellFormed
      ∧ s.db.getCf .headBlock = ((es.filterMap SnapshotEntry.head?).getLast?).map (beOf 8)
      ∧ ∀ k, k.table ≠ .metadata →
          s.db.getCf k = (WriteBatch.lastVal (es.filterMap SnapshotEntry.write?) k).getD none := by
  have hread : IsReadout (es.map fun e => some e.line) (es.map fun e => some e.line) := .inl rfl
  obtain ⟨stats, hok⟩ : ∃ stats, (importSnapshot (SnapshotEntry.fromStr json)
      (es.map fun e => some e.line) ⟨.empty, none⟩).2 = .ok stats := by
    -- every line is an entry's, and is read as that entry
    refine importLines_ok fun l hl => ?_
    obtain ⟨e, _, rfl⟩ := List.mem_map.mp hl
    exact ⟨e, lineEntry_line hjson e⟩
  have hruns : Runs (SnapshotEntry.fromStr json) (es.map fun e => some e.line) (readProgress none)
      (readProgress none) _ _ := importRun_runs hread
  refine ⟨_, stats, Prod.ext rfl hok, runs_progress hruns hok,
    wellFormed_applyAll StateDb.wellFormed_empty _, ?_, fun k hk => ?_⟩
  · have hhead := runs_head (s := ⟨.empty, none⟩) hruns hok
    have hempty : StateDb.empty.getCf .headBlock = none := by simp [StateDb.getCf, StateDb.empty]
    rw [hempty, Option.or_none, show readProgress none = 0 from rfl, lastHead_zero,
      fileHead_lines hjson] at hhead
    exact hhead
  · have hstate := StateDb.cf_of_state (importSnapshot_state .start hread hok) hk
    have hempty : StateDb.empty.getCf k = none := by simp [StateDb.getCf, StateDb.empty]
    rw [StateDb.getCf, hstate, fileBatch_lines hjson, ← StateDb.getCf, StateDb.getCf_commit, hempty]

end Lines

/--
**Import undoes export.** The file of an exported database has a line for each of its
entries, which is read as that entry, and importing the file into an empty database
gives the same database again.
-/
theorem importSnapshot_exportSnapshot {json : String → Option FlatJson.Obj}
    (hjson : FlatJson.Reads json) {db : StateDb} (h : db.Built) :
    ∃ st accounts head stats, exportSnapshot db = .ok st
      ∧ db.iterAccounts = .ok accounts ∧ db.getHeadBlock = .ok head
      ∧ fileLines st.text = (exportEntries db accounts head).map (fun e => some e.line)
      ∧ (∀ e ∈ exportEntries db accounts head, SnapshotEntry.fromStr json e.line = some e)
      ∧ importSnapshot (SnapshotEntry.fromStr json) (fileLines st.text) ⟨.empty, none⟩
          = (⟨db, none⟩, .ok stats) := by
  have hwf := h.wellFormed
  obtain ⟨accounts, hacc, hmem⟩ := hwf.iterAccounts_ok
  obtain ⟨head, hhead, hget⟩ := hwf.getHeadBlock_ok
  obtain ⟨st, hst, hlines⟩ := exportSnapshot_lines hacc hhead
  have htext := SnapshotEntry.fileLines_text hlines
  obtain ⟨⟨db', progress⟩, stats, himport, hprogress, hwf', hhead', hkeys⟩ :=
    importSnapshot_lines hjson (exportEntries db accounts head)
  -- both are well formed, so comparing them key by key is enough
  have hdb : db' = db := by
    refine StateDb.ext_getCf hwf' hwf fun k => ?_
    by_cases hk : k = .headBlock
    · rw [hk, hhead', head_exported, hget]
    · have htable : k.table ≠ .metadata := by
        cases k with
        | headBlock => exact absurd rfl hk
        | account a => simp [Key.table]
        | slot a s => simp [Key.table]
        | code h => simp [Key.table]
      rw [hkeys k htable, lastVal_exported hwf hmem hk]
      cases db.getCf k <;> rfl
  refine ⟨st, accounts, head, stats, hst, hacc, hhead, htext,
    fun e _ => SnapshotEntry.fromStr_line hjson e, ?_⟩
  rw [htext, himport, hdb, show progress = none from hprogress]

/-- A slot that is zero, code that is empty, and a head. -/
theorem importSnapshot_exportSnapshot_zeroSlot :
    let db := (((StateDb.empty.setAccount 0xC0FFEE ⟨7, 1000, KECCAK256_EMPTY⟩).setStorage 0xC0FFEE 1
      0).setCode KECCAK256_EMPTY []).setHeadBlock 65
    ∃ st accounts head stats, exportSnapshot db = .ok st
      ∧ db.iterAccounts = .ok accounts ∧ db.getHeadBlock = .ok head
      ∧ fileLines st.text = (exportEntries db accounts head).map (fun e => some e.line)
      ∧ (∀ e ∈ exportEntries db accounts head,
          SnapshotEntry.fromStr FlatJson.parse e.line = some e)
      ∧ importSnapshot (SnapshotEntry.fromStr FlatJson.parse) (fileLines st.text) ⟨.empty, none⟩
          = (⟨db, none⟩, .ok stats) :=
  importSnapshot_exportSnapshot FlatJson.parse_render
    (.setHeadBlock 65 (.setCode _ [] (.setStorage _ 1 0 (.setAccount _ _ .empty))))

end EvmState
