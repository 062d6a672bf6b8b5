import EvmState.Proof.BaseState

/-!
# The lines of a snapshot may stand in any order

An import that is not interrupted comes down to one batch: whatever the batches it commits
in between, it leaves what the entries of the file leave one after another, the head with
the last of them (`importSnapshot_fresh`). So where the entries for one key agree, their
order plays no part (`importSnapshot_unordered`).
-/

namespace EvmState

/-- The write an entry stands for, that of the head included. -/
def SnapshotEntry.write : SnapshotEntry → Write
  | .account address nonce balance codeHash => .setAccount address ⟨nonce, balance, codeHash⟩
  | .storage address slot value => .setStorage address slot value
  | .code codeHash bytecode => .setCode codeHash bytecode
  | .metadata headBlock => .setHeadBlock headBlock

/-- A line an import gets past. -/
def Readable (fromStr : String → Option SnapshotEntry) (l : Option String) : Prop :=
  ∃ line, l = some line ∧ (isBlank line = true ∨ ∃ e, fromStr line = some e)

/-- What the entries of a file add up to. -/
def entryStats (entries : List SnapshotEntry) (stats : ImportStats) : ImportStats :=
  entries.foldl ImportStats.add stats

section Lines

variable {fromStr : String → Option SnapshotEntry}

theorem snd_write? (e : SnapshotEntry) (n : Nat) :
    (e.write?.map fun w => (n, w)).toList.map Prod.snd = e.write?.toList := by
  cases e <;> rfl

/-- **One batch after another** is one batch. -/
theorem importLines_fresh {lines : List (Option String)} {st : ImportState}
    (h : ∀ l ∈ lines, Readable fromStr l) (s : ImportDisk) :
    let run := importLines fromStr 0 lines st
    let stats := entryStats (fileEntries fromStr lines) st.stats
    run.2 = .ok stats
      ∧ s.applyAll run.1 = ⟨s.db.commit (st.batch.map Prod.snd ++ fileBatch fromStr lines
          ++ stats.headBlock.toList.map .setHeadBlock), none⟩ := by
  induction lines generalizing st s with
  | nil =>
      refine ⟨rfl, ?_⟩
      simp [importLines, ImportDisk.applyAll, ImportDisk.apply, importBatch, fileBatch, fileEntries,
        entryStats]
  | cons l lines ih =>
      obtain ⟨⟨line, rfl, hline⟩, hlines⟩ := List.forall_mem_cons.mp h
      rw [importLines, if_neg (by simp [ImportState.read])]
      cases hblank : isBlank line with
      | true =>
          have hnone : lineEntry fromStr (some line) = none := by simp [lineEntry, hblank]
          have hentries : fileEntries fromStr (some line :: lines) = fileEntries fromStr lines := by
            rw [fileEntries, List.filterMap_cons, hnone]
            rfl
          have hbatch : fileBatch fromStr (some line :: lines) = fileBatch fromStr lines := by
            rw [fileBatch, List.filterMap_cons, hnone]
            rfl
          rw [if_pos rfl, hentries, hbatch]
          exact ih hlines s
      | false =>
          obtain ⟨e, he⟩ := hline.resolve_left (by simp [hblank])
          have hsome : lineEntry fromStr (some line) = some e := by simp [lineEntry, hblank, he]
          have hentries : fileEntries fromStr (some line :: lines)
              = e :: fileEntries fromStr lines := by
            rw [fileEntries, List.filterMap_cons, hsome]
            rfl
          have hbatch : fileBatch fromStr (some line :: lines)
              = e.write?.toList ++ fileBatch fromStr lines := by
            rw [fileBatch, List.filterMap_cons, hsome, Option.bind_some]
            cases e.write? <;> rfl
          rw [if_neg Bool.false_ne_true, he, hentries, hbatch]
          dsimp only
          -- the writes so far, and that of this entry
          have hpushed : ((st.read line).push e).batch.map Prod.snd
              = st.batch.map Prod.snd ++ e.write?.toList := by
            rw [ImportState.push, List.map_append, snd_write?]
            rfl
          split
          · obtain ⟨hok, hend⟩ := @ih { (st.read line).push e with entriesInBatch := 0, batch := [] }
              hlines ⟨s.db.commit (importBatch ((st.read line).push e).batch none),
                some (progressText ((st.read line).push e).lineNum)⟩
            refine ⟨hok, ?_⟩
            refine Eq.trans hend ?_
            rw [← StateDb.commit_append, importBatch, hpushed]
            simp only [List.map_nil, List.nil_append, Option.toList_none, List.append_nil,
              List.append_assoc]
            rfl
          · obtain ⟨hok, hend⟩ := @ih ((st.read line).push e) hlines s
            refine ⟨hok, ?_⟩
            rw [hend, hpushed, List.append_assoc (st.batch.map Prod.snd)]
            rfl

/-- An import that returns got past every line. -/
theorem readable_of_importLines {lines : List (Option String)} {st : ImportState}
    {stats : ImportStats} (h : (importLines fromStr 0 lines st).2 = .ok stats) :
    ∀ l ∈ lines, Readable fromStr l := by
  induction lines generalizing st with
  | nil => nofun
  | cons l lines ih =>
      cases l with
      | none => cases h
      | some line =>
          rw [importLines, if_neg (by simp [ImportState.read])] at h
          split at h
          · rename_i hblank
            exact List.forall_mem_cons.mpr ⟨⟨line, rfl, .inl hblank⟩, ih h⟩
          · split at h
            · cases h
            · rename_i e he
              refine List.forall_mem_cons.mpr ⟨⟨line, rfl, .inr ⟨e, he⟩⟩, ?_⟩
              dsimp only at h
              split at h
              · exact ih h
              · exact ih h

end Lines

/-! ## The entries, in any order -/

theorem entryStats_eq (entries : List SnapshotEntry) (stats : ImportStats) :
    entryStats entries stats
      = { accounts := stats.accounts + entries.countP fun e => e.write.key.table == .accounts
          storageSlots := stats.storageSlots + entries.countP fun e => e.write.key.table == .storage
          codeEntries := stats.codeEntries + entries.countP fun e => e.write.key.table == .code
          headBlock := (Lists.lastOf SnapshotEntry.head? entries).or stats.headBlock } := by
  induction entries using List.reverseRecOn with
  | nil => rfl
  | append_singleton entries e ih =>
      rw [entryStats, List.foldl_concat, ← entryStats, ih, Lists.lastOf_concat]
      -- each kind of entry counts in one field
      cases e <;> simp [ImportStats.add, SnapshotEntry.write, Write.key, Key.table,
        SnapshotEntry.head?, Nat.add_assoc]

/-- The head that is kept for the end is the last that is named. -/
theorem lastVal_entries (entries : List SnapshotEntry) (k : Key) :
    WriteBatch.lastVal (entries.filterMap SnapshotEntry.write?
        ++ (Lists.lastOf SnapshotEntry.head? entries).toList.map .setHeadBlock) k
      = WriteBatch.lastVal (entries.map SnapshotEntry.write) k := by
  have hother : ∀ (o : Option U64) {k : Key}, k ≠ .headBlock →
      WriteBatch.lastVal (o.toList.map .setHeadBlock) k = none := by
    intro o k hk
    refine WriteBatch.lastVal_eq_none_iff.mpr fun w hw => ?_
    obtain ⟨n, _, rfl⟩ := List.mem_map.mp hw
    exact hk.symm
  induction entries using List.reverseRecOn with
  | nil => rfl
  | append_singleton entries e ih =>
      rw [WriteBatch.lastVal_append] at ih
      rw [List.filterMap_append, List.map_append, Lists.lastOf_concat, WriteBatch.lastVal_append,
        WriteBatch.lastVal_append, WriteBatch.lastVal_append, ← ih, List.map_singleton]
      -- the head is set once, after the rest; no other entry writes its key
      by_cases hk : k = .headBlock
      · subst hk
        cases e <;> simp [SnapshotEntry.write?, SnapshotEntry.head?, SnapshotEntry.write,
          WriteBatch.lastVal_singleton, Write.key]
      · rw [hother _ hk, hother _ hk]
        cases e <;> simp [List.filterMap_cons, SnapshotEntry.write?, SnapshotEntry.write,
          WriteBatch.lastVal_singleton, Write.key, Ne.symm hk]

theorem of_head? {e : SnapshotEntry} {n : U64} (h : e.head? = some n) : e = .metadata n := by
  cases e with
  | metadata m =>
      obtain rfl := Option.some.inj h
      rfl
  | account _ _ _ _ => cases h
  | storage _ _ _ => cases h
  | code _ _ => cases h

section Files

variable {fromStr : String → Option SnapshotEntry} {file file' : List (Option String)}

/-- **An import that is not interrupted** applies the entries of the file in order. -/
theorem importSnapshot_fresh (h : ∀ l ∈ file, Readable fromStr l) (db : StateDb) :
    importSnapshot fromStr file ⟨db, none⟩
      = (⟨db.commit ((fileEntries fromStr file).map SnapshotEntry.write), none⟩,
          .ok (entryStats (fileEntries fromStr file) ⟨0, 0, 0, none⟩)) := by
  obtain ⟨hok, hend⟩ := @importLines_fresh fromStr file {} h ⟨db, none⟩
  refine Prod.ext (hend.trans ?_) hok
  -- without a sidecar no line is skipped, so the batches add up to the whole file
  have hbatch : fileBatch fromStr file
      = (fileEntries fromStr file).filterMap SnapshotEntry.write? := by
    rw [fileBatch, fileEntries, List.filterMap_filterMap]
  rw [hbatch, entryStats_eq]
  refine congrArg (ImportDisk.mk · none) (StateDb.commit_congr db fun k => ?_)
  rw [← lastVal_entries]
  simp

/--
**The order of the lines plays no part.** Take two files with the same lines in different
orders, in which the entries for one key agree, and no sidecar of an import before. Then an
uninterrupted import returns for one exactly if it does for the other, and leaves the same
database, no sidecar and the same statistics.
-/
theorem importSnapshot_unordered (hperm : file.Perm file')
    (hagree : ∀ e ∈ fileEntries fromStr file, ∀ e' ∈ fileEntries fromStr file,
      e.write.key = e'.write.key → e.write.val = e'.write.val) (db : StateDb) :
    ((∃ stats, (importSnapshot fromStr file ⟨db, none⟩).2 = .ok stats)
        ↔ ∃ stats, (importSnapshot fromStr file' ⟨db, none⟩).2 = .ok stats)
      ∧ ∀ stats, (importSnapshot fromStr file ⟨db, none⟩).2 = .ok stats →
          importSnapshot fromStr file' ⟨db, none⟩ = importSnapshot fromStr file ⟨db, none⟩
            ∧ (importSnapshot fromStr file ⟨db, none⟩).1.progress = none := by
  have hreadable : (∀ l ∈ file, Readable fromStr l) ↔ ∀ l ∈ file', Readable fromStr l :=
    forall_congr' fun l => by rw [hperm.mem_iff]
  have hentries : (fileEntries fromStr file).Perm (fileEntries fromStr file') := hperm.filterMap _
  -- an import ends well exactly when every line is readable, which no order changes
  have hreturns : ∀ lines : List (Option String),
      (∃ stats, (importSnapshot fromStr lines ⟨db, none⟩).2 = .ok stats)
        ↔ ∀ l ∈ lines, Readable fromStr l := by
    refine fun lines => ⟨fun ⟨stats, h⟩ => readable_of_importLines h, fun h => ?_⟩
    rw [importSnapshot_fresh h]
    exact ⟨_, rfl⟩
  refine ⟨by rw [hreturns, hreturns, hreadable], fun stats hok => ?_⟩
  have hfile := (hreturns file).mp ⟨stats, hok⟩
  rw [importSnapshot_fresh hfile, importSnapshot_fresh (hreadable.mp hfile)]
  have hdb : db.commit ((fileEntries fromStr file').map SnapshotEntry.write)
      = db.commit ((fileEntries fromStr file).map SnapshotEntry.write) := by
    refine (db.commit_perm (hentries.map _) fun w hw w' hw' hk => ?_).symm
    obtain ⟨e, he, rfl⟩ := List.mem_map.mp hw
    obtain ⟨e', he', rfl⟩ := List.mem_map.mp hw'
    exact hagree e he e' he' hk
  have hhead : Lists.lastOf SnapshotEntry.head? (fileEntries fromStr file')
      = Lists.lastOf SnapshotEntry.head? (fileEntries fromStr file) := by
    refine (Lists.lastOf_perm hentries fun e he e' he' n n' hn hn' => ?_).symm
    obtain rfl := of_head? hn
    obtain rfl := of_head? hn'
    exact beOf_inj (by omega) (Option.some.inj (hagree _ he _ he' rfl))
  refine ⟨?_, rfl⟩
  rw [hdb, entryStats_eq, entryStats_eq, hhead, hentries.countP_eq, hentries.countP_eq,
    hentries.countP_eq]

end Files

/-- A head that stands before an account, and a blank line. -/
def headThenAccount : List (Option String) :=
  [some (SnapshotEntry.metadata 65).line, some "", some (SnapshotEntry.account 0xC0FFEE 7 1000 0).line]

theorem fileEntries_headThenAccount :
    fileEntries (SnapshotEntry.fromStr FlatJson.parse) headThenAccount
      = [.metadata 65, .account 0xC0FFEE 7 1000 0] := by
  have hline := lineEntry_line FlatJson.parse_render
  have hblank : lineEntry (SnapshotEntry.fromStr FlatJson.parse) (some "") = none := by
    rw [lineEntry, if_pos (by decide)]
  simp only [fileEntries, headThenAccount, List.filterMap_cons, hline, hblank, List.filterMap_nil]

/-- Read backwards, the file leaves the same. -/
theorem importSnapshot_unordered_headThenAccount :
    importSnapshot (SnapshotEntry.fromStr FlatJson.parse) headThenAccount.reverse ⟨.empty, none⟩
        = importSnapshot (SnapshotEntry.fromStr FlatJson.parse) headThenAccount ⟨.empty, none⟩
      ∧ (importSnapshot (SnapshotEntry.fromStr FlatJson.parse) headThenAccount
          ⟨.empty, none⟩).1.progress = none := by
  have hline := SnapshotEntry.fromStr_line FlatJson.parse_render
  have hread : ∀ l ∈ headThenAccount, Readable (SnapshotEntry.fromStr FlatJson.parse) l := by
    simp only [headThenAccount, List.forall_mem_cons, List.not_mem_nil, false_imp_iff, implies_true,
      and_true]
    exact ⟨⟨_, rfl, .inr ⟨_, hline _⟩⟩, ⟨_, rfl, .inl (by decide)⟩, ⟨_, rfl, .inr ⟨_, hline _⟩⟩⟩
  have hok := congrArg Prod.snd (importSnapshot_fresh hread .empty)
  refine (importSnapshot_unordered (List.reverse_perm _).symm ?_ .empty).2 _ hok
  rw [fileEntries_headThenAccount]
  decide

end EvmState
