import EvmState.Lib.Text
import EvmState.Snapshot.Entry

/-!
# Importing a snapshot

`import_snapshot` reads a file line by line, commits its entries in batches, and
notes beside the file after how many lines the last batch ended. A run is modelled
by what it does to durable state, in order: an interruption leaves a first part of
these effects, and a progress write it interrupts leaves part of its text.

A line is `none` where it cannot be read (an I/O error, or bytes that are no UTF-8).
Nothing here depends on how an entry is parsed. Line numbers do not overflow: a file of
`2^64` lines is not considered. Compression is left to its library: the lines are
those of the decoded file.
-/

namespace EvmState

/-- `Error`, as far as reading the file raises it. -/
inductive ImportError where
  | io
  | json (line : Nat)
deriving DecidableEq, Repr

structure ImportProgress where
  entriesImported : U64
  bytesRead : U64
deriving DecidableEq, Repr

structure ImportStats where
  accounts : Nat
  storageSlots : Nat
  codeEntries : Nat
  headBlock : Option U64
deriving DecidableEq, Repr

/-- What one more entry adds to the statistics. -/
def ImportStats.add (stats : ImportStats) : SnapshotEntry → ImportStats
  | .account _ _ _ _ => { stats with accounts := stats.accounts + 1 }
  | .storage _ _ _ => { stats with storageSlots := stats.storageSlots + 1 }
  | .code _ _ => { stats with codeEntries := stats.codeEntries + 1 }
  | .metadata headBlock => { stats with headBlock := some headBlock }

def BATCH_SIZE : Nat := 10000

/-! ## Progress -/

/-- `read_progress`: the number in the sidecar, zero if there is none to read. -/
def readProgress (sidecar : Option String) : Nat :=
  match sidecar with
  | some text => ((U64.fromStrRadix (Text.trim text.toList) 10).map BitVec.toNat).getD 0
  | none => 0

/-- What `write_progress` writes. -/
def progressText (lineNum : Nat) : String := String.ofList (Nat.toDigits 10 lineNum)

/-! ## Effects -/

/-- What an import does outside of its memory. Each write keeps the number of its line. -/
inductive ImportEffect where
  | commit (batch : List (Nat × Write)) (headBlock : Option U64)
  | writeProgress (text : String)
  | removeProgress
  | report (progress : ImportProgress)
deriving DecidableEq, Repr

/-- What an import finds and leaves: the database, and the sidecar. -/
structure ImportDisk where
  db : StateDb
  progress : Option String

/-- The batch that is committed: the entries, then the head if there is one. -/
def importBatch (batch : List (Nat × Write)) (headBlock : Option U64) : WriteBatch :=
  batch.map Prod.snd ++ headBlock.toList.map .setHeadBlock

def ImportDisk.apply (s : ImportDisk) : ImportEffect → ImportDisk
  | .commit batch headBlock => { s with db := s.db.commit (importBatch batch headBlock) }
  | .writeProgress text => { s with progress := some text }
  | .removeProgress => { s with progress := none }
  | .report _ => s

def ImportDisk.applyAll (s : ImportDisk) (effects : List ImportEffect) : ImportDisk :=
  effects.foldl ImportDisk.apply s

/-! ## The loop -/

/-- The variables of the loop. -/
structure ImportState where
  lineNum : Nat := 0
  entriesInBatch : Nat := 0
  bytesRead : Nat := 0
  batch : List (Nat × Write) := []
  stats : ImportStats := ⟨0, 0, 0, none⟩

/-- A line has been read. -/
def ImportState.read (st : ImportState) (line : String) : ImportState :=
  { st with lineNum := st.lineNum + 1, bytesRead := st.bytesRead + (line.utf8ByteSize + 1) }

/-- An entry goes to the batch and into the statistics. -/
def ImportState.push (st : ImportState) (entry : SnapshotEntry) : ImportState :=
  { st with
    batch := st.batch ++ (entry.write?.map fun w => (st.lineNum, w)).toList
    stats := st.stats.add entry
    entriesInBatch := st.entriesInBatch + 1 }

/-- The report at this point; the difference is one of machine words. -/
def ImportState.progress (st : ImportState) (skipLines : Nat) : ImportProgress where
  entriesImported := BitVec.ofNat 64 st.lineNum - BitVec.ofNat 64 skipLines
  bytesRead := BitVec.ofNat 64 st.bytesRead

/-- `line.trim().is_empty()`. -/
def isBlank (line : String) : Bool := (Text.trim line.toList).isEmpty

/-- The effects and the result of reading these lines from this state on. -/
def importLines (fromStr : String → Option SnapshotEntry) (skipLines : Nat) :
    List (Option String) → ImportState → List ImportEffect × Except ImportError ImportStats
  | [], st =>
      -- what is left goes with the head; nothing before this commit writes it
      ([.commit st.batch st.stats.headBlock, .removeProgress, .report (st.progress skipLines)],
        .ok st.stats)
  | none :: _, _ => ([], .error .io)
  | some line :: lines, st =>
      let st := st.read line
      -- a skipped line is counted, and not even parsed
      if st.lineNum ≤ skipLines then importLines fromStr skipLines lines st
      else if isBlank line then importLines fromStr skipLines lines st
      else
        match fromStr line with
        | none => ([], .error (.json st.lineNum))
        | some entry =>
            let st := st.push entry
            -- blank lines do not count towards a batch
            if BATCH_SIZE ≤ st.entriesInBatch then
              let rest :=
                importLines fromStr skipLines lines { st with entriesInBatch := 0, batch := [] }
              (.commit st.batch none :: .writeProgress (progressText st.lineNum)
                :: .report (st.progress skipLines) :: rest.1, rest.2)
            else importLines fromStr skipLines lines st

/-- What a run does that finds this sidecar. -/
def importRun (fromStr : String → Option SnapshotEntry) (lines : List (Option String))
    (sidecar : Option String) : List ImportEffect × Except ImportError ImportStats :=
  importLines fromStr (readProgress sidecar) lines {}

/-- `import_snapshot`, uninterrupted. -/
def importSnapshot (fromStr : String → Option SnapshotEntry) (lines : List (Option String))
    (s : ImportDisk) : ImportDisk × Except ImportError ImportStats :=
  let run := importRun fromStr lines s.progress
  (s.applyAll run.1, run.2)

end EvmState
