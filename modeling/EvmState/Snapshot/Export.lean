import EvmState.Snapshot.Import

/-!
# Exporting a snapshot

`export_snapshot` writes the whole database as JSON lines: accounts, storage, code,
then the head. The lines are its format strings, put together from their parts. A
file that is left behind after an error is not considered.
-/

namespace EvmState

/-! ## Lines -/

/-- `{}` of a `u64`. -/
def U64.toDec (n : U64) : String := String.ofList (Nat.toDigits 10 n.toNat)

def accountLine (address : Address) (info : AccountInfo) : String :=
  "\x7b\"type\":\"account\",\"address\":\"" ++ Address.toHex address
    ++ "\",\"nonce\":" ++ U64.toDec info.nonce
    ++ ",\"balance\":\"" ++ U256.toHex info.balance
    ++ "\",\"codeHash\":\"" ++ B256.toHex info.codeHash ++ "\"\x7d"

def storageLine (address : Address) (slot : B256) (value : U256) : String :=
  "\x7b\"type\":\"storage\",\"address\":\"" ++ Address.toHex address
    ++ "\",\"slot\":\"" ++ B256.toHex slot
    ++ "\",\"value\":\"" ++ U256.toHex value ++ "\"\x7d"

def codeLine (codeHash : B256) (bytecode : Bytes) : String :=
  "\x7b\"type\":\"code\",\"codeHash\":\"" ++ B256.toHex codeHash
    ++ "\",\"bytecode\":\"" ++ bytesToHex bytecode ++ "\"\x7d"

def metadataLine (head : U64) : String :=
  "\x7b\"type\":\"metadata\",\"headBlock\":" ++ U64.toDec head ++ "\x7d"

/-! ## The export -/

structure ExportStats where
  accounts : Nat := 0
  storageSlots : Nat := 0
  codeEntries : Nat := 0
  headBlock : Option U64 := none
deriving DecidableEq, Repr

/-- What has been written and counted so far, and the reports made on the way. -/
structure ExportState where
  lines : List String := []
  entriesWritten : Nat := 0
  reports : List Nat := []
  stats : ExportStats := {}

/-- `on_progress`, after every 100,000 entries. -/
def ExportState.report (st : ExportState) : ExportState :=
  if st.entriesWritten % 100000 = 0 then { st with reports := st.reports ++ [st.entriesWritten] }
  else st

def ExportState.writeAccount (st : ExportState) (e : Address × AccountInfo) : ExportState :=
  { st with
    lines := st.lines ++ [accountLine e.1 e.2]
    stats := { st.stats with accounts := st.stats.accounts + 1 }
    entriesWritten := st.entriesWritten + 1 : ExportState }.report

def ExportState.writeStorage (st : ExportState) (e : Address × B256 × U256) : ExportState :=
  { st with
    lines := st.lines ++ [storageLine e.1 e.2.1 e.2.2]
    stats := { st.stats with storageSlots := st.stats.storageSlots + 1 }
    entriesWritten := st.entriesWritten + 1 : ExportState }.report

/-- Code entries are counted, but reported only at the end. -/
def ExportState.writeCode (st : ExportState) (e : B256 × Bytes) : ExportState :=
  { st with
    lines := st.lines ++ [codeLine e.1 e.2]
    stats := { st.stats with codeEntries := st.stats.codeEntries + 1 }
    entriesWritten := st.entriesWritten + 1 }

/-- The metadata line is not counted as an entry. -/
def ExportState.writeHead (st : ExportState) : Option U64 → ExportState
  | some head =>
      { st with
        lines := st.lines ++ [metadataLine head]
        stats := { st.stats with headBlock := some head } }
  | none => st

/-- `export_snapshot`. -/
def exportSnapshot (db : StateDb) : Except DbError ExportState :=
  match db.iterAccounts with
  | .error e => .error e
  | .ok accounts =>
      let st := accounts.foldl .writeAccount ({} : ExportState)
      let st := db.iterStorage.foldl .writeStorage st
      let st := db.iterCode.foldl .writeCode st
      match db.getHeadBlock with
      | .error e => .error e
      | .ok head =>
          let st := st.writeHead head
          .ok { st with reports := st.reports ++ [st.entriesWritten] }

/-- The file: every line, and a newline behind it. -/
def ExportState.text (st : ExportState) : String :=
  String.ofList (Text.unlines (st.lines.map String.toList))

/-- `BufRead::lines` of a text. -/
def fileLines (text : String) : List (Option String) :=
  (Text.lines text.toList).map fun l => some (String.ofList l)

end EvmState
