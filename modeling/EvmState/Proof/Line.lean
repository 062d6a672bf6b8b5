import EvmState.Snapshot.Export

/-!
# Lines are read back

The format strings of the export are the JSON text of the entry's object, and that
object is the one the import reads the entry from. So a line is read back as the
entry it was written for, whatever JSON library reads it.
-/

namespace EvmState

open FlatJson (Plain Reads render)

namespace SnapshotEntry

/-- The line an entry is exported as. -/
def line : SnapshotEntry → String
  | .account address nonce balance codeHash => accountLine address ⟨nonce, balance, codeHash⟩
  | .storage address slot value => storageLine address slot value
  | .code codeHash bytecode => codeLine codeHash bytecode
  | .metadata headBlock => metadataLine headBlock

/-- The object on that line. -/
def obj : SnapshotEntry → FlatJson.Obj
  | .account address nonce balance codeHash =>
      [("type", .str "account"), ("address", .str (Address.toHex address)),
        ("nonce", .num nonce.toNat), ("balance", .str (U256.toHex balance)),
        ("codeHash", .str (B256.toHex codeHash))]
  | .storage address slot value =>
      [("type", .str "storage"), ("address", .str (Address.toHex address)),
        ("slot", .str (B256.toHex slot)), ("value", .str (U256.toHex value))]
  | .code codeHash bytecode =>
      [("type", .str "code"), ("codeHash", .str (B256.toHex codeHash)),
        ("bytecode", .str (bytesToHex bytecode))]
  | .metadata headBlock => [("type", .str "metadata"), ("headBlock", .num headBlock.toNat)]

/-! ## The text -/

/-- The format strings spell out the entry's object. -/
theorem line_eq (e : SnapshotEntry) : e.line = String.ofList (render e.obj) := by
  unfold render FlatJson.renderRest
  cases e with
  | account address nonce balance codeHash =>
      unfold line accountLine U64.toDec obj
      simp only [List.flatMap_cons, List.flatMap_nil, FlatJson.renderMember, FlatJson.renderScalar]
      -- `simp` must not unfold the digits of a number it does not know
      generalize Nat.toDigits 10 nonce.toNat = digits
      simp [← String.toList_inj, FlatJson.renderString]
  | storage address slot value =>
      unfold line storageLine obj
      simp [← String.toList_inj, FlatJson.renderMember, FlatJson.renderScalar,
        FlatJson.renderString]
  | code codeHash bytecode =>
      unfold line codeLine obj
      simp [← String.toList_inj, FlatJson.renderMember, FlatJson.renderScalar,
        FlatJson.renderString]
  | metadata headBlock =>
      unfold line metadataLine U64.toDec obj
      simp only [List.flatMap_cons, List.flatMap_nil, FlatJson.renderMember, FlatJson.renderScalar]
      generalize Nat.toDigits 10 headBlock.toNat = digits
      simp [← String.toList_inj, FlatJson.renderString]

/-- The marker is plain. -/
theorem plainChar_marker {cs : List Char} (h : ∀ c ∈ cs, FlatJson.plainChar c = true) :
    ∀ c ∈ '0' :: 'x' :: cs, FlatJson.plainChar c = true := by
  intro c hc
  rcases List.mem_cons.mp hc with rfl | hc
  · rfl
  rcases List.mem_cons.mp hc with rfl | hc
  · rfl
  · exact h c hc

theorem plainString_marked {cs : List Char} (h : ∀ c ∈ cs, ∃ d, Radix.digitVal c = some d ∧ d < 16) :
    FlatJson.plainString (marked cs) = true := by
  rw [FlatJson.plainString, marked, String.toList_ofList, List.all_eq_true]
  refine plainChar_marker fun c hc => ?_
  obtain ⟨d, hd, _⟩ := h c hc
  exact FlatJson.plainChar_of_digitVal hd

@[simp] theorem plainString_fixedHex (w : Nat) {n : Nat} (x : BitVec n) :
    FlatJson.plainString (fixedHex w x) = true :=
  plainString_marked fun _ hc => Radix.digitVal_of_padDigits (by omega) (by omega) hc

@[simp] theorem plainString_toHex (v : U256) : FlatJson.plainString (U256.toHex v) = true :=
  plainString_marked fun _ hc => Radix.digitVal_of_toDigits (by omega) (by omega) hc

@[simp] theorem plainString_bytesToHex (bs : Bytes) : FlatJson.plainString (bytesToHex bs) = true :=
  plainString_marked fun _ hc => Radix.digitVal_of_encodeHex hc

theorem plain_obj (e : SnapshotEntry) : Plain e.obj := by
  have hnames : ∀ s ∈ ["type", "account", "storage", "code", "metadata", "address", "nonce",
      "balance", "codeHash", "slot", "value", "bytecode", "headBlock"],
      FlatJson.plainString s = true := by decide
  simp only [List.forall_mem_cons] at hnames
  intro f hf
  cases e with
  | account address nonce balance codeHash =>
      simp only [obj, List.mem_cons, List.not_mem_nil, or_false] at hf
      rcases hf with rfl | rfl | rfl | rfl | rfl <;>
        simp [FlatJson.plainMember, hnames, Address.toHex, B256.toHex, nonce.isLt]
  | storage address slot value =>
      simp only [obj, List.mem_cons, List.not_mem_nil, or_false] at hf
      rcases hf with rfl | rfl | rfl | rfl <;>
        simp [FlatJson.plainMember, hnames, Address.toHex, B256.toHex]
  | code codeHash bytecode =>
      simp only [obj, List.mem_cons, List.not_mem_nil, or_false] at hf
      rcases hf with rfl | rfl | rfl <;> simp [FlatJson.plainMember, hnames, B256.toHex]
  | metadata headBlock =>
      simp only [obj, List.mem_cons, List.not_mem_nil, or_false] at hf
      rcases hf with rfl | rfl <;> simp [FlatJson.plainMember, hnames, headBlock.isLt]

/-! ## Reading it -/

theorem hexDecode_bytesToHex (bs : Bytes) : hexDecode (bytesToHex bs).toList = some bs := by
  rw [bytesToHex, marked, String.toList_ofList]
  exact Radix.decodeHex_encodeHex bs

theorem deserialize_obj (e : SnapshotEntry) : deserialize e.obj = some e := by
  cases e <;>
    simp [obj, deserialize, field, scalarAddress, scalarU64, scalarU256, scalarB256, scalarBytes,
      U256.fromStr_toHex, hexDecode_bytesToHex]

/-- **A line is read as the entry it was written for.** -/
theorem fromStr_line {json : String → Option FlatJson.Obj} (hjson : Reads json) (e : SnapshotEntry) :
    fromStr json e.line = some e := by
  rw [fromStr, line_eq, hjson e.obj e.plain_obj, Option.bind_some, deserialize_obj]

/-! ## Lines in a file -/

theorem isBlank_line (e : SnapshotEntry) : isBlank e.line = false := by
  have hne : ∀ cs, (Text.trim ('\x7b' :: cs)).isEmpty = false := fun cs =>
    List.isEmpty_eq_false_iff.mpr (Text.trim_cons_ne_nil (by decide))
  rw [isBlank, line_eq, String.toList_ofList]
  cases e <;> exact hne _

/-- A file holds the lines it was written from. -/
theorem fileLines_text {st : ExportState} {es : List SnapshotEntry}
    (h : st.lines = es.map line) : fileLines st.text = es.map fun e => some e.line := by
  -- printable text has no line ends, so lines are split where they were joined
  have hprintable : ∀ l ∈ es.map fun e => e.line.toList, ∀ c ∈ l, 0x20 ≤ c.toNat := by
    intro l hl c hc
    obtain ⟨e, _, rfl⟩ := List.mem_map.mp hl
    rw [line_eq, String.toList_ofList] at hc
    exact FlatJson.printable_render e.plain_obj hc
  have hlines : ∀ l ∈ es.map fun e => e.line.toList, '\n' ∉ l ∧ l.getLast? ≠ some '\r' := by
    intro l hl
    refine ⟨fun hc => ?_, fun hc => ?_⟩
    · exact absurd (hprintable l hl _ hc) (by decide)
    · exact absurd (hprintable l hl _ (List.mem_of_getLast? hc)) (by decide)
  rw [fileLines, ExportState.text, String.toList_ofList, h, List.map_map]
  rw [show (String.toList ∘ line) = fun e => e.line.toList from rfl, Text.lines_unlines hlines,
    List.map_map]
  exact List.map_congr_left fun e _ => congrArg some String.ofList_toList

end SnapshotEntry

end EvmState
