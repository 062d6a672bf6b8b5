import EvmState.DataTypes.Sqd
import EvmState.Fetcher.Query
import EvmState.Lib.Lists
import EvmState.Proof.Pagination

/-!
# Blocks that come through

A struct is written so that each of its fields is found under its name (`fields_select`), and
each field reads back (`read_written`). From this a block is read back as it was written
(`Block.ofJson_toJson`), a page of such blocks yields them (`readBody_page`), and of the
fields a query selects none is missing that the replayer reads (`replayed_answer`).
-/

namespace EvmState

open Record (Reader Reads Fails)

/-! ## Objects and their fields -/

/-- An object with those of its members that are asked for. -/
def JsonValue.select (p : String → Bool) : JsonValue → JsonValue
  | .object ms => .object (ms.filter fun m => p m.1)
  | v => v

/-- What is found for a field that may have been asked for. -/
def slot (p : String → Bool) (name : String) (value : JsonValue) : Option JsonValue :=
  if p name then some value else none

section Fields

variable {p : String → Bool} {name : String} {names : List String} {values : List JsonValue}

theorem named_of_notMem {ms : JsonMembers} (h : name ∉ ms.map Prod.fst) : ms.named name = [] := by
  rw [JsonMembers.named, List.map_eq_nil_iff, List.filter_eq_nil_iff]
  intro m hm heq
  exact h (List.mem_map.mpr ⟨m, hm, by simpa using heq⟩)

/-- Members of other names might as well not be there. -/
theorem named_append {pre : JsonMembers} (h : name ∉ pre.map Prod.fst) (ms : JsonMembers) :
    JsonMembers.named (pre ++ ms) name = JsonMembers.named ms name := by
  have hpre := named_of_notMem h
  rw [JsonMembers.named, List.map_eq_nil_iff] at hpre
  rw [JsonMembers.named, List.filter_append, hpre, List.nil_append, JsonMembers.named]

theorem fst_filter_zip_subset (names : List String) (values : List JsonValue) :
    ((names.zip values).filter fun m => p m.1).map Prod.fst ⊆ names := by
  intro name hname
  obtain ⟨m, hm, rfl⟩ := List.mem_map.mp hname
  exact (List.of_mem_zip (List.mem_of_mem_filter hm)).1

/-- Each field is found under its name, if it was asked for. -/
theorem forall₂_field (hnodup : names.Nodup) (hlen : values.length = names.length)
    (pre : JsonMembers) (hpre : ∀ n ∈ names, n ∉ pre.map Prod.fst) :
    List.Forall₂
      (fun n o => JsonMembers.field (pre ++ (names.zip values).filter fun m => p m.1) n = some o)
      names (names.zipWith (slot p) values) := by
  induction names generalizing values pre with
  | nil => exact .nil
  | cons n names ih =>
      cases values with
      | nil => cases hlen
      | cons v values =>
          obtain ⟨hn, hnodup⟩ := List.nodup_cons.mp hnodup
          -- the names are distinct, so no later member has this one
          have hrest : n ∉ ((names.zip values).filter fun m => p m.1).map Prod.fst := fun hmem =>
            hn (fst_filter_zip_subset names values hmem)
          rw [List.zip_cons_cons, List.zipWith_cons_cons, slot]
          cases hp : p n with
          -- the member is there, and it is the only one of its name
          | true =>
              rw [List.filter_cons_of_pos (by simpa using hp)]
              refine .cons ?_ ?_
              · have hnamed := named_append (hpre n List.mem_cons_self)
                  ((n, v) :: (names.zip values).filter fun m => p m.1)
                have hfirst : JsonMembers.named
                    ((n, v) :: (names.zip values).filter fun m => p m.1) n
                    = v :: JsonMembers.named ((names.zip values).filter fun m => p m.1) n := by
                  rw [JsonMembers.named, List.filter_cons_of_pos (by simp)]
                  rfl
                rw [JsonMembers.field, hnamed, hfirst, named_of_notMem hrest]
                rfl
              · -- the rest is looked up behind this member
                rw [List.append_cons]
                refine ih hnodup (Nat.succ.inj hlen) _ fun m hm hmem => ?_
                rw [List.map_append, List.mem_append] at hmem
                rcases hmem with hmem | hmem
                · exact hpre m (List.mem_cons_of_mem n hm) hmem
                · obtain rfl : m = n := by simpa using hmem
                  exact hn hm
          -- the member was not asked for, and nothing else has its name
          | false =>
              rw [List.filter_cons_of_neg (by simp [hp])]
              refine .cons ?_ (ih hnodup (Nat.succ.inj hlen) pre fun m hm => hpre m
                (List.mem_cons_of_mem n hm))
              rw [JsonMembers.field, named_append (hpre n List.mem_cons_self), named_of_notMem hrest]
              rfl

theorem fields_select (hnodup : names.Nodup) (hlen : values.length = names.length) :
    ((JsonValue.object (names.zip values)).select p).fields names
      = some (names.zipWith (slot p) values) := by
  exact Lists.mapM_some_of_forall₂ (forall₂_field hnodup hlen [] (by simp))

/-- All of them, if nothing is left out. -/
theorem fields_object (hnodup : names.Nodup) (hlen : values.length = names.length) :
    (JsonValue.object (names.zip values)).fields names = some (values.map some) := by
  have hall : (JsonValue.object (names.zip values)).select (fun _ => true)
      = .object (names.zip values) := by
    rw [JsonValue.select, List.filter_true]
  -- a field that is asked for has its value in its slot
  have hslots : ∀ (ns : List String) (vs : List JsonValue), vs.length = ns.length →
      ns.zipWith (slot fun _ => true) vs = vs.map some := by
    intro ns
    induction ns with
    | nil =>
        intro vs hlen
        obtain rfl := List.length_eq_zero_iff.mp hlen
        rfl
    | cons n ns ih =>
        intro vs hlen
        cases vs with
        | nil => cases hlen
        | cons v vs => rw [List.zipWith_cons_cons, ih vs (Nat.succ.inj hlen)]; rfl
  rw [← hall, fields_select hnodup hlen, hslots _ _ hlen]

end Fields

namespace Sqd

/-! ## What is written reads back -/

/-- A reader undoes a writer, which writes no `null`. -/
structure ReadsBack {α : Type} (read : JsonValue → Option α) (write : α → JsonValue) : Prop where
  back : ∀ v, read (write v) = some v
  nonNull : ∀ v, (write v).nonNull = some (write v)

/-- The library's readers read what the library writes. -/
structure AlloyReaders.Lawful (R : AlloyReaders) : Prop where
  b256 : ReadsBack R.b256 writeB256
  address : ReadsBack R.address writeAddress
  bytes : ReadsBack R.bytes writeBytes
  u256 : ReadsBack R.u256 writeU256

theorem readsBack_uint {n : Nat} (hn : n ≤ 64) : ReadsBack (readUint n) (writeUint (n := n)) where
  back v := by
    have hval : (v.setWidth 64).toNat = v.toNat := by
      rw [BitVec.toNat_setWidth]
      exact Nat.mod_eq_of_lt (Nat.lt_of_lt_of_le v.isLt (Nat.pow_le_pow_right (by omega) hn))
    rw [writeUint, readUint, hval, fits_toNat]
  nonNull _ := rfl

theorem readsBack_string : ReadsBack readString .string := ⟨fun _ => rfl, fun _ => rfl⟩

theorem readsBack_hexU64 : ReadsBack HexU64.ofJson HexU64.toJson where
  back v := by rw [HexU64.toJson, HexU64.ofJson, hexBody_marked, U64.fromStrRadix_toDigits]
  nonNull _ := rfl

section Slots

variable {α β : Type} {read : JsonValue → Option α} {write : α → JsonValue}
  {p : String → Bool} {name : String} {slots : List (Option JsonValue)} {b : β}

theorem reads_required {f : α → Reader JsonValue β} {v : α} (h : ReadsBack read write)
    (hp : p name = true) (hf : Reads (f v) slots b) :
    Reads (required read >>= f) (slot p name (write v) :: slots) b := by
  refine Reads.cons ?_ hf
  rw [slot, if_pos hp, Option.bind_some, h.back]

theorem fails_required {f : α → Reader JsonValue β} {v : JsonValue} (hp : p name = false) :
    Fails (required read >>= f) (slot p name v :: slots) := by
  refine Fails.cons _ ?_
  rw [slot, if_neg (by simp [hp]), Option.bind_none]

/-- What was not asked for is absent. -/
theorem reads_optional {f : Option α → Reader JsonValue β} {v : Option α}
    (h : ReadsBack read write) (hf : Reads (f (if p name then v else none)) slots b) :
    Reads (optional read >>= f) (slot p name (written write v) :: slots) b := by
  refine Reads.cons ?_ hf
  rw [slot]
  cases p name with
  | false => rfl
  | true =>
      cases v with
      | none => rfl
      | some v => simp only [written, readField, if_true, Option.map_some, Option.getD_some,
          h.nonNull, h.back]

end Slots

/-- The fields of a header that are asked for. -/
def BlockHeader.kept (p : String → Bool) (h : BlockHeader) : BlockHeader where
  number := h.number
  hash := if p "hash" then h.hash else none
  parentHash := if p "parentHash" then h.parentHash else none
  timestamp := if p "timestamp" then h.timestamp else none
  nonce := if p "nonce" then h.nonce else none
  sha3Uncles := if p "sha3Uncles" then h.sha3Uncles else none
  transactionsRoot := if p "transactionsRoot" then h.transactionsRoot else none
  stateRoot := if p "stateRoot" then h.stateRoot else none
  receiptsRoot := if p "receiptsRoot" then h.receiptsRoot else none
  mixHash := if p "mixHash" then h.mixHash else none
  miner := if p "miner" then h.miner else none
  difficulty := if p "difficulty" then h.difficulty else none
  extraData := if p "extraData" then h.extraData else none
  size := if p "size" then h.size else none
  gasLimit := if p "gasLimit" then h.gasLimit else none
  gasUsed := if p "gasUsed" then h.gasUsed else none
  baseFeePerGas := if p "baseFeePerGas" then h.baseFeePerGas else none
  l1BlockNumber := if p "l1BlockNumber" then h.l1BlockNumber else none

theorem BlockHeader.reads {R : AlloyReaders} (hR : R.Lawful) {p : String → Bool}
    (hp : p "number" = true) (h : BlockHeader) :
    Reads (reader R) (names.zipWith (slot p) h.values) (h.kept p) := by
  have hnum : ReadsBack (readUint 64) (writeUint (n := 64)) := readsBack_uint (Nat.le_refl 64)
  -- the number is required, the rest may be missing
  refine reads_required hnum hp ?_
  refine reads_optional hR.b256 ?_
  refine reads_optional hR.b256 ?_
  refine reads_optional hnum ?_
  refine reads_optional readsBack_string ?_
  refine reads_optional hR.b256 ?_
  refine reads_optional hR.b256 ?_
  refine reads_optional hR.b256 ?_
  refine reads_optional hR.b256 ?_
  refine reads_optional hR.b256 ?_
  refine reads_optional hR.address ?_
  refine reads_optional readsBack_hexU64 ?_
  refine reads_optional hR.bytes ?_
  refine reads_optional hnum ?_
  refine reads_optional readsBack_hexU64 ?_
  refine reads_optional readsBack_hexU64 ?_
  refine reads_optional readsBack_hexU64 ?_
  refine reads_optional hnum ?_
  exact Reads.pure _

/-- The fields of a transaction that are asked for. -/
def Transaction.kept (p : String → Bool) (tx : Transaction) : Transaction where
  transactionIndex := tx.transactionIndex
  hash := if p "hash" then tx.hash else none
  fromAddr := if p "from" then tx.fromAddr else none
  toAddr := if p "to" then tx.toAddr else none
  input := if p "input" then tx.input else none
  value := if p "value" then tx.value else none
  nonce := if p "nonce" then tx.nonce else none
  gas := if p "gas" then tx.gas else none
  gasPrice := if p "gasPrice" then tx.gasPrice else none
  maxFeePerGas := if p "maxFeePerGas" then tx.maxFeePerGas else none
  maxPriorityFeePerGas := if p "maxPriorityFeePerGas" then tx.maxPriorityFeePerGas else none
  yParity := if p "yParity" then tx.yParity else none
  chainId := if p "chainId" then tx.chainId else none
  gasUsed := if p "gasUsed" then tx.gasUsed else none
  cumulativeGasUsed := if p "cumulativeGasUsed" then tx.cumulativeGasUsed else none
  effectiveGasPrice := if p "effectiveGasPrice" then tx.effectiveGasPrice else none
  contractAddress := if p "contractAddress" then tx.contractAddress else none
  txType := if p "type" then tx.txType else none
  status := if p "status" then tx.status else none
  sighash := if p "sighash" then tx.sighash else none

theorem Transaction.reads {R : AlloyReaders} (hR : R.Lawful) {p : String → Bool}
    (hp : p "transactionIndex" = true) (tx : Transaction) :
    Reads (reader R) (names.zipWith (slot p) tx.values) (tx.kept p) := by
  have hnum : ReadsBack (readUint 64) (writeUint (n := 64)) := readsBack_uint (Nat.le_refl 64)
  have hbyte : ReadsBack (readUint 8) (writeUint (n := 8)) := readsBack_uint (by omega)
  -- the index is required, the rest may be missing
  refine reads_required (readsBack_uint (by omega)) hp ?_
  refine reads_optional hR.b256 ?_
  refine reads_optional hR.address ?_
  refine reads_optional hR.address ?_
  refine reads_optional hR.bytes ?_
  refine reads_optional hR.u256 ?_
  refine reads_optional hnum ?_
  refine reads_optional readsBack_hexU64 ?_
  refine reads_optional readsBack_hexU64 ?_
  refine reads_optional readsBack_hexU64 ?_
  refine reads_optional readsBack_hexU64 ?_
  refine reads_optional hnum ?_
  refine reads_optional hnum ?_
  refine reads_optional readsBack_hexU64 ?_
  refine reads_optional readsBack_hexU64 ?_
  refine reads_optional readsBack_hexU64 ?_
  refine reads_optional hR.address ?_
  refine reads_optional hbyte ?_
  refine reads_optional hbyte ?_
  refine reads_optional hR.bytes ?_
  exact Reads.pure _

/-- The fields of a state diff that are asked for. -/
def StateDiff.kept (p : String → Bool) (d : StateDiff) : StateDiff where
  transactionIndex := d.transactionIndex
  address := if p "address" then d.address else none
  key := if p "key" then d.key else none
  kind := if p "kind" then d.kind else none
  prev := if p "prev" then d.prev else none
  next := if p "next" then d.next else none

theorem StateDiff.reads {R : AlloyReaders} (hR : R.Lawful) {p : String → Bool}
    (hp : p "transactionIndex" = true) (d : StateDiff) :
    Reads (reader R) (names.zipWith (slot p) d.values) (d.kept p) := by
  refine reads_required (readsBack_uint (by omega)) hp ?_
  refine reads_optional hR.address ?_
  refine reads_optional readsBack_string ?_
  refine reads_optional readsBack_string ?_
  refine reads_optional readsBack_string ?_
  refine reads_optional readsBack_string ?_
  exact Reads.pure _

/-! ## Structs with what is asked for of them -/

section Select

variable {R : AlloyReaders} {p : String → Bool}

theorem BlockHeader.ofJson_select (hR : R.Lawful) (hp : p "number" = true) (h : BlockHeader) :
    ofJson R (h.toJson.select p) = some (h.kept p) := by
  rw [ofJson, readStruct, toJson, fields_select (by decide) rfl, Option.bind_some]
  exact (reads hR hp h).readAll

theorem Transaction.ofJson_select (hR : R.Lawful) (hp : p "transactionIndex" = true)
    (tx : Transaction) : ofJson R (tx.toJson.select p) = some (tx.kept p) := by
  rw [ofJson, readStruct, toJson, fields_select (by decide) rfl, Option.bind_some]
  exact (reads hR hp tx).readAll

theorem StateDiff.ofJson_select (hR : R.Lawful) (hp : p "transactionIndex" = true)
    (d : StateDiff) : ofJson R (d.toJson.select p) = some (d.kept p) := by
  rw [ofJson, readStruct, toJson, fields_select (by decide) rfl, Option.bind_some]
  exact (reads hR hp d).readAll

/-- Without its transaction a diff cannot be read. -/
theorem StateDiff.ofJson_select_none (hp : p "transactionIndex" = false) (d : StateDiff) :
    ofJson R (d.toJson.select p) = none := by
  rw [ofJson, readStruct, toJson, fields_select (by decide) rfl, Option.bind_some]
  exact (fails_required hp).readAll

end Select

/-! ## Blocks -/

/-- A block as a portal sends it that has these fields for items of each kind. -/
def Block.answer (sends : String → String → Bool) (b : Block) : JsonValue :=
  .object (names.zip
    [ b.header.toJson.select (sends "block"),
      .array (b.transactions.map fun tx => tx.toJson.select (sends "transaction")),
      .array (b.stateDiffs.map fun d => d.toJson.select (sends "stateDiff")) ])

def Block.kept (sends : String → String → Bool) (b : Block) : Block where
  header := b.header.kept (sends "block")
  transactions := b.transactions.map (Transaction.kept (sends "transaction"))
  stateDiffs := b.stateDiffs.map (StateDiff.kept (sends "stateDiff"))

section Blocks

variable {R : AlloyReaders} {sends : String → String → Bool}

theorem mapM_map_some {α β γ : Type} {read : β → Option γ} {write : α → β} {g : α → γ}
    (h : ∀ x, read (write x) = some (g x)) (l : List α) :
    (l.map write).mapM read = some (l.map g) := by
  refine Lists.mapM_some_of_forall₂ ?_
  induction l with
  | nil => exact .nil
  | cons x l ih => exact .cons (h x) ih

/-- What of a block is sent is read, if the diffs come with their transactions. -/
theorem Block.ofJson_answer (hR : R.Lawful) (hheader : sends "block" "number" = true)
    (htx : sends "transaction" "transactionIndex" = true) (b : Block) :
    ofJson R (b.answer sends)
      = if b.stateDiffs = [] ∨ sends "stateDiff" "transactionIndex" = true then
          some (b.kept sends)
        else none := by
  have hfields : (b.answer sends).fields names = some
      [ some (b.header.toJson.select (sends "block")),
        some (.array (b.transactions.map fun tx => tx.toJson.select (sends "transaction"))),
        some (.array (b.stateDiffs.map fun d => d.toJson.select (sends "stateDiff"))) ] :=
    fields_object (by decide) rfl
  have htxs := mapM_map_some (Transaction.ofJson_select hR htx) b.transactions
  rw [ofJson, readStruct, hfields, Option.bind_some]
  -- only the index of the transaction decides whether a diff is read
  by_cases hdiff : sends "stateDiff" "transactionIndex" = true
  · have hdiffs := mapM_map_some (StateDiff.ofJson_select hR hdiff) b.stateDiffs
    rw [if_pos (.inr hdiff)]
    refine Reads.readAll ?_
    refine Reads.cons (BlockHeader.ofJson_select hR hheader _) ?_
    refine Reads.cons htxs ?_
    refine Reads.cons hdiffs ?_
    exact Reads.pure _
  · cases hd : b.stateDiffs with
    -- without diffs it is not missed
    | nil =>
        rw [if_pos (.inl rfl)]
        refine Reads.readAll ?_
        refine Reads.cons (BlockHeader.ofJson_select hR hheader _) ?_
        refine Reads.cons htxs ?_
        refine Reads.cons rfl ?_
        have hkept : b.kept sends = ⟨b.header.kept (sends "block"),
            b.transactions.map (Transaction.kept (sends "transaction")), []⟩ := by
          rw [Block.kept, hd, List.map_nil]
        rw [hkept]
        exact Reads.pure _
    | cons d diffs =>
        -- the first diff fails, and with it the whole block
        have hnone := StateDiff.ofJson_select_none (R := R) (Bool.eq_false_of_not_eq_true hdiff) d
        rw [if_neg (by simp [hdiff])]
        refine Fails.readAll ?_
        refine Fails.behind (BlockHeader.ofJson_select hR hheader _) ?_
        refine Fails.behind htxs ?_
        refine Fails.cons [] ?_
        simp only [List.map_cons, List.mapM_cons, hnone]
        rfl

theorem kept_all (b : Block) : b.kept (fun _ _ => true) = b := by
  have htxs : b.transactions.map (Transaction.kept fun _ => true) = b.transactions :=
    List.map_id _
  have hdiffs : b.stateDiffs.map (StateDiff.kept fun _ => true) = b.stateDiffs := List.map_id _
  rw [Block.kept, htxs, hdiffs]
  rfl

theorem select_all (names : List String) (values : List JsonValue) :
    (JsonValue.object (names.zip values)).select (fun _ => true) = .object (names.zip values) := by
  rw [JsonValue.select, List.filter_true]

theorem answer_all (b : Block) : b.answer (fun _ _ => true) = b.toJson := by
  have htxs : b.transactions.map (fun tx => tx.toJson.select fun _ => true)
      = b.transactions.map Transaction.toJson :=
    List.map_congr_left fun tx _ => select_all _ _
  have hdiffs : b.stateDiffs.map (fun d => d.toJson.select fun _ => true)
      = b.stateDiffs.map StateDiff.toJson := List.map_congr_left fun d _ => select_all _ _
  rw [Block.answer, Block.toJson, Block.values, htxs, hdiffs, BlockHeader.toJson, select_all]

/-- **A block is read back as it was written.** -/
theorem Block.ofJson_toJson (hR : R.Lawful) (b : Block) : ofJson R b.toJson = some b := by
  rw [← answer_all, ofJson_answer hR rfl rfl, if_pos (.inr rfl), kept_all]

/-! ## What the queries ask for -/

theorem BlockHeader.replayed_kept {p : String → Bool} (hp : ∀ name ∈ blockFields, p name = true)
    (h : BlockHeader) : (h.kept p).replayed = h.replayed := by
  simp only [replayed, kept, hp "timestamp" (by decide), hp "mixHash" (by decide),
    hp "miner" (by decide), hp "difficulty" (by decide), hp "gasLimit" (by decide),
    hp "baseFeePerGas" (by decide), if_true]

theorem Transaction.replayed_kept {p : String → Bool}
    (hp : ∀ name ∈ transactionFields, p name = true) (tx : Transaction) :
    (tx.kept p).replayed = tx.replayed := by
  simp only [replayed, kept, hp "hash" (by decide), hp "from" (by decide), hp "to" (by decide),
    hp "input" (by decide), hp "value" (by decide), hp "nonce" (by decide), hp "gas" (by decide),
    hp "gasPrice" (by decide), hp "maxFeePerGas" (by decide),
    hp "maxPriorityFeePerGas" (by decide), hp "type" (by decide), if_true]

theorem StateDiff.replayed_kept {p : String → Bool}
    (hp : ∀ name ∈ stateDiffFields, p name = true) (d : StateDiff) :
    (d.kept p).replayed = d.replayed := by
  simp only [replayed, kept, hp "address" (by decide), hp "key" (by decide),
    hp "kind" (by decide), hp "next" (by decide), if_true]

/-- What is read of an answer that has all that the query selects. -/
theorem Block.replayed_ofJson_answer (hR : R.Lawful) {fromBlock : U64} {toBlock : Option U64}
    {stateDiffs : Bool}
    (hsends : ∀ kind name, selects (buildQuery fromBlock toBlock stateDiffs) kind name = true →
      sends kind name = true)
    {b : Block} (hdiffs : stateDiffs = false → b.stateDiffs = []) :
    (Block.ofJson R (b.answer sends)).map Block.replayed
      = if b.stateDiffs = [] ∨ sends "stateDiff" "transactionIndex" = true then some b.replayed
        else none := by
  have hheader : ∀ name ∈ blockFields, sends "block" name = true := fun name h =>
    hsends _ _ (selects_block h)
  have htx : ∀ name ∈ transactionFields, sends "transaction" name = true := fun name h =>
    hsends _ _ (selects_transaction h)
  have hkept : (b.kept sends).replayed = b.replayed := by
    have htxs : (b.transactions.map (Transaction.kept (sends "transaction"))).map
        Transaction.replayed = b.transactions.map Transaction.replayed := by
      rw [List.map_map]
      exact List.map_congr_left fun tx _ => tx.replayed_kept htx
    -- diffs are asked for, or there are none
    have hds : (b.stateDiffs.map (StateDiff.kept (sends "stateDiff"))).map StateDiff.replayed
        = b.stateDiffs.map StateDiff.replayed := by
      cases stateDiffs with
      | false => rw [hdiffs rfl]; rfl
      | true =>
          rw [List.map_map]
          exact List.map_congr_left fun d _ => d.replayed_kept fun name h =>
            hsends _ _ (selects_stateDiff h)
    simp only [Block.replayed, Block.kept, htxs, hds, BlockHeader.replayed_kept hheader]
  rw [Block.ofJson_answer hR (hheader _ (by decide)) (htx _ (by decide))]
  split
  · rw [Option.map_some, hkept]
  · rfl

variable {json : String → Option JsonValue}

/--
**The queries ask for what is replayed, but for one field.** Whatever a portal sends besides
what the query selects, the line of a block is read exactly if the block has no diffs or
they are sent with the index of their transaction, which the query does not ask for. What
is read is, for the replayer, the block.
-/
theorem replayed_answer (hR : R.Lawful) {fromBlock : U64} {toBlock : Option U64}
    {stateDiffs : Bool}
    (hsends : ∀ kind name, selects (buildQuery fromBlock toBlock stateDiffs) kind name = true →
      sends kind name = true)
    {b : Block} (hdiffs : stateDiffs = false → b.stateDiffs = []) {line : String}
    (hline : json line = some (b.answer sends)) :
    fromStr json R line
      = if b.stateDiffs = [] ∨ sends "stateDiff" "transactionIndex" = true then some b.replayed
        else none := by
  rw [fromStr, hline, Option.bind_some]
  exact Block.replayed_ofJson_answer hR hsends hdiffs

/-! ## A page of blocks -/

/-- The JSON library writes this block as one line, an object, and reads it back. -/
structure WritesLine (json : String → Option JsonValue) (text : JsonValue → List Char) (b : Block) :
    Prop where
  back : json (String.ofList (text b.toJson)) = some b.toJson
  oneLine : '\n' ∉ text b.toJson
  object : ∃ cs, text b.toJson = '\x7b' :: (cs ++ ['\x7d'])

variable {text : JsonValue → List Char} {page : List Block}

theorem carries_page (hR : R.Lawful) (hlines : ∀ b ∈ page, WritesLine json text b) :
    Carries (fromStr json R) (page.map fun b => text b.toJson) (page.map Block.replayed) := by
  induction page with
  | nil => exact .nil
  | cons b page ih =>
      have hb := hlines b List.mem_cons_self
      obtain ⟨cs, hcs⟩ := hb.object
      -- a line that is an object has no blanks at its ends
      have htrim : Text.trim (text b.toJson) = text b.toJson := by
        rw [hcs]
        exact Text.trim_of_ends (by decide) (by decide) cs
      refine .block hb.oneLine ?_ ?_ (ih fun b' hb' => hlines b' (List.mem_cons_of_mem b hb'))
      · rw [htrim, hcs]
        rfl
      · rw [htrim, fromStr, hb.back, Option.bind_some, Block.ofJson_toJson hR, Option.map_some]

/--
**What serde writes, a line a block, the fetcher streams.** A page of blocks with all their
fields, each written as one line of JSON, yields in order what the replayer reads of them,
however the page is cut into chunks, and nothing else.
-/
theorem readBody_page (hR : R.Lawful) (hlines : ∀ b ∈ page, WritesLine json text b)
    {chunks : List Bytes}
    (hchunks : chunks.flatten
      = Framing.utf8 (Text.unlines (page.map fun b => text b.toJson))) :
    readBody (fromStr json R) [] (chunks.map Except.ok) {}
      = ({ lastBlock := page.getLast?.map fun b => b.header.number
           gotAny := !page.isEmpty
           yielded := page.map Block.replayed }, .ok ()) := by
  -- the chunks are those of one page, however it is cut
  have hserves : Serves (fromStr json R) (chunks.map Except.ok) (page.map Block.replayed) :=
    ⟨chunks, _, _, rfl, hchunks, carries_page hR hlines, .inl rfl⟩
  have hlast : (page.map Block.replayed).getLast?.map (fun b => b.header.number)
      = page.getLast?.map fun b => b.header.number := by
    rw [List.getLast?_map, Option.map_map]
    rfl
  rw [readBody_serves hserves, hlast, List.isEmpty_map]

end Blocks

/-! ## A page of two blocks -/

/-- The types' readers, as far as strings go. -/
def stringReaders : AlloyReaders where
  b256 v := (readString v).bind B256.parse
  address v := (readString v).bind Address.parse
  bytes v := (readString v).bind decodeHexBytes
  u256 v := (readString v).bind parseU256Hex

theorem lawful_stringReaders : stringReaders.Lawful where
  b256 := ⟨fun v => by simp only [stringReaders, writeB256, readString, Option.bind_some,
    B256.parse_toHex], fun _ => rfl⟩
  address := ⟨fun v => by simp only [stringReaders, writeAddress, readString, Option.bind_some,
    Address.parse_toHex], fun _ => rfl⟩
  bytes := ⟨fun v => by simp only [stringReaders, writeBytes, readString, Option.bind_some,
    decodeHexBytes_bytesToHex], fun _ => rfl⟩
  u256 := ⟨fun v => by simp only [stringReaders, writeU256, readString, Option.bind_some,
    parseU256Hex_toHex], fun _ => rfl⟩

/-- A header's number and a diff's transaction. -/
def diffBlock : Block where
  header := { number := 4 }
  stateDiffs := [{ transactionIndex := 0, key := some "balance" }]

/-- The block behind it has a transaction. -/
def nonceBlock : Block where
  header := { number := 5 }
  transactions := [{ transactionIndex := 0, nonce := some 7 }]

mutual

/-- Compact JSON, as far as it has no escapes, truth values or floats. -/
def writeValue : JsonValue → List Char
  | .posInt n => Nat.toDigits 10 n.toNat
  | .string s => FlatJson.renderString s
  | .array items => '[' :: (writeItems items ++ [']'])
  | .object ms => '\x7b' :: (writeMembers ms ++ ['\x7d'])
  | _ => ['n', 'u', 'l', 'l']

def writeItems : List JsonValue → List Char
  | [] => []
  | [v] => writeValue v
  | v :: vs => writeValue v ++ ',' :: writeItems vs

def writeMembers : List (String × JsonValue) → List Char
  | [] => []
  | [(k, v)] => FlatJson.renderString k ++ ':' :: writeValue v
  | (k, v) :: ms => FlatJson.renderString k ++ ':' :: (writeValue v ++ ',' :: writeMembers ms)

end

/-- A reader that knows the lines of these documents. -/
def knownJson (docs : List JsonValue) (line : String) : Option JsonValue :=
  docs.find? fun doc => line = String.ofList (writeValue doc)

theorem knownJson_head (doc : JsonValue) (docs : List JsonValue) :
    knownJson (doc :: docs) (String.ofList (writeValue doc)) = some doc :=
  List.find?_cons_of_pos (by simp)

/-- What the portal sends of the block when it is asked by the query. -/
def diffAnswer : JsonValue := diffBlock.answer (selects (buildQuery 4 none true))

/-- The query does not ask for the transaction of the diff, and the block is lost. -/
theorem replayed_answer_diff :
    fromStr (knownJson [diffAnswer]) stringReaders (String.ofList (writeValue diffAnswer))
      = none :=
  (replayed_answer lawful_stringReaders (fun _ _ h => h) (by simp) (knownJson_head _ _)).trans
    (if_neg (by decide))

def twoBlocks : List Block := [diffBlock, nonceBlock]

def twoLines : Bytes :=
  Framing.utf8 (Text.unlines (twoBlocks.map fun b => writeValue b.toJson))

theorem writesLine_diff :
    WritesLine (knownJson (twoBlocks.map Block.toJson)) writeValue diffBlock where
  back := knownJson_head _ _
  oneLine := by decide +kernel
  object := ⟨_, by rw [Block.toJson, writeValue]⟩

theorem writesLine_nonce :
    WritesLine (knownJson (twoBlocks.map Block.toJson)) writeValue nonceBlock where
  back := by
    have hother : String.ofList (writeValue nonceBlock.toJson)
        ≠ String.ofList (writeValue diffBlock.toJson) := by decide +kernel
    exact (List.find?_cons_of_neg (by simpa using hother)).trans (knownJson_head _ _)
  oneLine := by decide +kernel
  object := ⟨_, by rw [Block.toJson, writeValue]⟩

/-- The first chunk ends inside the first line, the second one inside the second. -/
theorem readBody_page_twoBlocks :
    readBody (fromStr (knownJson (twoBlocks.map Block.toJson)) stringReaders) []
        ([twoLines.take 20, (twoLines.drop 20).take 700, (twoLines.drop 20).drop 700].map
          Except.ok) {}
      = ({ lastBlock := some 5, gotAny := true, yielded := [diffBlock.replayed, nonceBlock.replayed] },
        .ok ()) := by
  have hlines : ∀ b ∈ twoBlocks,
      WritesLine (knownJson (twoBlocks.map Block.toJson)) writeValue b := by
    intro b hb
    rcases List.mem_pair.mp hb with rfl | rfl
    · exact writesLine_diff
    · exact writesLine_nonce
  have hchunks : [twoLines.take 20, (twoLines.drop 20).take 700,
      (twoLines.drop 20).drop 700].flatten = twoLines := by
    rw [List.flatten_cons, List.flatten_cons, List.flatten_singleton, List.take_append_drop,
      List.take_append_drop]
  exact readBody_page lawful_stringReaders hlines hchunks

end Sqd

end EvmState
