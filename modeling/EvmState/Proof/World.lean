import EvmState.Proof.Diffs

/-!
# State diffs one by one

What a database stands for is a `World`: an account record and a storage for each
address. On worlds the meaning of a diff is plain, and a list of diffs means their
composition, later ones winning.

`apply_state_diffs` does something else. A deletion anywhere in the block discards
the address's other diffs and leaves its storage; a removal of a slot needs a
`next` to be seen; and an address with diffs but nothing to set still gets a
record. `applyStateDiffs_iff` says for which blocks that comes to the same.
-/

namespace EvmState

open Std Lists

/-- What reads of one address answer. -/
@[ext]
structure AccountView where
  account : Except DbError (Option AccountInfo)
  storage : B256 → Except DbError U256

/-- What reads of every address answer. -/
abbrev World := Address → AccountView

/-- The world a database stands for. -/
def StateDb.world (db : StateDb) : World := fun a => ⟨db.getAccount a, db.storageRef a⟩

/-! ## The reference -/

namespace StateDiff

/-- The diff is about the account record. -/
def isField (d : StateDiff) : Bool :=
  d.key == some "nonce" || d.key == some "balance" || d.key == some "code"

/-- The diff sets a field of the account record. -/
def setsField (d : StateDiff) : Bool := d.isField && d.next.isSome

/-- The slot the diff is about. -/
def slot (d : StateDiff) : Option B256 := if d.isField then none else d.key.bind B256.parse

/-- The record with the diff's field set. -/
def setField (keccak256 : Bytes → B256) (info : AccountInfo) (d : StateDiff) : AccountInfo :=
  match d.key, d.next with
  | some "nonce", some next =>
      { info with nonce := (U64.fromStrRadix (hexBody next) 16).getD 0 }
  | some "balance", some next =>
      { info with balance := (U256.fromStrRadix (hexBody next) 16).getD 0 }
  | some "code", some next =>
      match hexDecode (hexBody next) with
      | some bytecode => { info with codeHash := keccak256 bytecode }
      | none => info
  | _, _ => info

/-- What the diff leaves in a slot: a removal, or a value to store. -/
def slotEffect (s : B256) (d : StateDiff) : Option U256 :=
  if d.slot = some s then
    if d.kind == some "-" then some 0
    else d.next.map (fun next => (U256.fromStrRadix (hexBody next) 16).getD 0)
  else none

end StateDiff

/-- One diff of an address. -/
def AccountView.applyDiff (keccak256 : Bytes → B256) (v : AccountView) (d : StateDiff) :
    AccountView :=
  if isDeletion d then ⟨.ok none, fun _ => .ok 0⟩
  else
    { account :=
        if d.setsField then
          v.account.map (fun o => some (d.setField keccak256 (o.getD .zero)))
        else v.account
      storage := fun s => ((d.slotEffect s).map Except.ok).getD (v.storage s) }

/-- One diff of a block. -/
def World.applyDiff (keccak256 : Bytes → B256) (w : World) (d : StateDiff) : World :=
  match d.address with
  | some a => Function.update w a ((w a).applyDiff keccak256 d)
  | none => w

/-- The reference: the block's diffs in list order. -/
def World.applyDiffs (keccak256 : Bytes → B256) (w : World) (diffs : List StateDiff) : World :=
  diffs.foldl (World.applyDiff keccak256) w

/-- Each address sees its own diffs, in the block's order. -/
theorem World.applyDiffs_apply (keccak256 : Bytes → B256) (w : World) (diffs : List StateDiff)
    (a : Address) :
    w.applyDiffs keccak256 diffs a
      = (diffsOf diffs a).foldl (AccountView.applyDiff keccak256) (w a) := by
  refine foldl_project (π := fun w : World => w a) ?_ ?_ diffs w
  · intro w d hd
    have hd : d.address = some a := by simpa using hd
    simp [World.applyDiff, hd]
  · intro w d hd
    cases hb : d.address with
    | none => simp [World.applyDiff, hb]
    | some b =>
        have hne : a ≠ b := by
          intro h
          subst h
          simp [hb] at hd
        simp [World.applyDiff, hb, Function.update_of_ne hne]

section View

variable {keccak256 : Bytes → B256} {v : AccountView} {ds : List StateDiff}

/-- A slot holds what was last left there since the account was last removed. -/
theorem foldl_view_storage (s : B256) :
    (ds.foldl (AccountView.applyDiff keccak256) v).storage s
      = ((lastOf (StateDiff.slotEffect s) (sinceLast isDeletion ds)).map Except.ok).getD
          (if ds.any isDeletion then .ok 0 else v.storage s) := by
  have h := foldl_reset (fun v : AccountView => v.storage s) (AccountView.applyDiff keccak256)
    (f := fun d => (d.slotEffect s).map Except.ok) (p := isDeletion) (z := .ok 0)
    (fun v d hd => by simp [AccountView.applyDiff, hd])
    (fun v d hd => by simp [AccountView.applyDiff, hd]) ds v
  -- the effects are values, the cell holds results of reads
  rw [h, lastOf_map]

theorem setField_of_not_setsField {d : StateDiff} (h : d.setsField = false) (info : AccountInfo) :
    d.setField keccak256 info = info := by
  unfold StateDiff.setField
  split <;> simp_all [StateDiff.setsField, StateDiff.isField]

theorem foldl_setField_of_none (h : ds.any StateDiff.setsField = false) (info : AccountInfo) :
    ds.foldl (StateDiff.setField keccak256) info = info := by
  induction ds with
  | nil => rfl
  | cons d ds ih =>
      rw [List.any_cons, Bool.or_eq_false_iff] at h
      rw [List.foldl_cons, setField_of_not_setsField h.1, ih h.2]

/-- Without removals the fields add up, and the first one creates the record. -/
theorem foldl_view_account {o : Option AccountInfo} (hv : v.account = .ok o)
    (hdel : ds.any isDeletion = false) :
    (ds.foldl (AccountView.applyDiff keccak256) v).account
      = .ok (if ds.any StateDiff.setsField then
          some (ds.foldl (StateDiff.setField keccak256) (o.getD .zero)) else o) := by
  -- what comes last decides, so the list is built up at its end
  induction ds using List.reverseRecOn with
  | nil => simpa using hv
  | append_singleton ds d ih =>
      simp only [List.any_append, List.any_cons, List.any_nil, Bool.or_false,
        Bool.or_eq_false_iff] at hdel
      rw [List.foldl_concat, List.foldl_concat, AccountView.applyDiff, if_neg (by simp [hdel.2]),
        ih hdel.1]
      cases hset : d.setsField with
      | false => simp [hset, setField_of_not_setsField hset]
      | true =>
          cases hany : ds.any StateDiff.setsField with
          | true => simp [hset, hany, Except.map]
          | false => simp [hset, Except.map, foldl_setField_of_none hany]

variable (keccak256 v) in
/-- After a removal the record is back exactly if a field was set since. -/
theorem foldl_view_deleted (hdel : ds.any isDeletion = true) :
    ∃ o, (ds.foldl (AccountView.applyDiff keccak256) v).account = .ok o
      ∧ (o = none ↔ ∀ d ∈ sinceLast isDeletion ds, d.setsField = false) := by
  induction ds using List.reverseRecOn with
  | nil => cases hdel
  | append_singleton ds d ih =>
      rw [List.foldl_concat, AccountView.applyDiff, sinceLast_concat]
      cases hd : isDeletion d with
      | true => exact ⟨none, by simp⟩
      | false =>
          have hds : ds.any isDeletion = true := by simpa [hd] using hdel
          obtain ⟨o, ho, hiff⟩ := ih hds
          cases hset : d.setsField with
          | false => exact ⟨o, by simp [ho], by simp [hiff, or_imp, forall_and, hset]⟩
          | true =>
              exact ⟨some (d.setField keccak256 (o.getD .zero)), by simp [ho, Except.map],
                by simp [or_imp, forall_and, hset]⟩

end View

/-! ## What the code's group leaves -/

section Group

variable {keccak256 : Bytes → B256} {db : StateDb} {a : Address} {ds : List StateDiff}

theorem applyDiff_fst (st : AccountInfo × WriteBatch) (d : StateDiff) :
    (applyDiff keccak256 a st d).1 = d.setField keccak256 st.1 := by
  unfold applyDiff StateDiff.setField
  cases hk : d.key with
  | none => simp
  | some key =>
      cases hn : d.next with
      | none => simp
      | some next =>
          dsimp only
          split
          · simp
          · simp
          · split <;> simp_all
          · split
            · split <;> simp_all
            · simp_all

theorem foldl_applyDiff_fst (st : AccountInfo × WriteBatch) :
    (ds.foldl (applyDiff keccak256 a) st).1 = ds.foldl (StateDiff.setField keccak256) st.1 := by
  induction ds generalizing st with
  | nil => rfl
  | cons d ds ih => rw [List.foldl_cons, List.foldl_cons, ih, applyDiff_fst]

/-- What the code writes to a slot: only a diff with a `next` is seen. -/
def StateDiff.slotWrite (s : B256) (d : StateDiff) : Option U256 :=
  if d.next.isSome then d.slotEffect s else none

/-- A write to a slot leaves it reading `v`. -/
def Stores (u : Option Bytes) (v : U256) : Prop := u = none ∧ v = 0 ∨ u = some (beOf 32 v)

/-- The same as it is stored: nothing where the slot is removed. -/
def StateDiff.slotVal (s : B256) (d : StateDiff) : Option (Option Bytes) :=
  if d.slot = some s then
    d.next.map fun next =>
      if d.kind == some "-" then none
      else some (beOf 32 ((U256.fromStrRadix (hexBody next) 16).getD 0))
  else none

variable (keccak256 a) in
theorem lastVal_diffWrites_slotVal (s : B256) (d : StateDiff) :
    (diffWrites keccak256 a d).lastVal (.slot a s) = d.slotVal s := by
  unfold diffWrites applyDiff StateDiff.slotVal
  cases hn : d.next with
  | none => cases hk : d.key <;> simp
  | some next =>
      cases hk : d.key with
      | none => simp [StateDiff.slot, hk]
      | some key =>
          dsimp only
          split
          · simp [StateDiff.slot, StateDiff.isField, hk]
          · simp [StateDiff.slot, StateDiff.isField, hk]
          · split <;>
              simp [StateDiff.slot, StateDiff.isField, hk, WriteBatch.lastVal_singleton, Write.key]
          · -- a key that is none of the three fields is read as a slot
            rename_i hne₁ hne₂ hne₃
            have hslot : d.slot = B256.parse key := by
              have hkey : ¬ ((key = "nonce" ∨ key = "balance") ∨ key = "code") := by
                intro hx
                rcases hx with (h | h) | h
                · exact hne₁ h
                · exact hne₂ h
                · exact hne₃ h
              simp only [StateDiff.slot, StateDiff.isField, hk, Option.some_beq_some,
                Bool.or_eq_true, beq_iff_eq, hkey, if_false, Option.bind_some]
            rw [hslot]
            cases hp : B256.parse key with
            | none => simp
            | some slot =>
                cases hkind : d.kind == some "-" <;>
                  by_cases hs : slot = s <;>
                  simp [hs, WriteBatch.lastVal_singleton, Write.key, Write.val]

variable (keccak256 a) in
theorem lastVal_diffWrites_slot (s : B256) (d : StateDiff) :
    ((diffWrites keccak256 a d).lastVal (.slot a s) = none ∧ d.slotWrite s = none)
      ∨ ∃ u v, (diffWrites keccak256 a d).lastVal (.slot a s) = some u ∧ d.slotWrite s = some v
        ∧ Stores u v := by
  rw [lastVal_diffWrites_slotVal, StateDiff.slotVal, StateDiff.slotWrite, StateDiff.slotEffect]
  cases hn : d.next with
  | none => simp
  | some next => by_cases hs : d.slot = some s <;> cases d.kind == some "-" <;> simp [hs, Stores]

variable (keccak256 a ds) in
theorem lastVal_flatMap_slot (s : B256) :
    (WriteBatch.lastVal (ds.flatMap (diffWrites keccak256 a)) (.slot a s) = none
        ∧ lastOf (StateDiff.slotWrite s) ds = none)
      ∨ ∃ u v, WriteBatch.lastVal (ds.flatMap (diffWrites keccak256 a)) (.slot a s) = some u
        ∧ lastOf (StateDiff.slotWrite s) ds = some v ∧ Stores u v := by
  induction ds using List.reverseRecOn with
  | nil => exact .inl ⟨rfl, rfl⟩
  | append_singleton ds d ih =>
      rw [List.flatMap_append, List.flatMap_singleton, WriteBatch.lastVal_append, lastOf_concat]
      rcases lastVal_diffWrites_slot keccak256 a s d with
        ⟨h1, h2⟩ | ⟨u, v, h1, h2, h3⟩
      · rw [h1, h2]
        exact ih
      · rw [h1, h2]
        exact .inr ⟨u, v, rfl, rfl, h3⟩

/-- The account record a group leaves. -/
theorem getAccount_group {o : Option AccountInfo} {p : WriteBatch}
    (ho : db.getAccount a = .ok o) (hdel : ds.any isDeletion = false)
    (hp : addressBatch keccak256 db (a, ds) = .ok p) :
    p.lastVal (.account a)
      = some (some (ds.foldl (StateDiff.setField keccak256) (o.getD .zero)).toBytes) := by
  simp only [addressBatch, hdel, Bool.false_eq_true, if_false, ho, Except.ok.injEq] at hp
  rw [← hp, WriteBatch.lastVal_append, WriteBatch.lastVal_singleton, foldl_applyDiff_fst]
  simp [Write.key, Write.val]

theorem storageRef_commit_none {b : WriteBatch} {s : B256} (h : b.lastVal (.slot a s) = none) :
    (db.commit b).storageRef a s = db.storageRef a s := by
  rw [StateDb.storageRef, StateDb.getStorage_commit_none h]
  rfl

/-- The slots a group leaves. -/
theorem storageRef_group {b p : WriteBatch} (hdel : ds.any isDeletion = false)
    (hp : addressBatch keccak256 db (a, ds) = .ok p) (s : B256)
    (hb : b.lastVal (.slot a s) = p.lastVal (.slot a s)) :
    (db.commit b).storageRef a s
      = ((lastOf (StateDiff.slotWrite s) ds).map Except.ok).getD (db.storageRef a s) := by
  have hpart : p.lastVal (.slot a s)
      = WriteBatch.lastVal (ds.flatMap (diffWrites keccak256 a)) (.slot a s) := by
    simp only [addressBatch, hdel, Bool.false_eq_true, if_false] at hp
    split at hp
    · rw [← Except.ok.inj hp, foldl_applyDiff_snd, WriteBatch.lastVal_append,
        WriteBatch.lastVal_singleton, if_neg (by simp [Write.key]), Option.none_or,
        List.nil_append]
    · cases hp
  rw [hpart] at hb
  rcases lastVal_flatMap_slot keccak256 a ds s with
    ⟨h1, h2⟩ | ⟨u, v, h1, h2, h3⟩
  · rw [h1] at hb
    rw [h2, storageRef_commit_none hb]
    rfl
  · rw [h1] at hb
    rw [h2, StateDb.storageRef]
    rcases h3 with ⟨rfl, rfl⟩ | rfl
    · rw [StateDb.getStorage_commit_deleted hb]
      rfl
    · rw [StateDb.getStorage_commit_set hb]
      rfl

end Group

/-! ## When the two agree -/

/-- The last diff that leaves anything in a slot. -/
def lastOn (s : B256) (ds : List StateDiff) : Option StateDiff :=
  lastOf (fun d => if (d.slotEffect s).isSome then some d else none) ds

/--
The groups the code gets right. In a group with a removal nothing may be set
after it, and the slots have to read already what the removal and the slot diffs
behind it leave. In a group without one the record has to be there or be set, and
a slot whose last diff is a removal without a `next` has to read zero without it.
-/
def GroupAgrees (db : StateDb) (a : Address) (ds : List StateDiff) : Prop :=
  if ds.any isDeletion then
    (∀ d ∈ sinceLast isDeletion ds, d.setsField = false)
      ∧ ∀ s, db.storageRef a s
          = .ok ((lastOf (StateDiff.slotEffect s) (sinceLast isDeletion ds)).getD 0)
  else
    (match db.getAccount a with
      | .ok (some _) => True
      | .ok none => ds.any StateDiff.setsField = true
      | .error _ => False)
      ∧ ∀ s d, lastOn s ds = some d → d.next = none →
          ((lastOf (StateDiff.slotWrite s) ds).map Except.ok).getD (db.storageRef a s) = .ok 0

/-- The last diff on a slot decides whether the code sees what the reference sees. -/
theorem lastOf_slotWrite_iff {ds : List StateDiff} {s : B256} {base : Except DbError U256} :
    ((lastOf (StateDiff.slotWrite s) ds).map Except.ok).getD base
        = ((lastOf (StateDiff.slotEffect s) ds).map Except.ok).getD base
      ↔ ∀ d, lastOn s ds = some d → d.next = none →
          ((lastOf (StateDiff.slotWrite s) ds).map Except.ok).getD base = .ok 0 := by
  unfold lastOn
  induction ds using List.reverseRecOn with
  | nil => simp
  | append_singleton ds d ih =>
      simp only [lastOf_concat]
      cases he : d.slotEffect s with
      | none =>
          have hw : d.slotWrite s = none := by simp [StateDiff.slotWrite, he]
          simpa [hw, he] using ih
      | some v =>
          cases hn : d.next with
          | none =>
              have hw : d.slotWrite s = none := by simp [StateDiff.slotWrite, hn]
              have hv : v = 0 := by
                unfold StateDiff.slotEffect at he
                split at he
                · split at he
                  · exact (Option.some.inj he).symm
                  · simp [hn] at he
                · cases he
              simp [hw, hn, hv]
          | some next =>
              have hw : d.slotWrite s = some v := by simp [StateDiff.slotWrite, hn, he]
              simp [hw, hn]

section Batch

variable {keccak256 : Bytes → B256} {σ : HashOrder} {db : StateDb} {block : Block} {b : WriteBatch}
  {a : Address}

/-- An address without diffs reads as before, in both. -/
theorem world_commit_none (h : diffBatch keccak256 σ db block = .ok b)
    (ha : diffsOf block.stateDiffs a = []) :
    (db.commit b).world a = db.world.applyDiffs keccak256 block.stateDiffs a := by
  rw [World.applyDiffs_apply, ha]
  refine AccountView.ext ?_ (funext fun s => ?_)
  · exact StateDb.getAccount_commit_none (lastVal_diffBatch_none h ha rfl)
  · exact storageRef_commit_none (lastVal_diffBatch_none h ha rfl)

/-- A group with a removal. -/
theorem world_commit_deleted_iff (h : diffBatch keccak256 σ db block = .ok b)
    (hdel : (diffsOf block.stateDiffs a).any isDeletion = true) :
    (db.commit b).world a = db.world.applyDiffs keccak256 block.stateDiffs a
      ↔ GroupAgrees db a (diffsOf block.stateDiffs a) := by
  have ha : diffsOf block.stateDiffs a ≠ [] := by
    intro hnil
    rw [hnil] at hdel
    cases hdel
  have hp : addressBatch keccak256 db (a, diffsOf block.stateDiffs a) = .ok [.deleteAccount a] := by
    rw [addressBatch, if_pos hdel]
  obtain ⟨o, ho, hnone⟩ := foldl_view_deleted keccak256 (db.world a) hdel
  have hacct : ((db.commit b).world a).account = .ok none :=
    StateDb.getAccount_commit_deleted
      (by rw [lastVal_diffBatch h ha hp rfl, WriteBatch.lastVal_singleton]; simp [Write.key, Write.val])
  -- the batch names no slot of the account, so its storage stays
  have hslot : ∀ s, ((db.commit b).world a).storage s = db.storageRef a s := fun s =>
    storageRef_commit_none
      (by rw [lastVal_diffBatch h ha hp rfl, WriteBatch.lastVal_singleton]; simp [Write.key])
  rw [World.applyDiffs_apply, AccountView.ext_iff, hacct, ho, funext_iff, GroupAgrees, if_pos hdel]
  -- the record and each slot are compared on their own
  refine and_congr ?_ (forall_congr' fun s => ?_)
  · rw [← hnone, Except.ok.injEq, eq_comm]
  · rw [hslot, foldl_view_storage, if_pos hdel]
    cases lastOf (StateDiff.slotEffect s) (sinceLast isDeletion (diffsOf block.stateDiffs a)) <;> rfl

/-- A group without one. -/
theorem world_commit_kept_iff (h : diffBatch keccak256 σ db block = .ok b)
    (ha : diffsOf block.stateDiffs a ≠ [])
    (hdel : (diffsOf block.stateDiffs a).any isDeletion = false) :
    (db.commit b).world a = db.world.applyDiffs keccak256 block.stateDiffs a
      ↔ GroupAgrees db a (diffsOf block.stateDiffs a) := by
  obtain ⟨p, hp⟩ := diffBatch_ok_iff.mp ⟨b, h⟩ a ha
  obtain ⟨o, ho⟩ : ∃ o, db.getAccount a = .ok o := by
    simp only [addressBatch, hdel, Bool.false_eq_true, if_false] at hp
    split at hp
    · rename_i o ho
      exact ⟨o, ho⟩
    · cases hp
  have hacct : ((db.commit b).world a).account
      = .ok (some ((diffsOf block.stateDiffs a).foldl (StateDiff.setField keccak256)
          (o.getD .zero))) :=
    StateDb.getAccount_commit_set
      (by rw [lastVal_diffBatch h ha hp rfl, getAccount_group ho hdel hp])
  have hslot := fun s => storageRef_group hdel hp s (lastVal_diffBatch h ha hp rfl)
  rw [World.applyDiffs_apply, AccountView.ext_iff, hacct, funext_iff,
    foldl_view_account (v := db.world a) ho hdel, GroupAgrees, hdel,
    if_neg Bool.false_ne_true, ho]
  -- the code always writes a record; the reference only if some field is set
  refine and_congr ?_ (forall_congr' fun s => ?_)
  · cases hany : (diffsOf block.stateDiffs a).any StateDiff.setsField with
    | true => cases o <;> simp
    | false =>
        rw [foldl_setField_of_none hany]
        cases o <;> simp
  · rw [← lastOf_slotWrite_iff, foldl_view_storage, hdel, sinceLast_of_not_any hdel]
    exact Eq.congr_left (hslot s)

end Batch

/--
**When `apply_state_diffs` is the diffs one by one.** It succeeds, leaves the world
of the reference and moves the head to the block exactly when the code gets the
group of every address right.
-/
theorem applyStateDiffs_iff (keccak256 : Bytes → B256) (σ : HashOrder) (db : StateDb)
    (block : Block) :
    (∃ db', applyStateDiffs keccak256 σ db block = .ok db'
        ∧ db'.world = db.world.applyDiffs keccak256 block.stateDiffs
        ∧ db'.getHeadBlock = .ok (some block.header.number))
      ↔ ∀ a, diffsOf block.stateDiffs a ≠ [] → GroupAgrees db a (diffsOf block.stateDiffs a) := by
  constructor
  · intro h a ha
    obtain ⟨db', happly, hworld, _⟩ := h
    obtain ⟨b, hb, rfl⟩ := diffBatch_of_applyStateDiffs happly
    have hworld := congrFun hworld a
    cases hdel : (diffsOf block.stateDiffs a).any isDeletion with
    | true => exact (world_commit_deleted_iff hb hdel).mp hworld
    | false => exact (world_commit_kept_iff hb ha hdel).mp hworld
  · intro hall
    -- only a record that does not decode stops the batch, and `GroupAgrees` rules it out
    have hok : ∃ b, diffBatch keccak256 σ db block = .ok b := by
      refine diffBatch_ok_iff.mpr fun a ha => ?_
      have hagree := hall a ha
      unfold GroupAgrees at hagree
      unfold addressBatch
      split at hagree
      · rename_i hdel
        exact ⟨_, if_pos hdel⟩
      · rename_i hdel
        rw [if_neg hdel]
        split
        · exact ⟨_, rfl⟩
        · rename_i err herr
          rw [herr] at hagree
          exact absurd hagree.1 id
    obtain ⟨b, hb⟩ := hok
    refine ⟨db.commit b, by rw [applyStateDiffs, hb], funext fun a => ?_,
      StateDb.getHeadBlock_commit_set (lastVal_diffBatch_head hb)⟩
    by_cases ha : diffsOf block.stateDiffs a = []
    · exact world_commit_none hb ha
    · cases hdel : (diffsOf block.stateDiffs a).any isDeletion with
      | true => exact (world_commit_deleted_iff hb hdel).mpr (hall a ha)
      | false => exact (world_commit_kept_iff hb ha hdel).mpr (hall a ha)

/-- A contract with one slot in use. -/
def recreatedDb : StateDb :=
  StateDb.empty.commit [.setAccount 0xC ⟨1, 0, 0xC0DE⟩, .setStorage 0xC 1 7]

/-- It is removed and created again in one block. -/
def recreatedBlock : Block where
  header := { number := 20 }
  stateDiffs :=
    [{ address := some 0xC, key := some "nonce", kind := some "-" },
      { address := some 0xC, key := some "nonce", kind := some "+", next := some "0x1" }]

/-- The new account is lost, and the old one's slot is kept. -/
theorem applyStateDiffs_loses_recreation :
    let keccak256 := fun _ => KECCAK256_EMPTY
    let after := applyStateDiffs keccak256 .sorted recreatedDb recreatedBlock
    let reference := recreatedDb.world.applyDiffs keccak256 recreatedBlock.stateDiffs
    after.map (fun db => db.getAccount 0xC) = .ok (.ok none)
      ∧ (reference 0xC).account = .ok (some ⟨1, 0, 0⟩)
      ∧ after.map (fun db => db.storageRef 0xC 1) = .ok (.ok 7)
      ∧ (reference 0xC).storage 1 = .ok 0
      ∧ ¬ ∃ db', after = .ok db' ∧ db'.world = reference
        ∧ db'.getHeadBlock = .ok (some recreatedBlock.header.number) := by
  intro keccak256 after reference
  have hcode : after.map (fun db => db.getAccount 0xC) = .ok (.ok none) := by decide
  have href : (reference 0xC).account = .ok (some ⟨1, 0, 0⟩) := by decide
  refine ⟨hcode, href, by decide, by decide, ?_⟩
  intro hx
  obtain ⟨db', h, hworld, _⟩ := hx
  rw [h, Except.map, Except.ok.injEq] at hcode
  have := congrArg AccountView.account (congrFun hworld 0xC)
  rw [href] at this
  exact absurd (hcode.symm.trans this) (by decide)

end EvmState
