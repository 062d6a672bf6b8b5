import EvmState.Proof.StateDb
import EvmState.Revm

/-!
# The database as typed maps

What a `StateDb` stands for is three finite maps and an optional head, `TypedMaps`.
`Refines` says that the bytes in the column families are those maps encoded. One
write keeps it (`Refines.commit_singleton`), so every batch does, and so does a session of
direct writes and batches that are filled side by side and committed or dropped
(`Session.run_matches`). The byte encodings keep the order of keys, which is why
the iterators walk the tables in the order of the maps.
-/

namespace EvmState

open Std Radix

/-- What the database holds, decoded. -/
structure TypedMaps where
  accounts : Table Address AccountInfo
  storage : Table (Address × U256) U256
  code : Table B256 Bytes
  head : Option U64

namespace TypedMaps

def empty : TypedMaps := ⟨∅, ∅, ∅, none⟩

/-- One write, on the maps. -/
def apply (m : TypedMaps) : Write → TypedMaps
  | .setAccount a info => { m with accounts := m.accounts.insert a info }
  | .setStorage a s v => { m with storage := m.storage.insert (a, s) v }
  | .setCode h b => { m with code := m.code.insert h b }
  | .setHeadBlock n => { m with head := some n }
  | .deleteAccount a => { m with accounts := m.accounts.erase a }
  | .deleteStorage a s => { m with storage := m.storage.erase (a, s) }

/-- What a delete reports: whether the maps hold what it is about. -/
def existed (m : TypedMaps) : Write → Option Bool
  | .deleteAccount a => some m.accounts[a]?.isSome
  | .deleteStorage a s => some m.storage[(a, s)]?.isSome
  | _ => none

/-- The bytes a key should hold. -/
def value (m : TypedMaps) : Key → Option Bytes
  | .account a => m.accounts[a]?.map AccountInfo.toBytes
  | .slot a s => m.storage[(a, s)]?.map (beOf 32)
  | .code h => m.code[h]?
  | .headBlock => m.head.map (beOf 8)

/-- A write is seen at its own key and nowhere else. -/
theorem value_apply (m : TypedMaps) (w : Write) (k : Key) :
    (m.apply w).value k = if w.key = k then w.val else m.value k := by
  cases w <;> cases k <;>
    simp only [apply, value, Write.key, Write.val, Key.account.injEq, Key.slot.injEq,
      Key.code.injEq, reduceCtorEq, if_false, if_true, Option.map_some]
  · rename_i a info a'
    by_cases h : a = a' <;> simp [ExtTreeMap.getElem?_insert, h]
  · rename_i a s v a' s'
    by_cases h : a = a' ∧ s = s' <;> simp [ExtTreeMap.getElem?_insert, h]
  · rename_i c b c'
    by_cases h : c = c' <;> simp [ExtTreeMap.getElem?_insert, h]
  · rename_i a a'
    by_cases h : a = a' <;> simp [ExtTreeMap.getElem?_erase, h]
  · rename_i a s a' s'
    by_cases h : a = a' ∧ s = s' <;> simp [ExtTreeMap.getElem?_erase, h]

end TypedMaps

/-- The column families hold the maps, encoded. -/
structure Refines (db : StateDb) (m : TypedMaps) : Prop where
  wf : db.WellFormed
  value : ∀ k, db.getCf k = m.value k

theorem refines_empty : Refines .empty .empty := by
  refine ⟨StateDb.wellFormed_empty, fun k => ?_⟩
  cases k <;> simp [StateDb.getCf, StateDb.empty, TypedMaps.value, TypedMaps.empty]

namespace Refines

variable {db : StateDb} {m : TypedMaps}

theorem commit_singleton (h : Refines db m) (w : Write) : Refines (db.commit [w]) (m.apply w) := by
  refine ⟨StateDb.wellFormed_commit h.wf _, fun k => ?_⟩
  rw [StateDb.getCf_commit, WriteBatch.lastVal_singleton, TypedMaps.value_apply, h.value]
  by_cases hk : w.key = k <;> simp [hk]

/-- A batch acts as its operations, in order. -/
theorem commit (h : Refines db m) (b : WriteBatch) :
    Refines (db.commit b) (b.foldl TypedMaps.apply m) := by
  induction b generalizing db m with
  | nil => exact h
  | cons w b ih =>
      rw [← List.singleton_append, StateDb.commit_append, List.singleton_append, List.foldl_cons]
      exact ih (h.commit_singleton w)

/-! ## Reads -/

theorem getAccount (h : Refines db m) (a : Address) : db.getAccount a = .ok m.accounts[a]? := by
  rw [StateDb.getAccount, h.value, TypedMaps.value]
  cases m.accounts[a]? <;> simp

theorem getStorage (h : Refines db m) (a : Address) (s : B256) :
    db.getStorage a s = .ok m.storage[(a, s)]? := by
  rw [StateDb.getStorage, h.value, TypedMaps.value]
  cases m.storage[(a, s)]? <;> simp [ofBe_beOf]

theorem getCode (h : Refines db m) (c : B256) : db.getCode c = m.code[c]? := h.value (.code c)

theorem getHeadBlock (h : Refines db m) : db.getHeadBlock = .ok m.head := by
  rw [StateDb.getHeadBlock, h.value, TypedMaps.value]
  cases m.head <;> simp [ofBe_beOf]

/-- A delete reports what the maps hold. -/
theorem existed_account (h : Refines db m) (a : Address) :
    (db.getCf (.account a)).isSome = m.accounts[a]?.isSome := by
  rw [h.value, TypedMaps.value, Option.isSome_map]

theorem existed_slot (h : Refines db m) (a : Address) (s : B256) :
    (db.getCf (.slot a s)).isSome = m.storage[(a, s)]?.isSome := by
  rw [h.value, TypedMaps.value, Option.isSome_map]

/-! ## Iteration -/

theorem iterAccounts (h : Refines db m) : db.iterAccounts = .ok m.accounts.toList := by
  obtain ⟨accounts, hacc, hmem⟩ := h.wf.iterAccounts_ok
  have hrows := Lists.forall₂_of_mapM_ok hacc
  -- rows come in the order of their bytes, which is that of the addresses they encode
  have hsorted : accounts.Pairwise (fun x y => compare x.1 y.1 = .lt) := by
    refine Lists.pairwise_of_forall₂ hrows (ExtTreeMap.ordered_keys_toList.filter _) ?_
    intro x hx y hy b c hb hc hlt
    have hx20 : x.1.length = 20 := by simpa using (List.mem_filter.mp hx).2
    have hy20 : y.1.length = 20 := by simpa using (List.mem_filter.mp hy).2
    have hkey : ∀ {e r}, StateDb.accountEntry e = .ok r → r.1 = ofBe 160 e.1 := by
      intro e r hr
      unfold StateDb.accountEntry at hr
      split at hr
      · exact (Except.ok.inj hr) ▸ rfl
      · cases hr
    rw [hkey hb, hkey hc, ← compare_beOf (w := 20) (by omega), beOf_ofBe (by omega) hx20,
      beOf_ofBe (by omega) hy20]
    exact hlt
  rw [hacc, Tables.eq_toList hsorted fun a i => ?_]
  rw [hmem, h.value, TypedMaps.value, Option.map_eq_some_iff]
  constructor
  · intro hi
    obtain ⟨i', hi', heq⟩ := hi
    -- one record has one encoding, so equal bytes hold equal accounts
    have := congrArg AccountInfo.fromBytes heq
    simp only [AccountInfo.fromBytes_toBytes, Except.ok.injEq] at this
    rw [hi', this]
  · intro hi
    exact ⟨i, hi, rfl⟩

/-- Storage keys are ordered by address, then by slot. -/
theorem compare_storageKey (a a' : Address) (s s' : B256) :
    compare (storageKey a s) (storageKey a' s') = compare (a, s) (a', s') := by
  rw [storageKey, storageKey, compare_append _ _ (by simp), compare_beOf (by omega),
    compare_beOf (by omega)]
  rfl

theorem iterStorage (h : Refines db m) :
    db.iterStorage = m.storage.toList.map (fun e => (e.1.1, e.1.2, e.2)) := by
  -- the triples, with address and slot taken together as one key
  have hpairs : db.iterStorage.map (fun r => ((r.1, r.2.1), r.2.2)) = m.storage.toList := by
    refine Tables.eq_toList ?_ fun k v => ?_
    · rw [StateDb.iterStorage, List.map_map, List.pairwise_map]
      refine List.Pairwise.imp_of_mem ?_ (ExtTreeMap.ordered_keys_toList.filter _)
      intro x y hx hy hlt
      have hkey : ∀ {e : Bytes × Bytes}, e ∈ (db.cf .storage).toList.filter
          (fun e => e.1.length = 52 ∧ e.2.length = 32) →
          storageKey (ofBe 160 (e.1.take 20)) (ofBe 256 (e.1.drop 20)) = e.1 := by
        intro e he
        have hlen : e.1.length = 52 := by simpa using (of_decide_eq_true (List.mem_filter.mp he).2).1
        rw [storageKey, beOf_ofBe (by omega) (by simp [hlen]), beOf_ofBe (by omega) (by simp [hlen]),
          List.take_append_drop]
      rw [← hkey hx, ← hkey hy, compare_storageKey] at hlt
      exact hlt
    · rw [List.mem_map]
      constructor
      · intro hr
        obtain ⟨r, hr, heq⟩ := hr
        obtain ⟨rfl, rfl⟩ := Prod.mk.inj heq
        have := StateDb.mem_iterStorage.mp hr
        rw [h.value, TypedMaps.value, Option.map_eq_some_iff] at this
        obtain ⟨v, hv, hb⟩ := this
        rw [hv, beOf_inj (by omega) hb]
      · intro hv
        refine ⟨(k.1, k.2, v), StateDb.mem_iterStorage.mpr ?_, rfl⟩
        rw [h.value, TypedMaps.value, hv, Option.map_some]
  rw [← hpairs, List.map_map]
  exact (List.map_id _).symm

theorem iterCode (h : Refines db m) : db.iterCode = m.code.toList := by
  refine Tables.eq_toList ?_ fun k v => ?_
  · rw [StateDb.iterCode, List.pairwise_map]
    refine List.Pairwise.imp_of_mem ?_ (ExtTreeMap.ordered_keys_toList.filter _)
    intro x y hx hy hlt
    have hx32 : x.1.length = 32 := by simpa using (List.mem_filter.mp hx).2
    have hy32 : y.1.length = 32 := by simpa using (List.mem_filter.mp hy).2
    rw [← compare_beOf (w := 32) (by omega), beOf_ofBe (by omega) hx32,
      beOf_ofBe (by omega) hy32]
    exact hlt
  · rw [StateDb.mem_iterCode, h.value, TypedMaps.value]

end Refines

/-! ## Sessions -/

/-- What a user of a database may do; batches are numbered. -/
inductive DbOp where
  | write (w : Write)
  | push (i : Nat) (w : Write)
  | commit (i : Nat)
  | drop (i : Nat)
deriving DecidableEq, Repr

/-- A database and the batches being filled. -/
structure Session where
  db : StateDb
  batches : Nat → WriteBatch

/-- A write of its own, with what it returns. -/
def StateDb.write (db : StateDb) : Write → Option Bool × StateDb
  | .setAccount a info => (none, db.setAccount a info)
  | .setStorage a s v => (none, db.setStorage a s v)
  | .setCode h b => (none, db.setCode h b)
  | .setHeadBlock n => (none, db.setHeadBlock n)
  | .deleteAccount a => ((db.deleteAccount a).map some id)
  | .deleteStorage a s => ((db.deleteStorage a s).map some id)

/-- The same operation of a batch. -/
def WriteBatch.push (b : WriteBatch) (db : StateDb) : Write → Option Bool × WriteBatch
  | .deleteAccount a => ((b.deleteAccount db a).map some id)
  | .deleteStorage a s => ((b.deleteStorage db a s).map some id)
  | w => (none, b ++ [w])

namespace Session

def start (db : StateDb) : Session := ⟨db, fun _ => []⟩

def step (s : Session) : DbOp → Option Bool × Session
  | .write w => ((s.db.write w).1, { s with db := (s.db.write w).2 })
  | .push i w =>
      (((s.batches i).push s.db w).1,
        { s with batches := Function.update s.batches i ((s.batches i).push s.db w).2 })
  | .commit i => (none, ⟨s.db.commit (s.batches i), Function.update s.batches i []⟩)
  | .drop i => (none, { s with batches := Function.update s.batches i [] })

/-- A session, with what each operation returned. -/
def run (s : Session) : List DbOp → List (Option Bool) × Session
  | [] => ([], s)
  | op :: ops => ((s.step op).1 :: ((s.step op).2.run ops).1, ((s.step op).2.run ops).2)

end Session

/-- The same over typed maps: a batch is its operations, kept until they count. -/
structure RefSession where
  maps : TypedMaps
  batches : Nat → List Write

namespace RefSession

def empty : RefSession := ⟨.empty, fun _ => []⟩

def step (r : RefSession) : DbOp → Option Bool × RefSession
  | .write w => (r.maps.existed w, { r with maps := r.maps.apply w })
  | .push i w =>
      (r.maps.existed w, { r with batches := Function.update r.batches i (r.batches i ++ [w]) })
  | .commit i =>
      (none, ⟨(r.batches i).foldl TypedMaps.apply r.maps, Function.update r.batches i []⟩)
  | .drop i => (none, { r with batches := Function.update r.batches i [] })

def run (r : RefSession) : List DbOp → List (Option Bool) × RefSession
  | [] => ([], r)
  | op :: ops => ((r.step op).1 :: ((r.step op).2.run ops).1, ((r.step op).2.run ops).2)

end RefSession

section Writes

variable {db : StateDb} {m : TypedMaps}

theorem StateDb.write_refines (h : Refines db m) (w : Write) :
    (db.write w).1 = m.existed w ∧ Refines (db.write w).2 (m.apply w) := by
  have hset := h.commit_singleton w
  cases w with
  | setAccount a info => exact ⟨rfl, hset⟩
  | setStorage a s v => exact ⟨rfl, hset⟩
  | setCode c b => exact ⟨rfl, hset⟩
  | setHeadBlock n => exact ⟨rfl, hset⟩
  | deleteAccount a =>
      have he := h.existed_account a
      simp only [StateDb.write, StateDb.deleteAccount, TypedMaps.existed]
      cases hm : m.accounts[a]? with
      | some i =>
          rw [hm] at he
          simp only [he, Option.isSome_some, if_true]
          exact ⟨rfl, hset⟩
      | none =>
          -- nothing to delete, in the maps as in the database
          rw [hm] at he
          simp only [he, Option.isSome_none, Bool.false_eq_true, if_false]
          refine ⟨rfl, ?_⟩
          have : m.accounts.erase a = m.accounts := by
            refine ExtTreeMap.ext_getElem? fun a' => ?_
            rw [ExtTreeMap.getElem?_erase]
            by_cases ha : a = a' <;> simp [ha, ← hm]
          simp only [TypedMaps.apply, this]
          exact h
  | deleteStorage a s =>
      have he := h.existed_slot a s
      simp only [StateDb.write, StateDb.deleteStorage, TypedMaps.existed]
      cases hm : m.storage[(a, s)]? with
      | some v =>
          rw [hm] at he
          simp only [he, Option.isSome_some, if_true]
          exact ⟨rfl, hset⟩
      | none =>
          rw [hm] at he
          simp only [he, Option.isSome_none, Bool.false_eq_true, if_false]
          refine ⟨rfl, ?_⟩
          have : m.storage.erase (a, s) = m.storage := by
            refine ExtTreeMap.ext_getElem? fun k => ?_
            rw [ExtTreeMap.getElem?_erase]
            by_cases hk : (a, s) = k <;> simp [hk, ← hm]
          simp only [TypedMaps.apply, this]
          exact h

theorem WriteBatch.push_refines (h : Refines db m) (b : WriteBatch) (w : Write) :
    b.push db w = (m.existed w, b ++ [w]) := by
  cases w with
  | setAccount a info => rfl
  | setStorage a s v => rfl
  | setCode c b => rfl
  | setHeadBlock n => rfl
  | deleteAccount a =>
      simp only [WriteBatch.push, WriteBatch.deleteAccount, TypedMaps.existed, ← h.existed_account a]
      rfl
  | deleteStorage a s =>
      simp only [WriteBatch.push, WriteBatch.deleteStorage, TypedMaps.existed, ← h.existed_slot a s]
      rfl

end Writes

namespace Session

/-- The database refines the maps, and the batches are the same operations. -/
structure Matches (s : Session) (r : RefSession) : Prop where
  refines : Refines s.db r.maps
  batches : s.batches = r.batches

theorem step_matches {s : Session} {r : RefSession} (h : s.Matches r) (op : DbOp) :
    (s.step op).1 = (r.step op).1 ∧ (s.step op).2.Matches (r.step op).2 := by
  cases op with
  | write w =>
      obtain ⟨hret, hw⟩ := StateDb.write_refines h.refines w
      exact ⟨hret, hw, h.batches⟩
  | push i w =>
      -- what `push` returns is read off the database, not off the batch: a delete reports it
      have hp := WriteBatch.push_refines h.refines (s.batches i) w
      refine ⟨congrArg Prod.fst hp, h.refines, ?_⟩
      simp only [step, RefSession.step, hp, ← h.batches]
  | commit i =>
      refine ⟨rfl, ?_, by simp only [step, RefSession.step, h.batches]⟩
      simp only [step, RefSession.step, h.batches]
      exact h.refines.commit (r.batches i)
  | drop i => exact ⟨rfl, h.refines, by simp only [step, RefSession.step, h.batches]⟩

theorem run_matches {s : Session} {r : RefSession} (h : s.Matches r) (ops : List DbOp) :
    (s.run ops).1 = (r.run ops).1 ∧ (s.run ops).2.Matches (r.run ops).2 := by
  induction ops generalizing s r with
  | nil => exact ⟨rfl, h⟩
  | cons op ops ih =>
      obtain ⟨hret, hs⟩ := step_matches h op
      obtain ⟨hrets, hrun⟩ := ih hs
      exact ⟨by simp only [run, RefSession.run, hret, hrets], hrun⟩

end Session

/-- Every read answers from the maps, and every iteration lists them in key order. -/
structure ReadsAs (db : StateDb) (m : TypedMaps) : Prop where
  account : ∀ a, db.getAccount a = .ok m.accounts[a]?
  storage : ∀ a s, db.getStorage a s = .ok m.storage[(a, s)]?
  code : ∀ h, db.getCode h = m.code[h]?
  head : db.getHeadBlock = .ok m.head
  iterAccounts : db.iterAccounts = .ok m.accounts.toList
  iterStorage : db.iterStorage = m.storage.toList.map (fun e => (e.1.1, e.1.2, e.2))
  iterCode : db.iterCode = m.code.toList
  accountsAscend : m.accounts.toList.Pairwise (fun x y => compare x.1 y.1 = .lt)
  storageAscends : m.storage.toList.Pairwise (fun x y => compare x.1 y.1 = .lt)
  codeAscends : m.code.toList.Pairwise (fun x y => compare x.1 y.1 = .lt)

theorem Refines.readsAs {db : StateDb} {m : TypedMaps} (h : Refines db m) : ReadsAs db m where
  account := h.getAccount
  storage := h.getStorage
  code := h.getCode
  head := h.getHeadBlock
  iterAccounts := h.iterAccounts
  iterStorage := h.iterStorage
  iterCode := h.iterCode
  accountsAscend := ExtTreeMap.ordered_keys_toList
  storageAscends := ExtTreeMap.ordered_keys_toList
  codeAscends := ExtTreeMap.ordered_keys_toList

/--
**The database is its typed maps.** After any session on a new database, with
writes, batches pushed to in any interleaving, commits and drops, every operation
has returned what it does on the maps and every read answers from them.
-/
theorem session_refines (ops : List DbOp) :
    ((Session.start .empty).run ops).1 = (RefSession.empty.run ops).1
      ∧ ReadsAs ((Session.start .empty).run ops).2.db (RefSession.empty.run ops).2.maps := by
  have hstart : (Session.start .empty).Matches .empty := ⟨refines_empty, rfl⟩
  obtain ⟨hret, hm⟩ := Session.run_matches hstart ops
  exact ⟨hret, hm.refines.readsAs⟩

end EvmState
