import Mathlib.Data.List.Perm.Basic
import EvmState.Lib.Dialogue
import EvmState.StateDb
import EvmState.ChainSpec

/-!
# What the crates use of revm

revm is not part of the repository, so it enters as a parameter, `Evm`: the two
executions the crates start, and the two ways its `CacheDB` overlay changes. What
is fixed here is only what the repository itself looks at.

* An execution is a `Dialogue`: all it learns of the world are the answers of the
  database it runs on, and before each opcode it shows its interpreter to whoever
  inspects it.
* The overlay is the data the replayer walks when it flushes: account entries
  with their `AccountState`, cached slots, and contracts by hash. Its reads are
  `Cache.basic`, `Cache.storage` and `Cache.codeByHash`.
* `Loaded` and `Committed` say what a read and a commit may do to that data.
-/

namespace EvmState

open Std

/-! ## Hash maps -/

/-- The contents of a hash map. The order it is walked in is a `HashOrder`. -/
abbrev HashMap (κ ν : Type) [Ord κ] := ExtTreeMap κ ν compare

/-- The key of a cached slot; the order is of no consequence. -/
instance : Ord (Address × U256) := lexOrd

instance : TransOrd (Address × U256) := instTransOrdProd

/-- The order in which hash maps happen to be walked: any permutation, for any map. -/
structure HashOrder where
  iter : {α : Type} → List α → List α
  perm : ∀ {α : Type} (l : List α), (iter l).Perm l

namespace HashOrder

/-- Walking hash maps in key order, for definite examples. -/
def sorted : HashOrder := ⟨fun l => l, fun l => .refl l⟩

/-- The entries of a map in the order it is walked. -/
def entries {κ ν : Type} [Ord κ] [TransOrd κ] (σ : HashOrder) (m : HashMap κ ν) : List (κ × ν) :=
  σ.iter m.toList

theorem mem_entries {κ ν : Type} [Ord κ] [TransOrd κ] [LawfulEqOrd κ] {σ : HashOrder}
    {m : HashMap κ ν} {k : κ} {v : ν} : (k, v) ∈ σ.entries m ↔ m[k]? = some v := by
  rw [entries, (σ.perm _).mem_iff, ExtTreeMap.mem_toList_iff_getElem?_eq_some]

end HashOrder

/-! ## Executions -/

/-- The interpreter as an inspector sees it before an opcode. -/
structure Interp where
  opcode : BitVec 8
  targetAddress : Address
  /-- Top of the stack first. -/
  stack : List U256
deriving DecidableEq, Repr

/-- What an execution asks of its environment. -/
inductive Query where
  | basic (a : Address)
  | storage (a : Address) (index : U256)
  | codeByHash (h : B256)
  | step (i : Interp)
deriving DecidableEq, Repr

abbrev Query.Answer : Query → Type
  | .basic _ => Option AccountInfo
  | .storage _ _ => U256
  | .codeByHash _ => Bytes
  | .step _ => Unit

/-- `EVMError`. -/
inductive EvmError where
  | transaction (reason : String)
  | header (reason : String)
  | database (e : DbError)
  | custom (reason : String)
deriving DecidableEq, Repr

/-- `ExecutionResult`. -/
inductive ExecutionResult where
  | success (output : Bytes) (gasUsed : U64)
  | revert (output : Bytes) (gasUsed : U64)
  | halt (gasUsed : U64)
deriving DecidableEq, Repr

namespace ExecutionResult

def isSuccess : ExecutionResult → Bool
  | .success _ _ => true
  | _ => false

def gasUsed : ExecutionResult → U64
  | .success _ g => g
  | .revert _ g => g
  | .halt g => g

/-- The output of a call, if the outcome has one. -/
def output : ExecutionResult → Option Bytes
  | .success o _ => some o
  | .revert o _ => some o
  | .halt _ => none

end ExecutionResult

/-- revm's `Account`: what one transaction leaves of one account. -/
structure Account where
  info : AccountInfo
  code : Option Bytes
  /-- Present values of the slots the transaction loaded or wrote. -/
  storage : HashMap U256 U256
  touched : Bool
  selfdestructed : Bool
  created : Bool

/-- revm's `EvmState`: the accounts one transaction has in its journal. -/
abbrev Changes := HashMap Address Account

structure ResultAndState where
  result : ExecutionResult
  state : Changes

/-- One execution, asking for state as it goes. -/
abbrev Execution := Dialogue Query Query.Answer (Except EvmError ResultAndState)

/-! ## The overlay -/

inductive AccountState where
  | notExisting
  | touched
  | storageCleared
  | none
deriving DecidableEq, Repr

/-- The states in which the overlay answers for slots it has not cached. -/
def AccountState.cleared : AccountState → Bool
  | .notExisting => true
  | .storageCleared => true
  | .touched => false
  | .none => false

structure DbAccount where
  info : AccountInfo
  accountState : AccountState
  storage : HashMap U256 U256

/-- The entry of an account that does not exist. -/
def DbAccount.newNotExisting : DbAccount := ⟨.zero, .notExisting, ∅⟩

/-- `CacheDB::cache`. -/
structure Cache where
  accounts : HashMap Address DbAccount
  contracts : HashMap B256 Bytes

namespace Cache

/-- `CacheDB::new`: no accounts, and the two hashes that stand for empty code. -/
def new : Cache := ⟨∅, ((∅ : HashMap B256 Bytes).insert KECCAK256_EMPTY []).insert 0 []⟩

/-- `basic_ref` of the overlay. -/
def basic (db : StateDb) (c : Cache) (a : Address) : Except DbError (Option AccountInfo) :=
  match c.accounts[a]? with
  | some acct => if acct.accountState = .notExisting then .ok none else .ok (some acct.info)
  | none => db.basicRef a

/-- `storage_ref` of the overlay. -/
def storage (db : StateDb) (c : Cache) (a : Address) (index : U256) : Except DbError U256 :=
  match c.accounts[a]? with
  | some acct =>
      match acct.storage[index]? with
      | some v => .ok v
      | none => if acct.accountState.cleared then .ok 0 else db.storageRef a index
  | none => db.storageRef a index

/-- `code_by_hash_ref` of the overlay. -/
def codeByHash (db : StateDb) (c : Cache) (h : B256) : Bytes :=
  match c.contracts[h]? with
  | some raw => raw
  | none => db.codeByHashRef h

/-- The nonce the overlay answers, zero for an absent account. -/
def nonce (db : StateDb) (c : Cache) (a : Address) : Except DbError U64 :=
  (c.basic db a).map (fun o => (o.getD .zero).nonce)

/-- The account has no code, or is not there. -/
def Codeless (db : StateDb) (c : Cache) (a : Address) : Prop :=
  ∀ info, c.basic db a = .ok (some info) →
    info.codeHash = 0 ∨ info.codeHash = KECCAK256_EMPTY

/--
No SELFDESTRUCT of this fork removes the account, once it has a nonce: from `CANCUN` on one
removes only what its transaction has created, and before an account without code runs none.
-/
def Lasting (db : StateDb) (spec : SpecId) (c : Cache) (a : Address) : Prop :=
  spec.isEnabledIn .CANCUN = true ∨ c.Codeless db a

theorem basic_cached {db : StateDb} {c : Cache} {a : Address} {acct : DbAccount}
    (ha : c.accounts[a]? = some acct) :
    c.basic db a = if acct.accountState = .notExisting then .ok none else .ok (some acct.info) := by
  rw [basic, ha]

theorem basic_uncached {db : StateDb} {c : Cache} {a : Address} (ha : c.accounts[a]? = none) :
    c.basic db a = db.basicRef a := by
  rw [basic, ha]

theorem storage_cached {db : StateDb} {c : Cache} {a : Address} {s v : U256} {acct : DbAccount}
    (ha : c.accounts[a]? = some acct) (hs : acct.storage[s]? = some v) :
    c.storage db a s = .ok v := by
  simp only [storage, ha, hs]

theorem storage_uncached {db : StateDb} {c : Cache} {a : Address} {s : U256} {acct : DbAccount}
    (ha : c.accounts[a]? = some acct) (hs : acct.storage[s]? = none) :
    c.storage db a s = if acct.accountState.cleared then .ok 0 else db.storageRef a s := by
  simp only [storage, ha, hs]

/-- A storage read that loads the account first, as executions do. -/
def loadStorage (db : StateDb) (c : Cache) (a : Address) (index : U256) : Except DbError U256 :=
  match c.accounts[a]? with
  | some _ => c.storage db a index
  | none =>
      -- the same order of reads as in the overlay: account, then slot
      match db.basicRef a with
      | .ok (some _) => db.storageRef a index
      | .ok none => .ok 0
      | .error e => .error e

/-- What the overlay answers an execution; inspection hooks learn nothing. -/
def answer (db : StateDb) (c : Cache) : (q : Query) → Except DbError q.Answer
  | .basic a => c.basic db a
  | .storage a i => c.loadStorage db a i
  | .codeByHash h => .ok (c.codeByHash db h)
  | .step _ => .ok ()

end Cache

/-- What a read may do to the entry of an account: keep it, load it, or load slots of it. -/
inductive EntryLoaded (db : StateDb) (a : Address) : Option DbAccount → Option DbAccount → Prop
  | same (e : Option DbAccount) : EntryLoaded db a e e
  | missing : db.basicRef a = .ok none → EntryLoaded db a none (some .newNotExisting)
  | account {info : AccountInfo} {slots : HashMap U256 U256} :
      db.basicRef a = .ok (some info) →
      (∀ (s : U256) (v : U256), slots[s]? = some v → db.storageRef a s = .ok v) →
      EntryLoaded db a none (some ⟨info, .none, slots⟩)
  | slots {acct : DbAccount} {slots : HashMap U256 U256} :
      acct.accountState.cleared = false →
      (∀ s : U256, slots[s]? = acct.storage[s]?
        ∨ acct.storage[s]? = none ∧ ∃ v, slots[s]? = some v ∧ db.storageRef a s = .ok v) →
      EntryLoaded db a (some acct) (some { acct with storage := slots })

/-- What a read through the overlay may do: remember what it loaded. -/
structure Loaded (db : StateDb) (c c' : Cache) : Prop where
  accounts : ∀ a : Address, EntryLoaded db a c.accounts[a]? c'.accounts[a]?
  contracts : ∀ h : B256, c'.contracts[h]? = c.contracts[h]?
    ∨ c.contracts[h]? = none ∧ c'.contracts[h]? = some (db.codeByHashRef h)

/-- The record a commit stores: the transaction's, with a hash even for empty code. -/
structure CommittedInfo (hashSlow : Bytes → B256) (acc : Account) (info : AccountInfo) : Prop where
  nonce : info.nonce = acc.info.nonce
  balance : info.balance = acc.info.balance
  codeHash : acc.info.codeHash ≠ 0 → acc.info.codeHash ≠ KECCAK256_EMPTY →
    info.codeHash = acc.info.codeHash
  emptyCode : acc.code.getD [] = [] → acc.info.codeHash = 0 ∨ acc.info.codeHash = KECCAK256_EMPTY →
    info.codeHash = KECCAK256_EMPTY
  hashed : ∀ raw, acc.code = some raw → raw ≠ [] → acc.info.codeHash = KECCAK256_EMPTY →
    hashSlow raw ≠ 0 → info.codeHash = hashSlow raw

/-- What a commit does to the entry of one account. -/
inductive EntryCommitted (hashSlow : Bytes → B256) :
    Option Account → Option DbAccount → Option DbAccount → Prop
  | untouched {chg : Option Account} {e : Option DbAccount} :
      (∀ acc, chg = some acc → acc.touched = false) → EntryCommitted hashSlow chg e e
  | destroyed {acc : Account} {e : Option DbAccount} :
      acc.touched = true → acc.selfdestructed = true →
      EntryCommitted hashSlow (some acc) e (some .newNotExisting)
  | created {acc : Account} {e : Option DbAccount} {info : AccountInfo} :
      acc.touched = true → acc.selfdestructed = false → acc.created = true →
      CommittedInfo hashSlow acc info →
      EntryCommitted hashSlow (some acc) e (some ⟨info, .storageCleared, acc.storage⟩)
  | changed {acc : Account} {e : Option DbAccount} {info : AccountInfo} {state : AccountState}
      {slots : HashMap U256 U256} :
      acc.touched = true → acc.selfdestructed = false → acc.created = false →
      CommittedInfo hashSlow acc info →
      (state = .touched ∨ state = .storageCleared) →
      (state = .storageCleared ↔ ∃ old, e = some old ∧ old.accountState = .storageCleared) →
      (∀ s : U256, slots[s]? = (acc.storage[s]?).or (e.bind (fun old => old.storage[s]?))) →
      EntryCommitted hashSlow (some acc) e (some ⟨info, state, slots⟩)

/-- What committing a transaction's state may do to the overlay. -/
structure Committed (hashSlow : Bytes → B256) (st : Changes) (c c' : Cache) : Prop where
  accounts : ∀ a : Address, EntryCommitted hashSlow st[a]? c.accounts[a]? c'.accounts[a]?
  /-- Code is filed under the hash of its account, or its own where that is of empty code. -/
  contracts : ∀ h : B256, c'.contracts[h]? = c.contracts[h]?
    ∨ c.contracts[h]? = none ∧ ∃ (a : Address) (acc : Account) (raw : Bytes),
        st[a]? = some acc ∧ acc.code = some raw ∧ raw ≠ [] ∧ c'.contracts[h]? = some raw
          ∧ (acc.info.codeHash = h ∨ acc.info.codeHash = KECCAK256_EMPTY ∧ hashSlow raw = h)

/-- Reading changes no answer about accounts. -/
theorem Loaded.basic {db : StateDb} {c c' : Cache} (h : Loaded db c c') (a : Address) :
    c'.basic db a = c.basic db a := by
  have ha := h.accounts a
  unfold Cache.basic
  generalize c.accounts[a]? = e, c'.accounts[a]? = e' at ha
  cases ha with
  | same => rfl
  | missing hb => simp [DbAccount.newNotExisting, hb]
  | account hb _ => simp [hb]
  | slots _ _ => rfl

/-- Reading changes no answer at all. -/
theorem Loaded.answer {db : StateDb} {c c' : Cache} (h : Loaded db c c') (q : Query) :
    c'.answer db q = c.answer db q := by
  cases q with
  | basic a => exact h.basic a
  | step i => rfl
  | codeByHash hash =>
      simp only [Cache.answer, Cache.codeByHash]
      rcases h.contracts hash with hsame | ⟨hnone, hnew⟩
      · rw [hsame]
      · rw [hnone, hnew]
  | storage a s =>
      have ha := h.accounts a
      change c'.loadStorage db a s = c.loadStorage db a s
      unfold Cache.loadStorage Cache.storage
      generalize c.accounts[a]? = e, c'.accounts[a]? = e' at ha
      cases ha with
      | same => rfl
      | missing hb => simp [DbAccount.newNotExisting, AccountState.cleared, hb]
      | @account info slots hb hslots =>
          cases hs : slots[s]? with
          | none => simp [hb, hs, AccountState.cleared]
          | some v => simp [hb, hs, hslots s v hs]
      | @slots acct slots hclear hslots =>
          rcases hslots s with hsame | ⟨hnone, v, hv, hdb⟩
          · simp [hsame]
          · simp [hnone, hv, hdb, hclear]

/-- A commit changes no answer about an account the transaction did not touch. -/
theorem Committed.basic_untouched {hashSlow : Bytes → B256} {db : StateDb} {st : Changes}
    {c c' : Cache} (h : Committed hashSlow st c c') {a : Address} (ha : st[a]? = none) : c'.basic db a = c.basic db a := by
  have he := h.accounts a
  rw [ha] at he
  unfold Cache.basic
  generalize c.accounts[a]? = e, c'.accounts[a]? = e' at he
  cases he with
  | untouched _ => rfl

/-- An account that was changed and not destroyed is there, with the new nonce. -/
theorem Committed.nonce_changed {hashSlow : Bytes → B256} {db : StateDb} {st : Changes}
    {c c' : Cache} (h : Committed hashSlow st c c') {a : Address} {acc : Account} (ha : st[a]? = some acc)
    (ht : acc.touched = true) (hd : acc.selfdestructed = false) :
    c'.nonce db a = .ok acc.info.nonce := by
  have he := h.accounts a
  rw [ha] at he
  unfold Cache.nonce Cache.basic
  generalize c.accounts[a]? = e, c'.accounts[a]? = e' at he
  cases he with
  -- the transaction touched the account, so it was not left alone
  | untouched hu =>
      rw [hu acc rfl] at ht
      cases ht
  | destroyed _ hd' =>
      rw [hd] at hd'
      cases hd'
  | created _ _ _ hi => simp [Except.map, hi.nonce]
  | changed _ _ _ hi hs _ _ => rcases hs with rfl | rfl <;> simp [Except.map, hi.nonce]

/-- revm as a parameter: its executions, and the overlay's two ways to change. -/
structure Evm where
  /-- `evm.replay()`, with validation and fees. -/
  replay : CfgEnv → BlockEnv → TxEnv → Execution
  /-- `run_system_call`: execution and output only. -/
  runSystemCall : CfgEnv → BlockEnv → TxEnv → Execution
  /-- The cache after one read. -/
  load : StateDb → Cache → Query → Cache
  /-- `CacheDB::commit`. -/
  commit : Cache → Changes → Cache
  /-- `Bytecode::hash_slow`. -/
  hashSlow : Bytes → B256
  load_spec : ∀ db c q, Loaded db c (load db c q)
  commit_spec : ∀ c st, Committed hashSlow st c (commit c st)

namespace Evm

variable (evm : Evm)

/-- The database an execution in the replayer runs on. -/
def overlay (db : StateDb) (q : Query) (c : Cache) : Except DbError (q.Answer × Cache) :=
  (c.answer db q).map (fun a => (a, evm.load db c q))

/-- Run an execution over the overlay; a failing read is a database error. -/
def run (db : StateDb) (e : Execution) (c : Cache) : Except EvmError (ResultAndState × Cache) :=
  match e.exec (evm.overlay db) c with
  | .ok (.ok r, c') => .ok (r, c')
  | .ok (.error err, _) => .error err
  | .error err => .error (.database err)

/-- The overlays `CacheDB::new(db)` can become by reads and commits. -/
inductive Reachable (db : StateDb) : Cache → Prop
  | new : Reachable db .new
  | read {c : Cache} (q : Query) : Reachable db c → Reachable db (evm.load db c q)
  | commit {c : Cache} (st : Changes) : Reachable db c → Reachable db (evm.commit c st)

variable {evm}

/-- What every read of the overlay preserves, an execution does. -/
theorem run_inv {db : StateDb} {e : Execution} {c c' : Cache} {r : ResultAndState}
    {I : Cache → Prop} (hload : ∀ c q, I c → I (evm.load db c q)) (hc : I c)
    (h : evm.run db e c = .ok (r, c')) : I c' := by
  unfold run at h
  split at h
  · rename_i hx
    simp only [Except.ok.injEq, Prod.mk.injEq] at h
    obtain ⟨rfl, rfl⟩ := h
    refine Dialogue.exec_inv ?_ hc hx
    intro q s a s' hs hq
    unfold overlay at hq
    cases ha : s.answer db q with
    | error err => simp [ha, Except.map] at hq
    | ok v =>
        simp only [ha, Except.map, Except.ok.injEq, Prod.mk.injEq] at hq
        exact hq.2 ▸ hload s q hs
  · cases h
  · cases h

theorem reachable_run {db : StateDb} {e : Execution} {c c' : Cache} {r : ResultAndState}
    (hc : evm.Reachable db c) (h : evm.run db e c = .ok (r, c')) : evm.Reachable db c' :=
  run_inv (fun _ q hs => hs.read q) hc h

/-- An execution changes no answer about accounts until it is committed. -/
theorem basic_run {db : StateDb} {e : Execution} {c c' : Cache} {r : ResultAndState}
    (h : evm.run db e c = .ok (r, c')) (a : Address) : c'.basic db a = c.basic db a :=
  run_inv (I := fun s => s.basic db a = c.basic db a)
    (fun s q hs => ((evm.load_spec db s q).basic a).trans hs) rfl h

/-- **An execution over an overlay** is that execution on what the overlay answers. -/
theorem eval_of_run {db : StateDb} {e : Execution} {c c' : Cache} {r : ResultAndState}
    (h : evm.run db e c = .ok (r, c')) :
    e.eval (c.answer db) = .ok (.ok r) ∧ c' = (e.asked (c.answer db)).foldl (evm.load db) c := by
  have hans : ∀ q s, (∀ q, s.answer db q = c.answer db q) →
      evm.overlay db q s = (c.answer db q).map fun a => (a, evm.load db s q) := by
    intro q s hs
    rw [overlay, hs q]
  have hkeep : ∀ q s a, (∀ q, s.answer db q = c.answer db q) → c.answer db q = .ok a →
      ∀ q', (evm.load db s q).answer db q' = c.answer db q' :=
    fun q s _ hs _ q' => ((evm.load_spec db s q).answer q').trans (hs q')
  have hexec := Dialogue.exec_eq_eval hans hkeep e c fun _ => rfl
  unfold run at h
  rw [hexec] at h
  cases heval : e.eval (c.answer db) with
  | error err =>
      rw [heval] at h
      cases h
  | ok res =>
      rw [heval] at h
      cases res with
      | error err => cases h
      | ok r' =>
          simp only [Except.map, Except.ok.injEq, Prod.mk.injEq] at h
          exact ⟨by rw [h.1], h.2.symm⟩

/-! ## What is assumed of the executions -/

/-- revm's header validation: a fork may insist on a field of the block environment. -/
def validHeader (spec : SpecId) (block : BlockEnv) : Bool :=
  (!spec.isEnabledIn .MERGE || block.prevrandao.isSome)
    && (!spec.isEnabledIn .CANCUN || block.blobExcessGasAndPrice.isSome)

variable (evm)

/-- A transaction is refused for the header exactly when header validation fails. -/
def HeaderRules : Prop :=
  ∀ (db : StateDb) (cfg : CfgEnv) (block : BlockEnv) (tx : TxEnv) (c : Cache),
    (∃ reason, evm.run db (evm.replay cfg block tx) c = .error (.header reason))
      ↔ validHeader cfg.spec block = false

/-- The executions the crates start. -/
def Starts (e : Execution) : Prop :=
  ∃ cfg block tx, e = evm.replay cfg block tx ∨ e = evm.runSystemCall cfg block tx

/-- The overlays that executions and their commits make of `CacheDB::new(db)`. -/
inductive Executed (db : StateDb) : Cache → Prop
  | new : Executed db .new
  | commit {c c' : Cache} {e : Execution} {r : ResultAndState} :
      Executed db c → evm.Starts e → evm.run db e c = .ok (r, c') →
      Executed db (evm.commit c' r.state)

/--
What a commit says about code, on a database where it is sound. The hash of a committed
account is that of empty code, was read, or belongs to code the overlay has filed; and code
is filed under its own hash.
-/
structure CodeRules (keccak256 : Bytes → B256) : Prop where
  committed : ∀ {db : StateDb} {e : Execution} {c c' : Cache} {r : ResultAndState},
    db.CodeSound keccak256 → evm.Executed db c → evm.Starts e → evm.run db e c = .ok (r, c') →
      ∀ {a : Address} {acc : Account} {acct : DbAccount}, r.state[a]? = some acc →
        acc.touched = true → acc.selfdestructed = false →
        (evm.commit c' r.state).accounts[a]? = some acct →
          acct.info.codeHash = KECCAK256_EMPTY
            ∨ (∃ a' info, c.basic db a' = .ok (some info) ∧ info.codeHash = acct.info.codeHash)
            ∨ ∃ raw, (evm.commit c' r.state).contracts[acct.info.codeHash]? = some raw ∧ raw ≠ []
  filed : ∀ {db : StateDb} {e : Execution} {c c' : Cache} {r : ResultAndState},
    db.CodeSound keccak256 → evm.Executed db c → evm.Starts e → evm.run db e c = .ok (r, c') →
      ∀ {h : B256} {raw : Bytes}, c'.contracts[h]? = none →
        (evm.commit c' r.state).contracts[h]? = some raw → keccak256 raw = h

/--
What accepting a transaction says about nonces. An account that is there for good (see
`Lasting`) keeps its nonce or raises it, once it has one; and what it sends raises it.
-/
structure NonceRules : Prop where
  matched : ∀ {db : StateDb} {cfg : CfgEnv} {block : BlockEnv} {tx : TxEnv} {c c' : Cache}
    {r : ResultAndState}, evm.Executed db c →
    evm.run db (evm.replay cfg block tx) c = .ok (r, c') → c.nonce db tx.caller = .ok tx.nonce
  bumped : ∀ {db : StateDb} {cfg : CfgEnv} {block : BlockEnv} {tx : TxEnv} {c c' : Cache}
    {r : ResultAndState}, evm.Executed db c →
    evm.run db (evm.replay cfg block tx) c = .ok (r, c') → c.Lasting db cfg.spec tx.caller →
      ∃ n, (evm.commit c' r.state).nonce db tx.caller = .ok n ∧ tx.nonce < n
  kept : ∀ {db : StateDb} {cfg : CfgEnv} {block : BlockEnv} {tx : TxEnv} {c c' : Cache}
    {r : ResultAndState}, evm.Executed db c →
    evm.run db (evm.replay cfg block tx) c = .ok (r, c') →
      ∀ {a : Address} {n : U64}, c.Lasting db cfg.spec a → c.nonce db a = .ok n →
        0 < n ∨ a = tx.caller →
          (evm.commit c' r.state).Lasting db cfg.spec a
            ∧ ∃ n', (evm.commit c' r.state).nonce db a = .ok n' ∧ n ≤ n'

end Evm

end EvmState
