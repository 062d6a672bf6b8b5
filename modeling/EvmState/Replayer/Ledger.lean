import EvmState.Replayer.Block

/-!
# What replaying is for

A `Ledger` is the state of a chain, without a database and without an overlay: an
account, a storage and a code for whatever is asked about. On ledgers a transaction is
one step: its execution reads the ledger, and what it ends with is put in place. Blocks
are their transactions, one after another.

How revm files the hash of empty code, and which of two codes it keeps under one hash, is
left open, as it is in `Committed`.
-/

namespace EvmState

open Std

/-- The state of a chain. -/
structure Ledger where
  accounts : Address → Option AccountInfo
  storage : Address → U256 → U256
  code : B256 → Bytes

namespace Ledger

/-- What an execution is told. -/
def view (L : Ledger) : (q : Query) → Except DbError q.Answer
  | .basic a => .ok (L.accounts a)
  | .storage a index => .ok (L.storage a index)
  | .codeByHash h => .ok (L.code h)
  | .step _ => .ok ()

/-- What a transaction leaves of an account and its storage. -/
inductive AccountStep (hashSlow : Bytes → B256) : Option Account → Option AccountInfo → (U256 → U256) →
    Option AccountInfo → (U256 → U256) → Prop
  | untouched {chg : Option Account} {o : Option AccountInfo} {slots : U256 → U256} :
      (∀ acc, chg = some acc → acc.touched = false) → AccountStep hashSlow chg o slots o slots
  | destroyed {acc : Account} {o : Option AccountInfo} {slots : U256 → U256} :
      acc.touched = true → acc.selfdestructed = true →
      AccountStep hashSlow (some acc) o slots none fun _ => 0
  /-- A new account starts without the slots of an earlier one. -/
  | created {acc : Account} {o : Option AccountInfo} {slots : U256 → U256} {info : AccountInfo} :
      acc.touched = true → acc.selfdestructed = false → acc.created = true →
      CommittedInfo hashSlow acc info →
      AccountStep hashSlow (some acc) o slots (some info) fun s => (acc.storage[s]?).getD 0
  | changed {acc : Account} {o : Option AccountInfo} {slots : U256 → U256} {info : AccountInfo} :
      acc.touched = true → acc.selfdestructed = false → acc.created = false →
      CommittedInfo hashSlow acc info →
      AccountStep hashSlow (some acc) o slots (some info) fun s => (acc.storage[s]?).getD (slots s)

/-- What a transaction leaves of a ledger. -/
structure Step (hashSlow : Bytes → B256) (st : Changes) (L L' : Ledger) : Prop where
  accounts : ∀ a : Address,
    AccountStep hashSlow st[a]? (L.accounts a) (L.storage a) (L'.accounts a) (L'.storage a)
  /-- New code is that of an account, under its record's hash, or its own if that is of none. -/
  code : ∀ h, L'.code h = L.code h
    ∨ ∃ (a : Address) (acc : Account), st[a]? = some acc ∧ acc.code = some (L'.code h)
        ∧ L'.code h ≠ []
        ∧ (acc.info.codeHash = h
          ∨ acc.info.codeHash = KECCAK256_EMPTY ∧ hashSlow (L'.code h) = h)

section Blocks

variable (evm : Evm) (spec : ChainSpec)

/-- Transactions of a block, one after another, with their results. -/
inductive Executes (block : Block) : List Transaction → Ledger → List TxResult → Ledger → Prop
  | nil (L : Ledger) : Executes block [] L [] L
  | cons {tx : Transaction} {txs : List Transaction} {L L₁ L' : Ledger} {r : ResultAndState}
      {rs : List TxResult} :
      (replayExecution evm spec block tx).eval L.view = .ok (.ok r) → Step evm.hashSlow r.state L L₁ →
      Executes block txs L₁ rs L' →
      Executes block (tx :: txs) L (⟨r.result.gasUsed, r.result.isSuccess⟩ :: rs) L'

/-- Blocks, one after another. -/
inductive Replays : List Block → Ledger → Ledger → Prop
  | nil (L : Ledger) : Replays [] L L
  | cons {block : Block} {blocks : List Block} {L L₁ L' : Ledger} {rs : List TxResult} :
      Executes evm spec block block.transactions L rs L₁ → Replays blocks L₁ L' →
      Replays (block :: blocks) L L'

end Blocks

/-- There is no storage without an account, and the hashes of empty code are those. -/
structure Tidy (L : Ledger) : Prop where
  absent : ∀ a, L.accounts a = none → ∀ s, L.storage a s = 0
  zeroCode : L.code 0 = []
  emptyCode : L.code KECCAK256_EMPTY = []

end Ledger

/-- A database reads as the ledger. -/
structure StateDb.Shows (db : StateDb) (L : Ledger) : Prop where
  accounts : ∀ a, db.basicRef a = .ok (L.accounts a)
  storage : ∀ a s, db.storageRef a s = .ok (L.storage a s)
  code : ∀ h, db.codeByHashRef h = L.code h

end EvmState
