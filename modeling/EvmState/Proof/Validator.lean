import Mathlib.Data.List.Forall2
import EvmState.Proof.CodeRefs
import EvmState.Proof.RpcParams
import EvmState.Validation.Validate

/-!
# What the validator's checks say

A check compares one field of a sampled account, or one slot, with what a node
answers. `FieldAgrees` says when the two denote the same state. Nonces, balances and
slots are compared as they are. Code is compared by hash, and an account without code
may have either of two hashes in the database while the node's answer is hashed to
only one of them: that is the one way a check misses (`codeHash_exact_iff`). A slot is
checked only if the node answers a request that it cannot read by the rules of JSON-RPC.
-/

namespace EvmState

open Json (Doc)

/-- An account on a node. -/
structure RemoteAccount where
  nonce : U64
  balance : U256
  code : Bytes

/-- The state of a node at a block. -/
structure RemoteState where
  account : Address → RemoteAccount
  storage : Address → B256 → U256

/-! ## A node behind the client -/

/-- The block a question is about. -/
def EthCall.block : EthCall → U64
  | .getBalance _ block => block
  | .getTransactionCount _ block => block
  | .getCode _ block => block
  | .getStorageAt _ _ block => block

/-- The result a node prints for a question. -/
def RemoteState.result (remote : RemoteState) : EthCall → String
  | .getBalance a _ => U256.toHex (remote.account a).balance
  | .getTransactionCount a _ => marked (Nat.toDigits 16 (remote.account a).nonce.toNat)
  | .getCode a _ => bytesToHex (remote.account a).code
  | .getStorageAt a s _ => B256.toHex (remote.storage a s)

/-- The accounts are answered from this state. -/
structure EthRpc.ServesAccounts (rpc : EthRpc) (block : U64) (remote : RemoteState) : Prop where
  nonce : ∀ a, rpc.getNonce a block = .ok (remote.account a).nonce
  balance : ∀ a, rpc.getBalance a block = .ok (remote.account a).balance
  code : ∀ a, rpc.getCode a block = .ok (remote.account a).code

namespace EthRpcClient

/-- What is posted for a question is answered from this state. -/
def Answers (client : EthRpcClient) (remote : RemoteState) (q : EthCall) : Prop :=
  client.Replies q (remote.result q)

/--
Behind the client is a node with this state at the block: it answers from it what it can
read by the rules of JSON-RPC, and what else is posted for a question it may answer from
it or refuse.
-/
structure Node (client : EthRpcClient) (block : U64) (remote : RemoteState) : Prop where
  read : ∀ q, q.block = block → readRequest q.body = some q → client.Answers remote q
  unread : ∀ q, q.block = block → client.Answers remote q ∨ client.Refuses q

/-- **A node serves the accounts**: every request for one can be read. -/
theorem Node.servesAccounts {client : EthRpcClient} (hjson : Json.Reads client.fromStr)
    {block : U64} {remote : RemoteState} (h : client.Node block remote) :
    client.rpc.ServesAccounts block remote := by
  have hask : ∀ q : EthCall, q.block = block → q.method ≠ "eth_getStorageAt" →
      client.ask q = .ok (.str (remote.result q)) := by
    intro q hblock hmethod
    -- requests that carry no slot are written as the rules say
    have hread : readRequest q.body = some q := by
      rw [EthCall.body, readRequest_members, if_neg hmethod]
    exact ask_of_replies hjson (h.read q hblock hread)
  refine ⟨fun a => ?_, fun a => ?_, fun a => ?_⟩
  · have hnonce := hask (.getTransactionCount a block) rfl (by simp [EthCall.method])
    show (client.ask (.getTransactionCount a block)).bind resultU64 = _
    rw [hnonce]
    exact resultU64_toDigits _
  · have hbalance := hask (.getBalance a block) rfl (by simp [EthCall.method])
    show (client.ask (.getBalance a block)).bind resultU256 = _
    rw [hbalance]
    exact resultU256_toHex _
  · have hcode := hask (.getCode a block) rfl (by simp [EthCall.method])
    show (client.ask (.getCode a block)).bind resultBytes = _
    rw [hcode]
    exact resultBytes_bytesToHex _

end EthRpcClient

/-! ## What a check says -/

/-- No code but the empty one hashes to what stands for no code. -/
def NoEmptyHash (keccak256 : Bytes → B256) : Prop :=
  ∀ code, code ≠ [] → keccak256 code ≠ 0 ∧ keccak256 code ≠ KECCAK256_EMPTY

/-- The code a record points to, by its hash: two hashes stand for none. -/
def codeOfHash (h : B256) : Option B256 := if h = 0 ∨ h = KECCAK256_EMPTY then none else some h

/-- The code a node answers, by its hash. -/
def codeOfBytes (keccak256 : Bytes → B256) (code : Bytes) : Option B256 :=
  if code = [] then none else some (keccak256 code)

/-- The local field and the remote one denote the same state. -/
def FieldAgrees (keccak256 : Bytes → B256) (info : AccountInfo) (acct : RemoteAccount) :
    AccountField → Prop
  | .nonce => info.nonce = acct.nonce
  | .balance => info.balance = acct.balance
  | .codeHash => codeOfHash info.codeHash = codeOfBytes keccak256 acct.code

/-- The fields that are checked of the sampled accounts, in the order of the report. -/
def checkedFields (accounts : List (Address × AccountInfo)) :
    List ((Address × AccountInfo) × AccountField) :=
  accounts.flatMap fun e => [(e, .nonce), (e, .balance), (e, .codeHash)]

/--
The report has one check for each field of each sampled account and one for each
sampled slot, and a check says `isMatch` exactly if the two sides denote the same.
-/
structure ValidationReport.Exact (keccak256 : Bytes → B256) (remote : RemoteState)
    (accounts : List (Address × AccountInfo)) (storage : List (Address × B256 × U256))
    (report : ValidationReport) : Prop where
  accountChecks : List.Forall₂
    (fun e c => c.address = e.1.1 ∧ c.field = e.2
      ∧ (c.isMatch = true ↔ FieldAgrees keccak256 e.1.2 (remote.account e.1.1) e.2))
    (checkedFields accounts) report.accountChecks
  storageChecks : List.Forall₂
    (fun e c => c.address = e.1 ∧ c.slot = e.2.1
      ∧ (c.isMatch = true ↔ e.2.2 = remote.storage e.1 e.2.1))
    storage report.storageChecks

/-- The sampled entries agree with the node. -/
def Agree (keccak256 : Bytes → B256) (remote : RemoteState)
    (accounts : List (Address × AccountInfo)) (storage : List (Address × B256 × U256)) : Prop :=
  (∀ e ∈ checkedFields accounts, FieldAgrees keccak256 e.1.2 (remote.account e.1.1) e.2)
    ∧ ∀ e ∈ storage, e.2.2 = remote.storage e.1 e.2.1

section Report

variable {keccak256 : Bytes → B256} {remote : RemoteState}
  {accounts : List (Address × AccountInfo)} {storage : List (Address × B256 × U256)}
  {report : ValidationReport}

/-- Where every check is exact, agreement makes the report valid. -/
theorem ValidationReport.Exact.isValid (h : report.Exact keccak256 remote accounts storage)
    (hagree : Agree keccak256 remote accounts storage) : report.isValid = true := by
  obtain ⟨haccounts, hstorage⟩ := h
  -- a check whose two sides agree matches, so none is counted
  have h1 : report.accountChecks.countP (fun c => !c.isMatch) = 0 := by
    rw [List.countP_eq_zero]
    intro c hc
    obtain ⟨e, he, _, _, hmatch⟩ := Lists.exists_mem_left haccounts hc
    simp [hmatch.mpr (hagree.1 e he)]
  have h2 : report.storageChecks.countP (fun c => !c.isMatch) = 0 := by
    rw [List.countP_eq_zero]
    intro c hc
    obtain ⟨e, he, _, _, hmatch⟩ := Lists.exists_mem_left hstorage hc
    simp [hmatch.mpr (hagree.2 e he)]
  rw [ValidationReport.isValid, ValidationReport.mismatches, h1, h2]
  rfl

/-- The comparison of the source. -/
def fieldMatch (keccak256 : Bytes → B256) (info : AccountInfo) (acct : RemoteAccount) :
    AccountField → Bool
  | .nonce => info.nonce == acct.nonce
  | .balance => info.balance == acct.balance
  | .codeHash => info.codeHash == remoteCodeHash keccak256 acct.code

/-- **Where a hash comparison goes wrong**: the local hash is that of empty code, and the node has none. -/
theorem codeHash_exact_iff (hk : NoEmptyHash keccak256) {info : AccountInfo} {acct : RemoteAccount} :
    (fieldMatch keccak256 info acct .codeHash = true
        ↔ FieldAgrees keccak256 info acct .codeHash)
      ↔ (info.codeHash = KECCAK256_EMPTY → acct.code ≠ []) := by
  have hne : KECCAK256_EMPTY ≠ 0 := by decide
  simp only [fieldMatch, FieldAgrees, beq_iff_eq]
  by_cases hcode : acct.code = []
  · -- no code on the node: the hash compared with is zero
    have hremote : remoteCodeHash keccak256 acct.code = 0 := by rw [hcode]; rfl
    have hof : codeOfBytes keccak256 acct.code = none := if_pos hcode
    rw [hremote, hof, codeOfHash]
    by_cases hlocal : info.codeHash = KECCAK256_EMPTY
    · simpa [hlocal, hcode] using hne
    · simp [hlocal]
  · have hremote : remoteCodeHash keccak256 acct.code = keccak256 acct.code :=
      if_neg (by simpa using hcode)
    have hof : codeOfBytes keccak256 acct.code = some (keccak256 acct.code) := if_neg hcode
    -- code has neither of the two hashes of no code
    obtain ⟨hzero, hempty⟩ := hk acct.code hcode
    rw [hremote, hof, codeOfHash]
    constructor
    · exact fun _ _ => hcode
    · intro _
      by_cases hlocal : info.codeHash = 0 ∨ info.codeHash = KECCAK256_EMPTY
      · rw [if_pos hlocal]
        rcases hlocal with h | h
        · simpa [h] using hzero.symm
        · simpa [h] using hempty.symm
      · rw [if_neg hlocal, Option.some.injEq]

variable {rpc : EthRpc} {client : EthRpcClient} {block : U64}

variable (keccak256) in
/-- The checks of one account, against a node that answers. -/
theorem checkAccount_of_served (h : rpc.ServesAccounts block remote) (e : Address × AccountInfo) :
    ∃ checks, checkAccount keccak256 rpc block e.1 e.2 = .ok checks
      ∧ List.Forall₂ (fun f c => c.address = f.1.1 ∧ c.field = f.2
          ∧ c.isMatch = fieldMatch keccak256 f.1.2 (remote.account f.1.1) f.2)
        [(e, AccountField.nonce), (e, .balance), (e, .codeHash)] checks := by
  simp only [checkAccount, h.nonce, h.balance, h.code]
  exact ⟨_, rfl, .cons ⟨rfl, rfl, rfl⟩ (.cons ⟨rfl, rfl, rfl⟩ (.cons ⟨rfl, rfl, rfl⟩ .nil))⟩

/-- The check of a slot that the node has. -/
def RemoteState.slotCheck (remote : RemoteState) (e : Address × B256 × U256) : StorageCheck :=
  ⟨e.1, e.2.1, e.2.2, remote.storage e.1 e.2.1, e.2.2 == remote.storage e.1 e.2.1⟩

theorem checkStorage_of_answers (hjson : Json.Reads client.fromStr) {e : Address × B256 × U256}
    (h : client.Answers remote (.getStorageAt e.1 e.2.1 block)) :
    checkStorage client.rpc block e = .ok (remote.slotCheck e) := by
  rw [checkStorage, EthRpcClient.getStorageAt_of_replies hjson h]
  rfl

/-- **The report of a run**: every field and slot is compared the way the source compares it. -/
theorem validateEntries_of_answers (keccak256 : Bytes → B256) (hjson : Json.Reads client.fromStr)
    (hserved : client.rpc.ServesAccounts block remote) (accounts : List (Address × AccountInfo))
    (hslots : ∀ e ∈ storage, client.Answers remote (.getStorageAt e.1 e.2.1 block)) :
    ∃ report, validateEntries keccak256 client.rpc accounts storage block = .ok report
      ∧ List.Forall₂ (fun e c => c.address = e.1.1 ∧ c.field = e.2
          ∧ c.isMatch = fieldMatch keccak256 e.1.2 (remote.account e.1.1) e.2)
        (checkedFields accounts) report.accountChecks
      ∧ List.Forall₂ (fun e c => c.address = e.1 ∧ c.slot = e.2.1
          ∧ (c.isMatch = true ↔ e.2.2 = remote.storage e.1 e.2.1)) storage report.storageChecks := by
  have hchecked : ∀ e ∈ accounts,
      ∃ cs, checkAccount keccak256 client.rpc block e.1 e.2 = .ok cs := by
    intro e _
    obtain ⟨cs, hcs, _⟩ := checkAccount_of_served keccak256 hserved e
    exact ⟨cs, hcs⟩
  obtain ⟨checks, hchecks⟩ := Lists.mapM_ok_of_forall hchecked
  -- every sampled slot is answered, so none of the checks fails
  have hstored : storage.mapM (checkStorage client.rpc block) = .ok (storage.map remote.slotCheck) :=
    Lists.mapM_ok_of_forall_mem fun e he => checkStorage_of_answers hjson (hslots e he)
  refine ⟨⟨block, checks.flatten, storage.map remote.slotCheck⟩,
    by simp only [validateEntries, hchecks, hstored], ?_, ?_⟩
  · refine List.rel_flatten (List.forall₂_map_left_iff.mpr ?_)
    refine (Lists.forall₂_of_mapM_ok hchecks).imp fun e cs hcs => ?_
    obtain ⟨cs', hcs', hall⟩ := checkAccount_of_served keccak256 hserved e
    rw [hcs] at hcs'
    exact Except.ok.inj hcs' ▸ hall
  · exact List.forall₂_map_right_iff.mpr (List.forall₂_same.mpr fun e _ => ⟨rfl, rfl, beq_iff_eq⟩)

/-- One slot that is refused fails the run. -/
theorem validateEntries_of_refuses (keccak256 : Bytes → B256) (hjson : Json.Reads client.fromStr)
    (accounts : List (Address × AccountInfo)) {e : Address × B256 × U256} (he : e ∈ storage)
    (h : client.Refuses (.getStorageAt e.1 e.2.1 block)) :
    ∃ err, validateEntries keccak256 client.rpc accounts storage block = .error err := by
  obtain ⟨err, herr⟩ := EthRpcClient.getStorageAt_of_refuses hjson h
  have hslot : checkStorage client.rpc block e = .error err := by
    rw [checkStorage, herr]
    rfl
  obtain ⟨err', hslots⟩ := Lists.mapM_error_of_mem he hslot
  rw [validateEntries]
  -- the accounts come first, and may fail on their own
  cases accounts.mapM fun e => checkAccount keccak256 client.rpc block e.1 e.2 with
  | error err => exact ⟨err, rfl⟩
  | ok checks => exact ⟨err', by simp only [hslots]⟩

/-- A report is exact if the comparison is, for every field that is checked. -/
theorem forall₂_exact_iff {fields : List ((Address × AccountInfo) × AccountField)}
    {checks : List AccountCheck}
    (h : List.Forall₂ (fun e c => c.address = e.1.1 ∧ c.field = e.2
      ∧ c.isMatch = fieldMatch keccak256 e.1.2 (remote.account e.1.1) e.2) fields checks) :
    List.Forall₂ (fun e c => c.address = e.1.1 ∧ c.field = e.2
        ∧ (c.isMatch = true ↔ FieldAgrees keccak256 e.1.2 (remote.account e.1.1) e.2)) fields checks
      ↔ ∀ e ∈ fields, (fieldMatch keccak256 e.1.2 (remote.account e.1.1) e.2 = true
          ↔ FieldAgrees keccak256 e.1.2 (remote.account e.1.1) e.2) := by
  induction h with
  | nil => simp
  | cons hc _ ih =>
      obtain ⟨haddress, hfield, hmatch⟩ := hc
      rw [List.forall₂_cons, ih, List.forall_mem_cons, hmatch]
      simp only [haddress, hfield, true_and]

theorem exact_iff (hk : NoEmptyHash keccak256)
    (haccounts : List.Forall₂ (fun e c => c.address = e.1.1 ∧ c.field = e.2
      ∧ c.isMatch = fieldMatch keccak256 e.1.2 (remote.account e.1.1) e.2)
      (checkedFields accounts) report.accountChecks)
    (hstorage : List.Forall₂ (fun e c => c.address = e.1 ∧ c.slot = e.2.1
      ∧ (c.isMatch = true ↔ e.2.2 = remote.storage e.1 e.2.1)) storage report.storageChecks) :
    report.Exact keccak256 remote accounts storage
      ↔ ∀ e ∈ accounts, e.2.codeHash = KECCAK256_EMPTY → (remote.account e.1).code ≠ [] := by
  have hfields : report.Exact keccak256 remote accounts storage
      ↔ ∀ e ∈ checkedFields accounts,
          (fieldMatch keccak256 e.1.2 (remote.account e.1.1) e.2 = true
            ↔ FieldAgrees keccak256 e.1.2 (remote.account e.1.1) e.2) :=
    ⟨fun h => (forall₂_exact_iff haccounts).mp h.accountChecks,
      fun h => ⟨(forall₂_exact_iff haccounts).mpr h, hstorage⟩⟩
  rw [hfields]
  constructor
  · intro h e he
    exact (codeHash_exact_iff hk).mp
      (h (e, .codeHash) (List.mem_flatMap.mpr ⟨e, he, by simp⟩))
  · intro h f hf
    obtain ⟨e, he, hf⟩ := List.mem_flatMap.mp hf
    simp only [List.mem_cons, List.not_mem_nil, or_false] at hf
    -- nonces and balances are compared as they are
    rcases hf with rfl | rfl | rfl
    · exact beq_iff_eq
    · exact beq_iff_eq
    · exact (codeHash_exact_iff hk).mpr (h e he)

end Report

/-! ## A whole run -/

section Run

variable {evm : Evm} {keccak256 : Bytes → B256} {db : StateDb}

/--
**When the validator is exact.** Take a database that genesis and replays leave, and a
node that answers from a state what it can read and may refuse the rest. A run comes to a
report whose checks say exactly whether the sampled entries denote what the node has, so
that agreement makes the report valid, if and only if the node answers what is posted
for each sampled slot, and no sampled account with the hash of empty code is one that
has no code there.
-/
theorem validateRandom_exact_iff (hk : NoEmptyHash keccak256)
    (hdb : CodeReaches evm keccak256 .empty db) {client : EthRpcClient}
    (hjson : Json.Reads client.fromStr) {block : U64} {remote : RemoteState}
    (hnode : client.Node block remote) (sampler : Sampler) (count : Nat) :
    ∃ all, db.iterAccounts = .ok all
      ∧ ((∃ report, validateRandom keccak256 client.rpc sampler db count block = .ok report
            ∧ report.Exact keccak256 remote (sampler.sample all count)
                (sampler.sample db.iterStorage count)
            ∧ (Agree keccak256 remote (sampler.sample all count)
                (sampler.sample db.iterStorage count) → report.isValid = true))
          ↔ (∀ e ∈ sampler.sample db.iterStorage count,
                client.Answers remote (.getStorageAt e.1 e.2.1 block))
            ∧ ∀ e ∈ sampler.sample all count, e.2.codeHash = KECCAK256_EMPTY →
                (remote.account e.1).code ≠ []) := by
  obtain ⟨all, hall, _⟩ :=
    (codeReaches_built .empty hdb).wellFormed.iterAccounts_ok
  have hrun : validateRandom keccak256 client.rpc sampler db count block
      = validateEntries keccak256 client.rpc (sampler.sample all count)
          (sampler.sample db.iterStorage count) block := by
    rw [validateRandom, hall]
  have hserved := hnode.servesAccounts hjson
  refine ⟨all, hall, ?_⟩
  rw [hrun]
  constructor
  · rintro ⟨report, hreport, hexact, _⟩
    -- a slot that is not answered is refused, and then there is no report
    have hslots : ∀ e ∈ sampler.sample db.iterStorage count,
        client.Answers remote (.getStorageAt e.1 e.2.1 block) := by
      intro e he
      rcases hnode.unread (.getStorageAt e.1 e.2.1 block) rfl with hslot | hslot
      · exact hslot
      · obtain ⟨err, herr⟩ := validateEntries_of_refuses keccak256 hjson
          (sampler.sample all count) he hslot
        rw [herr] at hreport
        cases hreport
    obtain ⟨report', hreport', haccounts, hstorage⟩ := validateEntries_of_answers keccak256 hjson
      hserved (sampler.sample all count) hslots
    obtain rfl := Except.ok.inj (hreport.symm.trans hreport')
    exact ⟨hslots, (exact_iff hk haccounts hstorage).mp hexact⟩
  · rintro ⟨hslots, hcode⟩
    obtain ⟨report, hreport, haccounts, hstorage⟩ := validateEntries_of_answers keccak256 hjson
      hserved (sampler.sample all count) hslots
    have hexact := (exact_iff hk haccounts hstorage).mpr hcode
    exact ⟨report, hreport, hexact, hexact.isValid⟩

end Run

/-- Sampling the first entries. -/
def Sampler.first : Sampler where
  sample := fun items count => items.take count
  mem := fun _ _ _ hx => List.mem_of_mem_take hx

/-! ## Nodes -/

/-- The client of a node with this state at every block, which reads requests this way. -/
def RemoteState.client (remote : RemoteState) (read : Doc → Option EthCall) : EthRpcClient where
  fromStr := Json.parse
  post := fun body =>
    match read body with
    | some q => .ok (.object [("jsonrpc", .str "2.0"), ("id", .num 1),
        ("result", .str (remote.result q))])
    | none => .ok (.object [("jsonrpc", .str "2.0"), ("id", .num 1),
        ("error", .object [("message", .str "invalid argument")])])

section Clients

variable {remote : RemoteState} {read : Doc → Option EthCall} {q : EthCall}

theorem RemoteState.client_answers (h : read q.body = some q) :
    (remote.client read).Answers remote q := by
  refine ⟨_, by simp only [client, h]; rfl, ?_, ?_⟩ <;> simp [Doc.get]

theorem RemoteState.client_refuses {body : Doc} (h : read body = none) {resp : Doc}
    (hresp : (remote.client read).post body = .ok resp) :
    ∃ error, resp.get "error" = some error := by
  simp only [client, h] at hresp
  rw [← Except.ok.inj hresp]
  exact ⟨_, rfl⟩

/-- Whether it reads a question by the rules, or more than that, it is such a node. -/
theorem RemoteState.client_node (remote : RemoteState)
    (h : ∀ q : EthCall, read q.body = some q ∨ read q.body = none ∧ readRequest q.body = none)
    (block : U64) : (remote.client read).Node block remote where
  read q _ hq := by
    rcases h q with hread | ⟨_, hnone⟩
    · exact client_answers hread
    · rw [hq] at hnone
      cases hnone
  unread q _ := by
    rcases h q with hread | ⟨hnone, _⟩
    · exact .inl (client_answers hread)
    · exact .inr fun _ hresp => client_refuses hnone hresp

/-- The node that reads by the rules and no further. -/
theorem RemoteState.strict_node (remote : RemoteState) (block : U64) :
    (remote.client readRequest).Node block remote := by
  refine remote.client_node (fun q => ?_) block
  rw [EthCall.body, readRequest_members]
  by_cases h : q.method = "eth_getStorageAt"
  · exact .inr ⟨if_pos h, if_pos h⟩
  · exact .inl (if_neg h)

theorem RemoteState.strict_byTheRules (remote : RemoteState) :
    (remote.client readRequest).ByTheRules := fun _ hbody _ hresp => client_refuses hbody hresp

/-- A parameter without its second marker. -/
def unmarked (d : Doc) : Doc :=
  match d.asStr.map String.toList with
  | some ('0' :: 'x' :: '0' :: 'x' :: cs) => .str (marked cs)
  | _ => d

/-- A reader that overlooks second markers. -/
def readLenient (body : Doc) : Option EthCall :=
  match (body.get "method").bind Doc.asStr, body.get "params" with
  | some method, some (.array params) => readCall method (params.map unmarked)
  | _, _ => none

theorem unmarked_marked {cs : List Char} (h : ∀ c ∈ cs, ∃ d, Radix.digitVal c = some d ∧ d < 16) :
    unmarked (.str (marked cs)) = .str (marked cs) := by
  unfold unmarked
  split
  · -- a second marker would have a letter that is no digit
    rename_i ds heq
    simp only [Doc.asStr, Option.map_some, marked, String.toList_ofList, Option.some.injEq,
      List.cons.injEq, true_and] at heq
    obtain ⟨d, hd, hlt⟩ := h 'x' (by simp [heq])
    rw [show Radix.digitVal 'x' = some 33 by decide] at hd
    cases hd
    omega
  · rfl

theorem unmarked_slot (s : B256) :
    unmarked (.str (marked (B256.toHex s).toList)) = .str (B256.toHex s) := by
  simp [unmarked, Doc.asStr, marked, B256.toHex, fixedHex]

/-- **It reads every question**, slots as well. -/
theorem readLenient_body (q : EthCall) : readLenient q.body = some q := by
  have hblock : ∀ b : U64, unmarked (.str (marked (Nat.toDigits 16 b.toNat)))
      = .str (marked (Nat.toDigits 16 b.toNat)) := fun b =>
    unmarked_marked fun _ hc => Radix.digitVal_of_toDigits (by omega) (by omega) hc
  have haddress : ∀ a : Address, unmarked (.str (Address.toHex a)) = .str (Address.toHex a) := fun a =>
    unmarked_marked fun _ hc => Radix.digitVal_of_padDigits (by omega) (by omega) hc
  have hslot : ∀ s : B256, readParam 256 (.str (B256.toHex s)) = some s :=
    readParam_fixedHex (by omega) (by omega)
  cases q <;>
    simp [readLenient, readCall, EthCall.body, requestMembers, Doc.get, Doc.asStr, EthCall.method,
      EthCall.args, hblock, haddress, unmarked_slot, hslot, readParam_address, readParam_block]

theorem RemoteState.lenient_node (remote : RemoteState) (block : U64) :
    (remote.client readLenient).Node block remote :=
  remote.client_node (fun q => .inl (readLenient_body q)) block

end Clients

/-- The first block of a chain, with one transaction of an account without code. -/
def touchingBlock : Block where
  header := { number := 1 }
  transactions := [{ fromAddr := some 0xA, toAddr := some 0xB, nonce := some 0, gas := some 21000 }]

/-- What its replay leaves of an empty database. -/
def touchedDb : StateDb :=
  (replayBlock (.counting smallKeccak256) smallKeccak256 .sorted .empty touchingBlock
    ethereumMainnet).db .empty

/-- The same state on a node. -/
def touchedState : RemoteState where
  account := fun a => if a = 0xA then ⟨1, 0, []⟩ else ⟨0, 0, []⟩
  storage := fun _ _ => 0

theorem reaches_touchedDb :
    CodeReaches (.counting smallKeccak256) smallKeccak256 .empty touchedDb := by
  have hstep : CodeStep (.counting smallKeccak256) smallKeccak256 .empty
      ((replayBlock (.counting smallKeccak256) smallKeccak256 .sorted .empty touchingBlock
        ethereumMainnet).dbAfter 1 .empty) := .replay .sorted touchingBlock ethereumMainnet 1
  exact .single hstep

theorem touchedDb_accounts : touchedDb.iterAccounts = .ok [(0xA, ⟨1, 0, KECCAK256_EMPTY⟩)] := by
  decide

theorem touchedDb_storage : touchedDb.iterStorage = [] := by
  decide

/-- **The node has the same state, and the report says it does not.** -/
theorem validateRandom_touched :
    let client := touchedState.client readRequest
    ∃ all report, CodeReaches (.counting smallKeccak256) smallKeccak256 .empty touchedDb
      ∧ Json.Reads client.fromStr ∧ client.Node 1 touchedState
      ∧ touchedDb.iterAccounts = .ok all
      ∧ validateRandom smallKeccak256 client.rpc .first touchedDb 10 1 = .ok report
      ∧ Agree smallKeccak256 touchedState (Sampler.first.sample all 10)
          (Sampler.first.sample touchedDb.iterStorage 10)
      ∧ report.isValid = false := by
  intro client
  -- the node is asked by the rules, and answers what the database has
  have hrun : (validateRandom smallKeccak256 client.rpc .first touchedDb 10 1).map
      ValidationReport.isValid = .ok false := by decide +kernel
  cases hreport : validateRandom smallKeccak256 client.rpc .first touchedDb 10 1 with
  | error e =>
      rw [hreport] at hrun
      cases hrun
  | ok report =>
      rw [hreport] at hrun
      refine ⟨_, report, reaches_touchedDb, Json.parse_render, touchedState.strict_node 1,
        touchedDb_accounts, rfl, ⟨?_, ?_⟩, Except.ok.inj hrun⟩
      · simp [checkedFields, Sampler.first, FieldAgrees, touchedState, codeOfHash, codeOfBytes]
      · simp [touchedDb_storage, Sampler.first]

theorem noEmptyHash_smallKeccak256 : NoEmptyHash smallKeccak256 := by
  intro code hcode
  rw [smallKeccak256, if_neg hcode]
  split_ifs <;> decide

/-- A genesis file with a contract that has a slot. -/
def slotGenesis : GenesisFile where
  alloc := (∅ : HashMap Address GenesisAccount).insert 0xC
    { code := some [0x61, 0x62, 0x63], storage := some ((∅ : HashMap B256 U256).insert 1 7) }

/-- The database after it. -/
def slotDb : StateDb := runGenesis smallKeccak256 .sorted .empty slotGenesis

/-- The contract on a node. -/
def slotState : RemoteState where
  account := fun a => if a = 0xC then ⟨0, 0, [0x61, 0x62, 0x63]⟩ else ⟨0, 0, []⟩
  storage := fun a s => if a = 0xC ∧ s = 1 then 7 else 0

theorem slotDb_accounts :
    slotDb.iterAccounts = .ok [(0xC, ⟨0, 0, smallKeccak256 [0x61, 0x62, 0x63]⟩)] := by
  decide +kernel

theorem slotDb_storage : slotDb.iterStorage = [(0xC, 1, 7)] := by
  decide +kernel

theorem reaches_slotDb : CodeReaches (.counting smallKeccak256) smallKeccak256 .empty slotDb :=
  .single (.genesis .sorted slotGenesis)

/--
Right after genesis the report of a contract and its slot is as it should be, from a node that
overlooks second markers; from one that does not there is none.
-/
theorem validateRandom_exact_iff_slot :
    (∃ report, validateRandom smallKeccak256 (slotState.client readLenient).rpc .first slotDb 10 0
        = .ok report ∧ report.isValid = true)
      ∧ ¬ ∃ report, validateRandom smallKeccak256 (slotState.client readRequest).rpc .first slotDb
          10 0 = .ok report
        ∧ report.Exact smallKeccak256 slotState
            [(0xC, ⟨0, 0, smallKeccak256 [0x61, 0x62, 0x63]⟩)] [(0xC, 1, 7)] := by
  have hsample : Sampler.first.sample slotDb.iterStorage 10 = [(0xC, 1, 7)] := by
    rw [slotDb_storage]
    rfl
  have hagree : Agree smallKeccak256 slotState
      [(0xC, ⟨0, 0, smallKeccak256 [0x61, 0x62, 0x63]⟩)] [(0xC, 1, 7)] := by
    constructor
    · simp [checkedFields, FieldAgrees, slotState, codeOfHash, codeOfBytes]
      decide +kernel
    · simp [slotState]
  constructor
  · obtain ⟨all, hall, hiff⟩ := validateRandom_exact_iff noEmptyHash_smallKeccak256 reaches_slotDb
      Json.parse_render (slotState.lenient_node 0) .first 10
    obtain rfl := Except.ok.inj (slotDb_accounts.symm.trans hall)
    obtain ⟨report, hreport, _, hvalid⟩ := hiff.mpr
      ⟨fun e _ => RemoteState.client_answers (readLenient_body _),
        by simp [Sampler.first, slotState]⟩
    rw [hsample] at hvalid
    exact ⟨report, hreport, hvalid hagree⟩
  · obtain ⟨all, hall, hiff⟩ := validateRandom_exact_iff noEmptyHash_smallKeccak256 reaches_slotDb
      Json.parse_render (slotState.strict_node 0) .first 10
    obtain rfl := Except.ok.inj (slotDb_accounts.symm.trans hall)
    rw [hsample] at hiff
    rintro ⟨report, hreport, hexact⟩
    obtain ⟨hslots, _⟩ := hiff.mp ⟨report, hreport, hexact, fun _ => hexact.isValid hagree⟩
    have hslot := hslots (0xC, 1, 7) (List.mem_singleton.mpr rfl)
    exact (slotState.strict_byTheRules.refuses 0xC 1 0).not_replies hslot

end EvmState
