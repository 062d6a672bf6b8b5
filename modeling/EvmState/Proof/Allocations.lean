import EvmState.Proof.CodeRefs

/-!
# What a genesis file allocates

A file stands for a map from addresses to accounts, with the numbers that its balances
and nonces denote (`GenesisDenotes`). The import rejects a file or leaves exactly that
map in an empty database, with a few exceptions: a nonce that is a negative number or a
float is no error but counts as no nonce at all, which is zero, and some text that is no
number is read as one (`genesis_exact_iff`).
-/

namespace EvmState

open Radix

/-! ## What the file stands for -/

def dropSign : List Char → List Char
  | '+' :: cs => cs
  | cs => cs

/-- A number in decimal, perhaps with a plus sign, or in hexadecimal behind its marker. -/
def Numeral (cs : List Char) (n : Nat) : Prop :=
  match stripHex cs with
  | some ds => numeral 16 ds = some n
  | none => numeral 10 (dropSign cs) = some n

/-- The two zeros among the floats. -/
def FloatZero (bits : BitVec 64) : Prop := bits = 0 ∨ bits = 0x8000000000000000

/-- What a field for a balance stands for; blanks do not count, and nothing else is zero. -/
def BalanceOf : Option JsonValue → Nat → Prop
  | none, n => n = 0
  | some .null, n => n = 0
  | some (.posInt k), n => n = k.toNat
  | some (.string s), n =>
      if Text.trim s.toList = [] then n = 0 else Numeral (Text.trim s.toList) n
  | _, _ => False

def NonceOf : Option JsonValue → Nat → Prop
  | none, n => n = 0
  | some .null, n => n = 0
  | some (.posInt k), n => n = k.toNat
  | some (.float bits), n => FloatZero bits ∧ n = 0
  | some (.string s), n => Numeral s.toList n
  | _, _ => False

def CodeOf : Option JsonValue → Bytes → Prop
  | none, code => code = []
  | some .null, code => code = []
  | some (.string s), code => decodeHex (hexBody s) = some code
  | _, _ => False

def StorageOf (u256 : JsonValue → Option U256) : Option JsonValue → HashMap B256 U256 → Prop
  | none, m => m = ∅
  | some .null, m => m = ∅
  | some (.object ms), m => ∃ entries : List (B256 × U256), m = Maps.insertAll ∅ entries
      ∧ List.Forall₂ (fun x e => B256.parse x.1 = some e.1 ∧ u256 x.2 = some e.2) ms entries
  | _, _ => False

/-- An account of the file. -/
structure Allocated where
  nonce : U64
  balance : U256
  code : Bytes
  storage : HashMap B256 U256

def AccountDenotes (u256 : JsonValue → Option U256) (v : JsonValue) (x : Allocated) : Prop :=
  ∃ balance code storage nonce, v.accountFields = some [balance, code, storage, nonce]
    ∧ BalanceOf balance x.balance.toNat ∧ CodeOf code x.code
    ∧ StorageOf u256 storage x.storage ∧ NonceOf nonce x.nonce.toNat

/-- The accounts of a file; of several entries for one address the last counts. -/
def GenesisDenotes (u256 : JsonValue → Option U256) (file : JsonValue)
    (alloc : Address → Option Allocated) : Prop :=
  ∃ ms entries, file.alloc = some ms ∧ alloc = Maps.lastValue entries
    ∧ List.Forall₂ (fun m e => Address.parse m.1 = some e.1 ∧ AccountDenotes u256 m.2 e.2)
        ms entries

/-- The database has these accounts, and no others, at block 0. -/
structure StateDb.Holds (db : StateDb) (alloc : Address → Option Allocated) : Prop where
  head : db.getHeadBlock = .ok (some 0)
  absent : ∀ a, alloc a = none → db.getAccount a = .ok none
  account : ∀ a x, alloc a = some x → ∃ h, db.getAccount a = .ok (some ⟨x.nonce, x.balance, h⟩)
    ∧ db.codeByHashRef h = x.code
  storage : ∀ a s, db.storageRef a s
    = .ok (((alloc a).bind fun x => x.storage[s]?).getD 0)

/-! ## The readers -/

theorem dropSign_of_notMem {cs : List Char} (h : '+' ∉ cs) : dropSign cs = cs := by
  unfold dropSign
  split
  · exact absurd List.mem_cons_self h
  · rfl

/-- A nonce that is read though it is none: no integer, or hexadecimal with a sign. -/
def JsonValue.NoNonce : JsonValue → Prop
  | .negInt _ => True
  | .float bits => ¬ FloatZero bits
  | .string s => ∃ ds, stripHex s.toList = some ('+' :: ds)
  | _ => False

/-- A balance that is read though it is none: one with a separator, or a marker alone. -/
def JsonValue.NoBalance : JsonValue → Prop
  | .string s => '_' ∈ Text.trim s.toList ∨ stripHex (Text.trim s.toList) = some []
  | _ => False

theorem numeral_of_marker {cs ds : List Char} {n : Nat} (h : stripHex cs = some ds) :
    Numeral cs n ↔ numeral 16 ds = some n := by
  rw [Numeral, h]

theorem numeral_of_noMarker {cs : List Char} {n : Nat} (h : stripHex cs = none) :
    Numeral cs n ↔ numeral 10 (dropSign cs) = some n := by
  rw [Numeral, h]

theorem mem_of_stripHex {cs ds : List Char} {c : Char} (h : stripHex cs = some ds) (hc : c ∈ ds) :
    c ∈ cs := by
  unfold stripHex at h
  split at h
  · rw [← Option.some.inj h] at hc
    simp [hc]
  · rw [← Option.some.inj h] at hc
    simp [hc]
  · cases h

theorem mem_of_mem_stripHex {cs ds : List Char} (h : stripHex cs = some ds) (hc : '_' ∈ cs) :
    '_' ∈ ds := by
  unfold stripHex at h
  split at h
  · rw [← Option.some.inj h]
    simpa using hc
  · rw [← Option.some.inj h]
    simpa using hc
  · cases h

theorem mem_dropSign {cs : List Char} (hc : '_' ∈ cs) : '_' ∈ dropSign cs := by
  unfold dropSign
  split
  · simpa using hc
  · exact hc

/-- Without separators, and if it is anything, what is read of a `U256` is a numeral. -/
theorem numeral_u256 {base : Nat} {cs : List Char} {v : U256} (hne : cs ≠ []) (hsep : '_' ∉ cs)
    (h : U256.fromStrRadix cs base = some v) : numeral base cs = some v.toNat := by
  rw [U256.fromStrRadix, filter_of_notMem hsep] at h
  obtain ⟨n, hn, hv⟩ := Option.bind_eq_some_iff.mp h
  rw [toNat_of_fits hv]
  exact numeral_eq_some.mpr ⟨hne, hn⟩

/-- What is read of a `u64` is one behind its sign. -/
theorem numeral_u64 {base : Nat} {cs : List Char} {x : U64}
    (h : U64.fromStrRadix cs base = some x) : numeral base (dropSign cs) = some x.toNat := by
  unfold U64.fromStrRadix at h
  split at h
  · cases h
  · cases h
  · -- a plus sign is taken off before the digits are read
    rename_i ds hne
    obtain ⟨n, hn, hx⟩ := Option.bind_eq_some_iff.mp h
    rw [toNat_of_fits hx]
    exact numeral_eq_some.mpr ⟨fun hnil => hne (by rw [show ds = [] from hnil]), hn⟩
  · rename_i hne hplus _
    obtain ⟨n, hn, hx⟩ := Option.bind_eq_some_iff.mp h
    -- without one the digits are read as they are
    have hsign : '+' ∉ cs := notMem_of_readDigits (by decide) hn
    rw [toNat_of_fits hx, dropSign_of_notMem hsign]
    exact numeral_eq_some.mpr ⟨hne, hn⟩

/-- A balance is read as what it stands for, unless it is none. -/
theorem balanceOf_read {field : Option JsonValue} {balance : Option U256}
    (h : readField deserializeBalance field = some balance)
    (hnum : ∀ v, field = some v → ¬ v.NoBalance) : BalanceOf field (balance.getD 0).toNat := by
  cases field with
  | none => cases h; rfl
  | some v =>
      rw [readField, deserializeBalance] at h
      cases v with
      | null => cases h; rfl
      | string s =>
          simp only [JsonValue.optString] at h
          obtain ⟨hsep, hdigits⟩ := not_or.mp (hnum _ rfl)
          simp only [BalanceOf]
          -- blanks count as zero, for the code and for the format
          by_cases hnil : Text.trim s.toList = []
          · rw [if_pos (.inl hnil)] at h
            rw [if_pos hnil, ← Option.some.inj h]
            rfl
          · rw [if_neg hnil]
            split at h
            · -- the two spellings of zero that are looked at first
              rename_i hzero
              cases h
              rcases hzero.resolve_left hnil with hs | hs
              · rw [hs]
                exact (rfl : numeral 10 ['0'] = some 0)
              · rw [hs]
                exact (rfl : numeral 16 ['0'] = some 0)
            · split at h
              · rename_i ds hds
                obtain ⟨v, hv, rfl⟩ := Option.map_eq_some_iff.mp h
                refine (numeral_of_marker hds).mpr ?_
                refine numeral_u256 (fun hds' => hdigits (hds' ▸ hds)) (fun hin => ?_) hv
                exact hsep (mem_of_stripHex hds hin)
              · rename_i hds
                obtain ⟨v, hv, rfl⟩ := Option.map_eq_some_iff.mp h
                have hread := numeral_u256 hnil hsep hv
                -- ruint knows no sign, so what it reads has none
                have hsign : '+' ∉ Text.trim s.toList :=
                  notMem_of_readDigits (by decide) (numeral_eq_some.mp hread).2
                refine (numeral_of_noMarker hds).mpr ?_
                rw [dropSign_of_notMem hsign]
                exact hread
      | bool b => cases h
      | posInt n => cases h
      | negInt n => cases h
      | float bits => cases h
      | array items => cases h
      | object ms => cases h

/-- Such a balance stands for nothing. -/
theorem not_balanceOf {v : JsonValue} (h : v.NoBalance) (n : Nat) : ¬ BalanceOf (some v) n := by
  intro hn
  cases v with
  | string s =>
      -- a blank has neither a separator nor a marker
      have hne : Text.trim s.toList ≠ [] := by
        intro hnil
        rw [JsonValue.NoBalance, hnil] at h
        rcases h with h | h <;> cases h
      simp only [BalanceOf, if_neg hne] at hn
      rcases h with hsep | hmarker
      · cases hds : stripHex (Text.trim s.toList) with
        | some ds =>
            have hread := (numeral_of_marker hds).mp hn
            exact notMem_of_readDigits (by decide) (numeral_eq_some.mp hread).2
              (mem_of_mem_stripHex hds hsep)
        | none =>
            have hread := (numeral_of_noMarker hds).mp hn
            exact notMem_of_readDigits (by decide) (numeral_eq_some.mp hread).2 (mem_dropSign hsep)
      · have hread := (numeral_of_marker hmarker).mp hn
        cases hread
  | null => exact h
  | bool b => exact h
  | posInt k => exact h
  | negInt k => exact h
  | float bits => exact h
  | array items => exact h
  | object ms => exact h

/-- A nonce is read as what it stands for, unless it is none. -/
theorem nonceOf_read {field : Option JsonValue} {nonce : Option U64}
    (h : readField deserializeOptionalU64Hex field = some nonce)
    (hint : ∀ v, field = some v → ¬ v.NoNonce) : NonceOf field (nonce.getD 0).toNat := by
  cases field with
  | none => cases h; rfl
  | some v =>
      rw [readField] at h
      cases v with
      | null => cases h; rfl
      | posInt n => cases h; rfl
      | negInt n => exact absurd trivial (hint _ rfl)
      | float bits =>
          cases h
          exact ⟨not_not.mp (hint _ rfl), rfl⟩
      | string s =>
          simp only [deserializeOptionalU64Hex] at h
          show Numeral s.toList _
          split at h
          · rename_i ds hds
            obtain ⟨x, hx, rfl⟩ := Option.map_eq_some_iff.mp h
            -- a sign behind the marker is what the condition excludes
            have hsign : dropSign ds = ds := by
              unfold dropSign
              split
              · exact absurd ⟨_, hds⟩ (hint _ rfl)
              · rfl
            have hread := numeral_u64 hx
            rw [hsign] at hread
            exact (numeral_of_marker hds).mpr hread
          · rename_i hds
            obtain ⟨x, hx, rfl⟩ := Option.map_eq_some_iff.mp h
            exact (numeral_of_noMarker hds).mpr (numeral_u64 hx)
      | bool b => cases h
      | array items => cases h
      | object ms => cases h

/-- Such a nonce stands for nothing. -/
theorem not_nonceOf {v : JsonValue} (h : v.NoNonce) (n : Nat) : ¬ NonceOf (some v) n := by
  intro hn
  cases v with
  | negInt k => exact hn
  | float bits => exact h hn.1
  | string s =>
      obtain ⟨ds, hds⟩ := h
      have hread := (numeral_of_marker hds).mp hn
      exact notMem_of_readDigits (by decide) (numeral_eq_some.mp hread).2 List.mem_cons_self
  | null => exact h
  | bool b => exact h
  | posInt k => exact h
  | array items => exact h
  | object ms => exact h

theorem codeOf_read {field : Option JsonValue} {code : Option Bytes}
    (h : readField deserializeOptionalCode field = some code) : CodeOf field (code.getD []) := by
  cases field with
  | none => cases h; rfl
  | some v =>
      rw [readField, deserializeOptionalCode] at h
      cases v with
      | null => cases h; rfl
      | string s =>
          obtain ⟨bytes, hbytes, rfl⟩ := Option.map_eq_some_iff.mp h
          exact hbytes
      | bool b => cases h
      | posInt n => cases h
      | negInt n => cases h
      | float bits => cases h
      | array items => cases h
      | object ms => cases h

theorem storageEntry_eq_some {u256 : JsonValue → Option U256} {m : String × JsonValue}
    {e : B256 × U256} (h : storageEntry u256 m = some e) :
    B256.parse m.1 = some e.1 ∧ u256 m.2 = some e.2 := by
  rw [storageEntry] at h
  split at h
  · rename_i slot value hslot hvalue
    cases h
    exact ⟨hslot, hvalue⟩
  · cases h

theorem storageOf_read {u256 : JsonValue → Option U256} {field : Option JsonValue}
    {storage : Option (HashMap B256 U256)}
    (h : readField (deserializeStorage u256) field = some storage) :
    StorageOf u256 field (storage.getD ∅) := by
  cases field with
  | none => cases h; rfl
  | some v =>
      rw [readField] at h
      cases v with
      | null => cases h; rfl
      | object ms =>
          rw [deserializeStorage] at h
          obtain ⟨entries, hentries, rfl⟩ := Option.map_eq_some_iff.mp h
          exact ⟨entries, rfl, (Lists.forall₂_of_mapM_some hentries).imp
            fun _ _ he => storageEntry_eq_some he⟩
      | bool b => cases h
      | posInt n => cases h
      | negInt n => cases h
      | float bits => cases h
      | array items => cases h
      | string s => cases h

/-! ## The accounts -/

/-- What the import makes of an account. -/
def GenesisAccount.allocated (account : GenesisAccount) : Allocated where
  nonce := account.nonce.getD 0
  balance := account.balance.getD 0
  code := account.code.getD []
  storage := account.storage.getD ∅

/-- The entry has a balance or a nonce that is read though it is none. -/
def JsonValue.MisreadEntry (v : JsonValue) : Prop :=
  ∃ balance code storage nonce, v.accountFields = some [balance, code, storage, nonce]
    ∧ ((∃ x, balance = some x ∧ x.NoBalance) ∨ ∃ x, nonce = some x ∧ x.NoNonce)

/-- An entry is read as what it stands for, unless it has one of these. -/
theorem accountDenotes_read {u256 : JsonValue → Option U256} {v : JsonValue}
    {account : GenesisAccount} (h : GenesisAccount.ofJson u256 v = some account)
    (hread : ¬ v.MisreadEntry) : AccountDenotes u256 v account.allocated := by
  rw [GenesisAccount.ofJson] at h
  obtain ⟨fields, hfields, h⟩ := Option.bind_eq_some_iff.mp h
  unfold GenesisAccount.ofFields at h
  split at h
  · rename_i balance code storage nonce
    split at h
    · rename_i hbalance hcode hstorage hnonce
      cases h
      refine ⟨balance, code, storage, nonce, hfields, balanceOf_read hbalance ?_, codeOf_read hcode,
        storageOf_read hstorage, nonceOf_read hnonce ?_⟩
      · -- an entry with such a balance or nonce is one that is misread
        rintro x rfl hx
        exact hread ⟨some x, code, storage, nonce, hfields, .inl ⟨x, rfl, hx⟩⟩
      · rintro x rfl hx
        exact hread ⟨balance, code, storage, some x, hfields, .inr ⟨x, rfl, hx⟩⟩
    · cases h
  · cases h

theorem not_accountDenotes {u256 : JsonValue → Option U256} {v : JsonValue}
    (h : v.MisreadEntry) (x : Allocated) : ¬ AccountDenotes u256 v x := by
  rintro ⟨_, _, _, _, hfields, hbalance, _, _, hnonce⟩
  obtain ⟨_, _, _, _, hfields', hmisread⟩ := h
  rw [hfields] at hfields'
  cases hfields'
  rcases hmisread with ⟨y, rfl, hy⟩ | ⟨y, rfl, hy⟩
  · exact not_balanceOf hy _ hbalance
  · exact not_nonceOf hy _ hnonce

theorem genesisEntry_eq_some {u256 : JsonValue → Option U256} {m : String × JsonValue}
    {e : Address × GenesisAccount} (h : genesisEntry u256 m = some e) :
    Address.parse m.1 = some e.1 ∧ GenesisAccount.ofJson u256 m.2 = some e.2 := by
  rw [genesisEntry] at h
  split at h
  · rename_i address account haddress haccount
    cases h
    exact ⟨haddress, haccount⟩
  · cases h

/-- Some entry of the file is misread. -/
def JsonValue.Misread (file : JsonValue) : Prop :=
  ∃ ms, file.alloc = some ms ∧ ∃ m ∈ ms, m.2.MisreadEntry

/-- The accounts the import makes of the file. -/
def GenesisFile.allocated (genesis : GenesisFile) (a : Address) : Option Allocated :=
  (genesis.alloc[a]?).map GenesisAccount.allocated

/-- A file that is read has the accounts it stands for exactly if none is misread. -/
theorem genesisDenotes_iff {u256 : JsonValue → Option U256} {file : JsonValue}
    {genesis : GenesisFile} (h : GenesisFile.ofJson u256 file = some genesis) :
    (¬ file.Misread → GenesisDenotes u256 file genesis.allocated)
      ∧ ∀ alloc, GenesisDenotes u256 file alloc → ¬ file.Misread := by
  constructor
  · intro hint
    rw [GenesisFile.ofJson] at h
    obtain ⟨ms, hms, h⟩ := Option.bind_eq_some_iff.mp h
    obtain ⟨entries, hentries, rfl⟩ := Option.map_eq_some_iff.mp h
    refine ⟨ms, entries.map fun e => (e.1, e.2.allocated), hms, ?_, ?_⟩
    · -- both sides take the last entry for an address
      funext a
      rw [GenesisFile.allocated, Maps.lastValue_map, Maps.insertAll_getElem?]
      simp
    · have hok : ∀ m ∈ ms, ¬ m.2.MisreadEntry := fun m hm hn => hint ⟨ms, hms, m, hm, hn⟩
      have hread := Lists.forall₂_of_mapM_some hentries
      rw [List.forall₂_map_right_iff]
      refine ((List.forall₂_and_left ms entries).mpr ⟨hok, hread⟩).imp ?_
      rintro m e ⟨hm, he⟩
      obtain ⟨haddress, haccount⟩ := genesisEntry_eq_some he
      exact ⟨haddress, accountDenotes_read haccount hm⟩
  · rintro alloc ⟨ms, entries, hms, -, hall⟩ ⟨ms', hms', m, hm, hnonce⟩
    rw [hms] at hms'
    cases hms'
    obtain ⟨e, -, -, he⟩ := Lists.exists_mem_right hall hm
    exact not_accountDenotes hnonce e.2 he

/-! ## The database -/

/-- The codes of a file. -/
def GenesisFile.codes (genesis : GenesisFile) : Set Bytes :=
  {code | ∃ (a : Address) (account : GenesisAccount),
    genesis.alloc[a]? = some account ∧ account.code = some code}

section Database

variable {keccak256 : Bytes → B256} {σ : HashOrder} {genesis : GenesisFile}

theorem isAt_runGenesis : (runGenesis keccak256 σ .empty genesis).IsAt (genesis.base keccak256) 0 := by
  refine ((putOver_runGenesis .empty).isAt_iff (getHeadBlock_runGenesis .empty)).mpr ⟨?_, ?_⟩
  · intro a h
    exact absurd rfl h
  · intro a s h
    exact absurd rfl h

/-- The code of an entry is found under its hash, as no two codes share one. -/
theorem codeByHashRef_runGenesis (hinj : Set.InjOn keccak256 genesis.codes)
    (hzero : ∀ code ∈ genesis.codes, keccak256 code ≠ 0) {a : Address} {account : GenesisAccount}
    (hacc : genesis.alloc[a]? = some account) :
    (runGenesis keccak256 σ .empty genesis).codeByHashRef (account.info keccak256).codeHash
      = account.code.getD [] := by
  have hget : ∀ h, (runGenesis keccak256 σ .empty genesis).getCode h
      = ((genesisWrites keccak256 σ genesis).lastVal (.code h)).getD none := by
    intro h
    exact StateDb.getCf_commit .empty (genesisWrites keccak256 σ genesis) (.code h)
  rw [StateDb.codeByHashRef, hget]
  cases hcode : account.code with
  | none =>
      have hhash : (account.info keccak256).codeHash = 0 := by rw [GenesisAccount.info, hcode]
      have hnone : (genesisWrites keccak256 σ genesis).lastVal (.code 0) = none := by
        refine WriteBatch.lastVal_eq_none_iff.mpr fun w hw hk => ?_
        obtain ⟨a', account', code, hacc', hcode', rfl⟩ := genesis_code_write hw hk
        exact hzero code ⟨a', account', hacc', hcode'⟩ (Key.code.inj hk)
      rw [hhash, hnone]
      rfl
  | some code =>
      have hhash : (account.info keccak256).codeHash = keccak256 code := by
        rw [GenesisAccount.info, hcode]
      rw [hhash]
      cases hlast : (genesisWrites keccak256 σ genesis).lastVal (.code (keccak256 code)) with
      | none =>
          -- only empty code is not written
          by_cases hne : code = []
          · rw [hne]
            rfl
          · have hmem : Write.setCode (keccak256 code) code ∈ genesisWrites keccak256 σ genesis :=
              mem_genesisWrites.mpr (.inl ⟨a, account, hacc, List.mem_append_left _ (by
                simp [GenesisAccount.codeBatch, hcode, hne])⟩)
            exact absurd rfl (WriteBatch.lastVal_eq_none_iff.mp hlast _ hmem)
      | some v =>
          obtain ⟨w, hw, hk, rfl⟩ := WriteBatch.mem_of_lastVal hlast
          obtain ⟨a', account', code', hacc', hcode', rfl⟩ := genesis_code_write hw hk
          have hsame : code' = code :=
            hinj ⟨a', account', hacc', hcode'⟩ ⟨a, account, hacc, hcode⟩ (Key.code.inj hk)
          rw [hsame]
          rfl

/-- The import leaves the accounts it made of the file in an empty database. -/
theorem holds_runGenesis (hinj : Set.InjOn keccak256 genesis.codes)
    (hzero : ∀ code ∈ genesis.codes, keccak256 code ≠ 0) :
    (runGenesis keccak256 σ .empty genesis).Holds genesis.allocated := by
  have hat : (runGenesis keccak256 σ .empty genesis).IsAt (genesis.base keccak256) 0 :=
    isAt_runGenesis
  refine ⟨hat.head, fun a ha => ?_, fun a x hx => ?_, fun a s => ?_⟩
  · rw [GenesisFile.allocated, Option.map_eq_none_iff] at ha
    have hbase : (genesis.base keccak256).account a = none := by simp [GenesisFile.base, ha]
    rw [hat.accounts, hbase]
  · obtain ⟨account, hacc, rfl⟩ := Option.map_eq_some_iff.mp hx
    have hbase : (genesis.base keccak256).account a = some (account.info keccak256) := by
      simp [GenesisFile.base, hacc]
    -- the hash tells the codes apart, so the one that was filed is found
    refine ⟨(account.info keccak256).codeHash, ?_, codeByHashRef_runGenesis hinj hzero hacc⟩
    rw [hat.accounts, hbase]
    rfl
  · have hbase : (genesis.base keccak256).slot a s
        = (genesis.alloc[a]?).bind fun account => account.storage.bind fun m => m[s]? := rfl
    rw [StateDb.storageRef, hat.storage, hbase, GenesisFile.allocated]
    cases genesis.alloc[a]? with
    | none => rfl
    | some account =>
        dsimp only [Option.bind_some, Option.map_some, GenesisAccount.allocated]
        cases account.storage with
        | none => simp
        | some m => rfl

end Database

/-! ## The import -/

/-- A rejected file leaves the database empty, and any other one with the accounts it stands for. -/
structure ImportExact (json : String → Option JsonValue) (u256 : JsonValue → Option U256)
    (keccak256 : Bytes → B256) (σ : HashOrder) (contents : Option String) : Prop where
  rejected : ∀ e, (importGenesis json u256 keccak256 σ .empty contents).2 = .error e →
    (importGenesis json u256 keccak256 σ .empty contents).1 = .empty
  imported : (importGenesis json u256 keccak256 σ .empty contents).2 = .ok () →
    ∃ text file alloc, contents = some text ∧ json text = some file
      ∧ GenesisDenotes u256 file alloc
      ∧ (importGenesis json u256 keccak256 σ .empty contents).1.Holds alloc

/-- A file that is read is imported. -/
theorem importGenesis_of_read {json : String → Option JsonValue} {u256 : JsonValue → Option U256}
    {text : String} {genesis : GenesisFile}
    (h : (json text).bind (GenesisFile.ofJson u256) = some genesis) (keccak256 : Bytes → B256)
    (σ : HashOrder) (db : StateDb) :
    importGenesis json u256 keccak256 σ db (some text)
      = (runGenesis keccak256 σ db genesis, .ok ()) := by
  rw [importGenesis, h]

theorem importExact_of_rejected {json : String → Option JsonValue}
    {u256 : JsonValue → Option U256} {keccak256 : Bytes → B256} {σ : HashOrder}
    {contents : Option String} {e : GenesisError}
    (h : importGenesis json u256 keccak256 σ .empty contents = (.empty, .error e)) :
    ImportExact json u256 keccak256 σ contents := by
  refine ⟨fun _ _ => by rw [h], fun hok => ?_⟩
  rw [h] at hok
  cases hok

/--
**When a genesis import is exact.** When no nonce of the file is a number that is no
integer or hexadecimal with a sign, and no balance has a separator or is a marker alone, or
the file is rejected for something else. The hash is to tell the codes of the file from
each other and from no code.
-/
theorem genesis_exact_iff (json : String → Option JsonValue) (u256 : JsonValue → Option U256)
    (keccak256 : Bytes → B256) (σ : HashOrder) (contents : Option String)
    (hkeccak : ∀ text genesis, contents = some text →
      (json text).bind (GenesisFile.ofJson u256) = some genesis →
      Set.InjOn keccak256 genesis.codes ∧ ∀ code ∈ genesis.codes, keccak256 code ≠ 0) :
    ImportExact json u256 keccak256 σ contents
      ↔ ∀ text file, contents = some text → json text = some file →
          (GenesisFile.ofJson u256 file).isSome → ¬ file.Misread := by
  constructor
  · rintro h text file rfl hfile hread
    obtain ⟨genesis, hgenesis⟩ := Option.isSome_iff_exists.mp hread
    have hok : (importGenesis json u256 keccak256 σ .empty (some text)).2 = .ok () := by
      rw [importGenesis_of_read (by rw [hfile, Option.bind_some, hgenesis])]
    -- an import that succeeds says what the file denotes, so nothing in it is misread
    obtain ⟨text', file', alloc, htext, hfile', hdenotes, -⟩ := h.imported hok
    cases htext
    rw [hfile] at hfile'
    cases hfile'
    exact (genesisDenotes_iff hgenesis).2 alloc hdenotes
  · intro h
    cases contents with
    | none => exact importExact_of_rejected rfl
    | some text =>
        cases hgenesis : (json text).bind (GenesisFile.ofJson u256) with
        | none =>
            exact importExact_of_rejected (by rw [importGenesis, hgenesis])
        | some genesis =>
            have hrun := importGenesis_of_read hgenesis keccak256 σ .empty
            obtain ⟨file, hfile, hread⟩ := Option.bind_eq_some_iff.mp hgenesis
            obtain ⟨hinj, hzero⟩ := hkeccak text genesis rfl hgenesis
            -- a file that is read and has nothing misread denotes what is imported
            have hint := h text file rfl hfile (by rw [hread]; rfl)
            refine ⟨fun e herr => ?_, fun _ => ?_⟩
            · rw [hrun] at herr
              cases herr
            · refine ⟨text, file, genesis.allocated, rfl, hfile,
                (genesisDenotes_iff hread).1 hint, ?_⟩
              rw [hrun]
              exact holds_runGenesis hinj hzero

/-- A file with one entry. -/
def oneEntry (account : JsonMembers) : JsonValue :=
  .object [("alloc", .object [(Address.toHex 0xC, .object account)])]

theorem ofJson_oneEntry {u256 : JsonValue → Option U256} {ms : JsonMembers}
    {account : GenesisAccount} (h : GenesisAccount.ofJson u256 (.object ms) = some account) :
    GenesisFile.ofJson u256 (oneEntry ms) = some ⟨Maps.insertAll ∅ [(0xC, account)]⟩ := by
  have halloc : (oneEntry ms).alloc = some [(Address.toHex 0xC, .object ms)] := rfl
  have hentry : genesisEntry u256 (Address.toHex 0xC, .object ms) = some (0xC, account) := by
    rw [genesisEntry, Address.parse_toHex, h]
  rw [GenesisFile.ofJson, halloc, Option.bind_some, List.mapM_cons, hentry]
  rfl

/-- A library that reads one text as this file. -/
def readsAs (text : String) (file : JsonValue) (t : String) : Option JsonValue :=
  if t = text then some file else none

theorem readsAs_self (text : String) (file : JsonValue) : readsAs text file text = some file :=
  if_pos rfl

/-- An account with the nonce minus one. -/
def minusOneText : String :=
  "\x7b\"alloc\":\x7b\"" ++ Address.toHex 0xC ++ "\":\x7b\"nonce\":-1\x7d\x7d\x7d"

/-- A nonce of minus one is no error: the account is imported, with nonce zero. -/
theorem genesis_misreads_nonce :
    let json := readsAs minusOneText (oneEntry [("nonce", .negInt 1)])
    let s := importGenesis json (fun _ => none) smallKeccak256 .sorted .empty (some minusOneText)
    s.2 = .ok () ∧ s.1.getAccount 0xC = .ok (some ⟨0, 0, 0⟩)
      ∧ ¬ ImportExact json (fun _ => none) smallKeccak256 .sorted (some minusOneText) := by
  intro json s
  have hread : GenesisFile.ofJson (fun _ => none) (oneEntry [("nonce", .negInt 1)])
      = some ⟨Maps.insertAll ∅ [(0xC, {})]⟩ := ofJson_oneEntry rfl
  have hfile : json minusOneText = some (oneEntry [("nonce", .negInt 1)]) := readsAs_self _ _
  have hs : s = (runGenesis smallKeccak256 .sorted .empty ⟨Maps.insertAll ∅ [(0xC, {})]⟩, .ok ()) :=
    importGenesis_of_read (by rw [hfile, Option.bind_some, hread]) ..
  have hok : s.2 = .ok () := by rw [hs]
  refine ⟨hok, by rw [hs]; decide, fun h => ?_⟩
  obtain ⟨text, file, alloc, htext, hfile', hdenotes, _⟩ := h.imported hok
  cases htext
  rw [hfile] at hfile'
  cases hfile'
  -- nothing is denoted by a file with this nonce
  refine (genesisDenotes_iff hread).2 alloc hdenotes ?_
  exact ⟨_, rfl, _, List.mem_singleton.mpr rfl, none, none, none, some (.negInt 1), rfl,
    .inr ⟨_, rfl, trivial⟩⟩

/-- An account with a balance, code and a nonce. -/
def abcText : String :=
  "\x7b\"alloc\":\x7b\"" ++ Address.toHex 0xC
    ++ "\":\x7b\"balance\":\"0x64\",\"code\":\"0x616263\",\"nonce\":7\x7d\x7d\x7d"

/-- Its fields. -/
def abcFields : JsonMembers :=
  [("balance", .string "0x64"), ("code", .string "0x616263"), ("nonce", .posInt 7)]

theorem genesis_exact_iff_abc :
    ImportExact (readsAs abcText (oneEntry abcFields)) (fun _ => none) smallKeccak256 .sorted
      (some abcText) := by
  have hbalance : deserializeBalance (.string "0x64") = some (some 100) := by decide
  have hcode : deserializeOptionalCode (.string "0x616263") = some (some [0x61, 0x62, 0x63]) := by
    decide
  have hfields : JsonValue.accountFields (.object abcFields)
      = some [some (.string "0x64"), some (.string "0x616263"), none, some (.posInt 7)] := rfl
  have haccount : GenesisAccount.ofJson (fun _ => none) (.object abcFields)
      = some { balance := some 100, code := some [0x61, 0x62, 0x63], nonce := some 7 } := by
    rw [GenesisAccount.ofJson, hfields, Option.bind_some]
    simp only [GenesisAccount.ofFields, readField, hbalance, hcode, deserializeOptionalU64Hex]
  refine (genesis_exact_iff _ _ _ _ _ ?_).mpr ?_
  · rintro text genesis htext hgenesis
    cases htext
    rw [readsAs_self, Option.bind_some, ofJson_oneEntry haccount] at hgenesis
    cases hgenesis
    have hcodes : ∀ code, code ∈ GenesisFile.codes ⟨Maps.insertAll ∅
        [(0xC, { balance := some 100, code := some [0x61, 0x62, 0x63], nonce := some 7 })]⟩ →
        code = [0x61, 0x62, 0x63] := by
      rintro code ⟨a, account, hacc, hcode⟩
      have hmem := Maps.mem_of_insertAll hacc
      cases List.mem_singleton.mp hmem
      exact (Option.some.inj hcode).symm
    refine ⟨fun c hc c' hc' _ => (hcodes c hc).trans (hcodes c' hc').symm, fun c hc => ?_⟩
    rw [hcodes c hc]
    decide
  · rintro text file htext hfile _ ⟨ms, hms, m, hm, _, _, _, _, hentry, hmisread⟩
    cases htext
    rw [readsAs_self] at hfile
    cases hfile
    cases (show some [(_, _)] = some ms from hms)
    cases List.mem_singleton.mp hm
    rw [hfields] at hentry
    cases hentry
    rcases hmisread with ⟨x, hx, hbad⟩ | ⟨x, hx, hbad⟩
    · cases hx
      exact absurd hbad (by simp only [JsonValue.NoBalance]; decide)
    · cases hx
      exact hbad

end EvmState
