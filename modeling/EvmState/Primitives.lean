import EvmState.Lib.Radix

/-!
# Words, addresses and hashes, and the text they travel as

`u64`, `U256`, `B256` and `Address` are bit vectors of their width; a `B256` made
from a `U256` is the same bits, which is why the two share one representation.

Every crate moves these values as hexadecimal text. Quantities are printed
without leading zeros (`{:#x}` of a `U256`), hashes and addresses at full width,
byte strings two digits a byte. The readers are those of the source: `U256` and
byte strings accept an optional `0x`, fixed-width values need exactly their
number of digits behind it.
-/

namespace EvmState

open Radix

abbrev Bytes := List UInt8
abbrev U64 := BitVec 64
abbrev U256 := BitVec 256
abbrev B256 := BitVec 256
abbrev Address := BitVec 160

/-- Maps keyed by addresses are ordered by value. -/
instance : Std.TransOrd Address := BitVec.instTransOrd

/-- Maps keyed by words are ordered by value. -/
instance : Std.TransOrd U256 := BitVec.instTransOrd

/-- keccak256 of the empty string, alloy's `KECCAK256_EMPTY`. -/
def KECCAK256_EMPTY : B256 := 0xc5d2460186f7233c927e7db2dcc703c0e500b653ca82273b7bfad8045d85a470

/-- `s.strip_prefix("0x").unwrap_or(s)`, as characters. -/
def hexBody (s : String) : List Char :=
  match s.toList with
  | '0' :: 'x' :: cs => cs
  | cs => cs

/-- Digits behind the `0x` marker. -/
def marked (cs : List Char) : String := String.ofList ('0' :: 'x' :: cs)

@[simp] theorem hexBody_marked (cs : List Char) : hexBody (marked cs) = cs := by
  simp [hexBody, marked]

/-- The value as an `n`-bit word, if it fits. -/
def fits (n v : Nat) : Option (BitVec n) := if v < 2 ^ n then some (BitVec.ofNat n v) else none

@[simp] theorem fits_toNat {n : Nat} (x : BitVec n) : fits n x.toNat = some x := by
  simp [fits, x.isLt]

theorem toNat_of_fits {n v : Nat} {x : BitVec n} (h : fits n v = some x) : x.toNat = v := by
  unfold fits at h
  split at h
  · rename_i hv
    rw [← Option.some.inj h, BitVec.toNat_ofNat, Nat.mod_eq_of_lt hv]
  · cases h

/-! ## Quantities -/

/-- `format!("{:#x}", v)` of a `U256`. -/
def U256.toHex (v : U256) : String := marked (Nat.toDigits 16 v.toNat)

/-- `U256::from_str_radix`: underscores are skipped, no digits at all mean zero. -/
def U256.fromStrRadix (cs : List Char) (radix : Nat) : Option U256 :=
  (readDigits radix (cs.filter (· != '_'))).bind (fits 256)

/-- `u64::from_str_radix`: one digit at least, an optional plus sign, no underscores. -/
def U64.fromStrRadix (cs : List Char) (radix : Nat) : Option U64 :=
  match cs with
  | [] | ['+'] => none
  | '+' :: ds => (readDigits radix ds).bind (fits 64)
  | ds => (readDigits radix ds).bind (fits 64)

theorem filter_of_notMem {cs : List Char} (h : '_' ∉ cs) : cs.filter (· != '_') = cs := by
  rw [List.filter_eq_self]
  intro c hc
  rw [bne_iff_ne]
  rintro rfl
  exact h hc

/-- Every numeral that fits is read. -/
theorem U256.fromStrRadix_of_numeral {cs : List Char} {radix v : Nat} {x : U256}
    (h : numeral radix cs = some v) (hx : fits 256 v = some x) :
    U256.fromStrRadix cs radix = some x := by
  have hread := (numeral_eq_some.mp h).2
  rw [fromStrRadix, filter_of_notMem (notMem_of_readDigits (by decide) hread), hread,
    Option.bind_some, hx]

theorem U64.fromStrRadix_of_numeral {cs : List Char} {radix v : Nat} {x : U64}
    (h : numeral radix cs = some v) (hx : fits 64 v = some x) :
    U64.fromStrRadix cs radix = some x := by
  obtain ⟨hne, hread⟩ := numeral_eq_some.mp h
  have hplus : '+' ∉ cs := notMem_of_readDigits (by decide) hread
  unfold fromStrRadix
  split
  · exact absurd rfl hne
  · exact absurd List.mem_cons_self hplus
  · exact absurd List.mem_cons_self hplus
  · rw [hread, Option.bind_some, hx]

/-- What reads as a `u64`, without a sign, is the digits of its value. -/
theorem U64.readDigits_of_fromStrRadix {cs : List Char} {radix : Nat} {x : U64} (hplus : '+' ∉ cs)
    (h : U64.fromStrRadix cs radix = some x) : readDigits radix cs = some x.toNat := by
  unfold U64.fromStrRadix at h
  split at h
  · cases h
  · cases h
  · exact absurd List.mem_cons_self hplus
  · obtain ⟨v, hv, hx⟩ := Option.bind_eq_some_iff.mp h
    rw [hv, toNat_of_fits hx]

/-- The digits of a `u64` read as that number. -/
theorem U64.fromStrRadix_toDigits (x : U64) :
    U64.fromStrRadix (Nat.toDigits 16 x.toNat) 16 = some x := by
  have hread : readDigits 16 (Nat.toDigits 16 x.toNat) = some x.toNat :=
    readDigits_toDigits (by omega) (by omega) x.toNat
  have hplus : '+' ∉ Nat.toDigits 16 x.toNat := by
    intro hmem
    obtain ⟨d, hd, _⟩ := digitVal_of_toDigits (by omega) (by omega) hmem
    rw [show digitVal '+' = none by decide] at hd
    cases hd
  unfold U64.fromStrRadix
  split
  · rename_i hnil
    exact absurd hnil Nat.toDigits_ne_nil
  · rename_i heq
    exact absurd (heq ▸ List.mem_cons_self) hplus
  · rename_i heq
    exact absurd (heq ▸ List.mem_cons_self) hplus
  · rw [hread, Option.bind_some, fits_toNat]

/-- `parse_u256_hex` of the clients, and the `"balance"` and slot readers of the replayer. -/
def parseU256Hex (s : String) : Option U256 := U256.fromStrRadix (hexBody s) 16

theorem filter_toDigits (n : Nat) :
    (Nat.toDigits 16 n).filter (· != '_') = Nat.toDigits 16 n :=
  filter_of_notMem (notMem_of_readDigits (by decide) (readDigits_toDigits (by omega) (by omega) n))

/-- What a quantity is printed as reads back as that quantity. -/
theorem parseU256Hex_toHex (v : U256) : parseU256Hex (U256.toHex v) = some v := by
  rw [parseU256Hex, U256.toHex, hexBody_marked, U256.fromStrRadix, filter_toDigits,
    readDigits_toDigits (by omega) (by omega), Option.bind_some, fits_toNat]

/-! ## Fixed-width values -/

/-- `0x` and all `w` digits: `{:#x}` of a `B256` (64) or an `Address` (40). -/
def fixedHex (w : Nat) {n : Nat} (x : BitVec n) : String := marked (padDigits w 16 x.toNat)

/-- `parse` of a fixed-width value: exactly `w` digits behind an optional `0x`. -/
def parseFixed (w n : Nat) (s : String) : Option (BitVec n) :=
  if (hexBody s).length = w then (readDigits 16 (hexBody s)).bind (fits n) else none

theorem parseFixed_fixedHex {w n : Nat} (hw : 0 < w) (hn : 2 ^ n = 16 ^ w) (x : BitVec n) :
    parseFixed w n (fixedHex w x) = some x := by
  have hlen : (padDigits w 16 x.toNat).length = w :=
    length_padDigits (by omega) hw (hn ▸ x.isLt)
  rw [parseFixed, fixedHex, hexBody_marked, if_pos hlen,
    readDigits_padDigits (by omega) (by omega), Option.bind_some, fits_toNat]

def B256.toHex (h : B256) : String := fixedHex 64 h
def B256.parse (s : String) : Option B256 := parseFixed 64 256 s
def Address.toHex (a : Address) : String := fixedHex 40 a
def Address.parse (s : String) : Option Address := parseFixed 40 160 s

@[simp] theorem B256.parse_toHex (h : B256) : B256.parse (B256.toHex h) = some h :=
  parseFixed_fixedHex (by omega) (by omega) h

@[simp] theorem Address.parse_toHex (a : Address) : Address.parse (Address.toHex a) = some a :=
  parseFixed_fixedHex (by omega) (by omega) a

/-! ## Byte strings -/

/-- `format!("0x{}", hex::encode(bytes))`. -/
def bytesToHex (bs : Bytes) : String := marked (encodeHex bs)

/-- `hex::decode`, which takes an optional `0x` of its own. -/
def hexDecode (cs : List Char) : Option Bytes :=
  match cs with
  | '0' :: 'x' :: ds => decodeHex ds
  | ds => decodeHex ds

/-- `decode_hex_bytes` of the clients, `decode_hex_data` of the server. -/
def decodeHexBytes (s : String) : Option Bytes := hexDecode (hexBody s)

/-- Digits alone have no marker to take off. -/
theorem hexDecode_of_decodeHex {cs : List Char} {bs : Bytes} (h : decodeHex cs = some bs) :
    hexDecode cs = some bs := by
  unfold hexDecode
  split
  · rename_i ds
    rw [decodeHex, show readDigits 16 ['0', 'x'] = none by decide] at h
    cases h
  · exact h

theorem hexDecode_encodeHex (bs : Bytes) : hexDecode (encodeHex bs) = some bs :=
  hexDecode_of_decodeHex (decodeHex_encodeHex bs)

@[simp] theorem decodeHexBytes_bytesToHex (bs : Bytes) :
    decodeHexBytes (bytesToHex bs) = some bs := by
  rw [decodeHexBytes, bytesToHex, hexBody_marked, hexDecode_encodeHex]

/-! ## Words as bytes -/

/-- `to_be_bytes`, `as_slice`: the `w` big-endian bytes of a word. -/
def beOf (w : Nat) {n : Nat} (x : BitVec n) : Bytes := beBytes w x.toNat

/-- `from_be_bytes`, `from_slice`. -/
def ofBe (n : Nat) (bs : Bytes) : BitVec n := BitVec.ofNat n (ofBeBytes bs)

@[simp] theorem length_beOf (w : Nat) {n : Nat} (x : BitVec n) : (beOf w x).length = w :=
  length_beBytes w _

theorem ofBe_beOf {w n : Nat} (hn : 2 ^ n = 256 ^ w) (x : BitVec n) : ofBe n (beOf w x) = x := by
  apply BitVec.eq_of_toNat_eq
  rw [ofBe, beOf, ofBeBytes_beBytes, BitVec.toNat_ofNat, hn, Nat.mod_mod, ← hn,
    Nat.mod_eq_of_lt x.isLt]

theorem beOf_ofBe {w n : Nat} (hn : 2 ^ n = 256 ^ w) {bs : Bytes} (hl : bs.length = w) :
    beOf w (ofBe n bs) = bs := by
  have hlt : ofBeBytes bs < 2 ^ n := by rw [hn, ← hl]; exact ofBeBytes_lt bs
  rw [beOf, ofBe, BitVec.toNat_ofNat, Nat.mod_eq_of_lt hlt, ← hl, beBytes_ofBeBytes]

theorem beOf_inj {w n : Nat} (hn : 2 ^ n = 256 ^ w) {x y : BitVec n}
    (h : beOf w x = beOf w y) : x = y := by
  rw [← ofBe_beOf hn x, ← ofBe_beOf hn y, h]

/-- Words are ordered as their bytes are. -/
theorem compare_beOf {w n : Nat} (hn : 2 ^ n = 256 ^ w) (x y : BitVec n) :
    compare (beOf w x) (beOf w y) = compare x y := by
  have hval : ∀ z : BitVec n, ofBeBytes (beOf w z) = z.toNat := by
    intro z
    rw [beOf, ofBeBytes_beBytes, ← hn, Nat.mod_eq_of_lt z.isLt]
  rw [compare_ofBeBytes (by simp), hval, hval, compare_word]

end EvmState
