import Mathlib.Data.List.Basic
import Mathlib.Data.Nat.Basic
import Mathlib.Tactic.Common
import Mathlib.Tactic.Ring

/-!
# Positional notation, as text and as bytes

Numbers written in a base up to sixteen and read back, byte strings written as
pairs of hexadecimal digits and read back, and numbers stored as a fixed count of
big-endian bytes. Each writer has the reader that undoes it, and for the byte
codec the converse holds as well, so a fixed-width field is a bijection. It also
keeps the order: byte strings of one length compare as the numbers they stand for.
-/

namespace Radix

/-! ## Digits as text -/

/-- The value of a digit, in either case. -/
def digitVal (c : Char) : Option Nat :=
  if '0' ≤ c ∧ c ≤ '9' then some (c.toNat - '0'.toNat)
  else if 'a' ≤ c ∧ c ≤ 'z' then some (c.toNat - 'a'.toNat + 10)
  else if 'A' ≤ c ∧ c ≤ 'Z' then some (c.toNat - 'A'.toNat + 10)
  else none

/-- Read digits of base `b` after a number already read. -/
def readFrom (b : Nat) (acc : Nat) : List Char → Option Nat
  | [] => some acc
  | c :: cs =>
      match digitVal c with
      | some d => if d < b then readFrom b (acc * b + d) cs else none
      | none => none

/-- Read a number in base `b`, most significant digit first. -/
def readDigits (b : Nat) (cs : List Char) : Option Nat := readFrom b 0 cs

/-- The number that digits stand for; there is one digit at least. -/
def numeral (b : Nat) (cs : List Char) : Option Nat := if cs = [] then none else readDigits b cs

/-- Write a number in base `b`, padded with zeros to `w` digits. -/
def padDigits (w b n : Nat) : List Char :=
  List.replicate (w - (Nat.toDigits b n).length) '0' ++ Nat.toDigits b n

theorem digitVal_digitChar {d : Nat} (h : d < 16) : digitVal d.digitChar = some d := by
  revert d
  decide

/-- Digits are printable. -/
theorem printable_of_digitVal {c : Char} {d : Nat} (h : digitVal c = some d) :
    0x30 ≤ c.toNat ∧ c.toNat ≤ 0x7A := by
  unfold digitVal at h
  have hle : ∀ a b : Char, a ≤ b ↔ a.toNat ≤ b.toNat := fun a b => Iff.rfl
  simp only [hle] at h
  split at h
  · rename_i hc
    exact ⟨hc.1, Nat.le_trans hc.2 (by decide)⟩
  · split at h
    · rename_i hc
      exact ⟨Nat.le_trans (by decide) hc.1, hc.2⟩
    · split at h
      · rename_i hc
        exact ⟨Nat.le_trans (by decide) hc.1, Nat.le_trans hc.2 (by decide)⟩
      · cases h

theorem readFrom_append {b acc : Nat} (xs ys : List Char) :
    readFrom b acc (xs ++ ys) = (readFrom b acc xs).bind (fun n => readFrom b n ys) := by
  induction xs generalizing acc with
  | nil => rfl
  | cons c cs ih =>
      simp only [List.cons_append, readFrom]
      cases digitVal c with
      | none => rfl
      | some d => by_cases hd : d < b <;> simp [hd, ih]

theorem readFrom_digitChar {b acc d : Nat} (hd : d < b) (hb : b ≤ 16) :
    readFrom b acc [d.digitChar] = some (acc * b + d) := by
  simp [readFrom, digitVal_digitChar (Nat.lt_of_lt_of_le hd hb), hd]

/-- Text that reads as a number holds nothing but digits. -/
theorem digitVal_of_readFrom {b : Nat} : ∀ {cs : List Char} {acc n : Nat},
    readFrom b acc cs = some n → ∀ c ∈ cs, ∃ d, digitVal c = some d ∧ d < b
  | [], _, _, _, c, hc => absurd hc (by simp)
  | x :: xs, acc, n, h, c, hc => by
      cases hx : digitVal x with
      | none => simp [readFrom, hx] at h
      | some d =>
          by_cases hd : d < b
          · simp only [readFrom, hx, hd, if_true] at h
            rcases List.mem_cons.mp hc with rfl | hc
            · exact ⟨d, hx, hd⟩
            · exact digitVal_of_readFrom h c hc
          · simp [readFrom, hx, hd] at h

theorem numeral_eq_some {b : Nat} {cs : List Char} {n : Nat} :
    numeral b cs = some n ↔ cs ≠ [] ∧ readDigits b cs = some n := by
  unfold numeral
  split <;> simp_all

/-- What is no digit is in no numeral. -/
theorem notMem_of_readDigits {b : Nat} {cs : List Char} {n : Nat} {c : Char}
    (hc : digitVal c = none) (h : readDigits b cs = some n) : c ∉ cs := by
  intro hmem
  obtain ⟨d, hd, _⟩ := digitVal_of_readFrom h c hmem
  rw [hc] at hd
  cases hd

/-- Reading on never makes a number smaller. -/
theorem le_of_readFrom {b : Nat} (hb : 0 < b) : ∀ {cs : List Char} {acc n : Nat},
    readFrom b acc cs = some n → acc ≤ n
  | [], acc, n, h => by
      simp only [readFrom, Option.some.injEq] at h
      exact Nat.le_of_eq h
  | c :: cs, acc, n, h => by
      unfold readFrom at h
      split at h
      · rename_i d _
        split at h
        · calc acc ≤ acc * b := Nat.le_mul_of_pos_right acc hb
            _ ≤ acc * b + d := Nat.le_add_right ..
            _ ≤ n := le_of_readFrom hb h
        · cases h
      · cases h

/-- A number written in base `b` reads back. -/
theorem readDigits_toDigits {b : Nat} (hb : 1 < b) (hb' : b ≤ 16) (n : Nat) :
    readDigits b (Nat.toDigits b n) = some n := by
  induction n using Nat.strongRecOn with
  | ind n ih =>
    rcases Nat.lt_or_ge n b with hn | hn
    · rw [Nat.toDigits_of_lt_base hn, readDigits, readFrom_digitChar hn hb']
      simp
    · have hq : 0 < n / b := Nat.div_pos hn (by omega)
      have hm : n % b < b := Nat.mod_lt n (by omega)
      have hlt : n / b < n := Nat.div_lt_self (by omega) hb
      rw [show n = b * (n / b) + n % b from (Nat.div_add_mod n b).symm,
        ← Nat.toDigits_append_toDigits hb hq hm, Nat.toDigits_of_lt_base hm, readDigits,
        readFrom_append]
      have := ih (n / b) hlt
      rw [readDigits] at this
      rw [this, Option.bind_some, readFrom_digitChar hm hb', Nat.mul_comm]

theorem digitVal_of_toDigits {b : Nat} (hb : 1 < b) (hb' : b ≤ 16) {n : Nat} {c : Char}
    (hc : c ∈ Nat.toDigits b n) : ∃ d, digitVal c = some d ∧ d < b :=
  digitVal_of_readFrom (readDigits_toDigits hb hb' n) c hc

theorem readFrom_zeros {b : Nat} (hb : 0 < b) (k : Nat) :
    readFrom b 0 (List.replicate k '0') = some 0 := by
  induction k with
  | zero => rfl
  | succ k ih =>
      have hd : digitVal '0' = some 0 := by decide
      simp [List.replicate_succ, readFrom, hd, hb, ih]

/-- Leading zeros change nothing. -/
theorem readDigits_padDigits {b : Nat} (hb : 1 < b) (hb' : b ≤ 16) (w n : Nat) :
    readDigits b (padDigits w b n) = some n := by
  rw [readDigits, padDigits, readFrom_append, readFrom_zeros (by omega), Option.bind_some]
  exact readDigits_toDigits hb hb' n

theorem digitVal_of_padDigits {b : Nat} (hb : 1 < b) (hb' : b ≤ 16) {w n : Nat} {c : Char}
    (hc : c ∈ padDigits w b n) : ∃ d, digitVal c = some d ∧ d < b :=
  digitVal_of_readFrom (readDigits_padDigits hb hb' w n) c hc

theorem length_padDigits {b w n : Nat} (hb : 1 < b) (hw : 0 < w) (h : n < b ^ w) :
    (padDigits w b n).length = w := by
  have := (Nat.length_toDigits_le_iff (n := n) hb hw).mpr h
  simp only [padDigits, List.length_append, List.length_replicate]
  omega

/-! ## Bytes as text -/

/-- Two digits for each byte. -/
def encodeHex (bs : List UInt8) : List Char :=
  bs.flatMap (fun x => [(x.toNat / 16).digitChar, (x.toNat % 16).digitChar])

/-- Read digits two at a time. -/
def decodeHex : List Char → Option (List UInt8)
  | [] => some []
  | [_] => none
  | a :: b :: cs =>
      match readDigits 16 [a, b], decodeHex cs with
      | some x, some bs => some (UInt8.ofNat x :: bs)
      | _, _ => none

theorem decodeHex_encodeHex (bs : List UInt8) : decodeHex (encodeHex bs) = some bs := by
  induction bs with
  | nil => rfl
  | cons x bs ih =>
      have hx : x.toNat < 256 := x.toNat_lt
      have hpair : readDigits 16 [(x.toNat / 16).digitChar, (x.toNat % 16).digitChar]
          = some x.toNat := by
        have h1 : x.toNat / 16 < 16 := by omega
        have h2 : x.toNat % 16 < 16 := by omega
        simp only [readDigits, readFrom, digitVal_digitChar h1, digitVal_digitChar h2, h1, h2,
          if_true]
        congr 1
        omega
      show decodeHex (_ :: _ :: encodeHex bs) = _
      rw [decodeHex, hpair, ih]
      simp

theorem digitVal_of_encodeHex {bs : List UInt8} {c : Char} (hc : c ∈ encodeHex bs) :
    ∃ d, digitVal c = some d ∧ d < 16 := by
  obtain ⟨x, _, hx⟩ := List.mem_flatMap.mp hc
  have hlt : x.toNat < 256 := x.toNat_lt
  have h1 : x.toNat / 16 < 16 := by omega
  have h2 : x.toNat % 16 < 16 := by omega
  rcases List.mem_cons.mp hx with rfl | hx
  · exact ⟨_, digitVal_digitChar h1, h1⟩
  · rw [List.mem_singleton.mp hx]
    exact ⟨_, digitVal_digitChar h2, h2⟩

/-! ## Fixed-width big-endian bytes -/

/-- The low `n` bytes of `v`, most significant first. -/
def beBytes : Nat → Nat → List UInt8
  | 0, _ => []
  | n + 1, v => UInt8.ofNat (v / 256 ^ n) :: beBytes n v

/-- The number a big-endian byte string stands for. -/
def ofBeBytes : List UInt8 → Nat
  | [] => 0
  | b :: bs => b.toNat * 256 ^ bs.length + ofBeBytes bs

@[simp] theorem length_beBytes (n v : Nat) : (beBytes n v).length = n := by
  induction n with
  | zero => rfl
  | succ n ih => simp [beBytes, ih]

theorem ofBeBytes_lt (bs : List UInt8) : ofBeBytes bs < 256 ^ bs.length := by
  induction bs with
  | nil => simp [ofBeBytes]
  | cons b bs ih =>
      have hb : b.toNat + 1 ≤ 256 := b.toNat_lt
      calc b.toNat * 256 ^ bs.length + ofBeBytes bs
          < b.toNat * 256 ^ bs.length + 256 ^ bs.length := by omega
        _ = (b.toNat + 1) * 256 ^ bs.length := by ring
        _ ≤ 256 * 256 ^ bs.length := Nat.mul_le_mul_right _ hb
        _ = 256 ^ (b :: bs).length := by rw [List.length_cons, pow_succ]; ring

/-- Storing a number in `n` bytes keeps it modulo `256 ^ n`. -/
theorem ofBeBytes_beBytes (n v : Nat) : ofBeBytes (beBytes n v) = v % 256 ^ n := by
  induction n with
  | zero => simp [beBytes, ofBeBytes, Nat.mod_one]
  | succ n ih =>
      have hd : (UInt8.ofNat (v / 256 ^ n)).toNat = v / 256 ^ n % 256 := UInt8.toNat_ofNat'
      rw [beBytes, ofBeBytes, length_beBytes, ih, hd, pow_succ, Nat.mod_mul,
        Nat.mul_comm (256 ^ n), Nat.add_comm]

/-- Byte strings of one length are told apart by their numbers. -/
theorem ofBeBytes_inj : ∀ {bs cs : List UInt8}, bs.length = cs.length →
    ofBeBytes bs = ofBeBytes cs → bs = cs
  | [], [], _, _ => rfl
  | b :: bs, c :: cs, hl, h => by
      have hl' : bs.length = cs.length := Nat.succ.inj hl
      have hb := ofBeBytes_lt bs
      have hc := ofBeBytes_lt cs
      have hpos : 0 < 256 ^ cs.length := Nat.pow_pos (by decide)
      simp only [ofBeBytes, hl'] at h hb
      have hq := congrArg (· / 256 ^ cs.length) h
      have hr := congrArg (· % 256 ^ cs.length) h
      simp only [Nat.mul_comm _ (256 ^ cs.length), Nat.mul_add_div hpos, Nat.div_eq_of_lt hb,
        Nat.div_eq_of_lt hc, Nat.add_zero, Nat.mul_add_mod, Nat.mod_eq_of_lt hb,
        Nat.mod_eq_of_lt hc] at hq hr
      rw [UInt8.toNat_inj.mp hq, ofBeBytes_inj hl' hr]

/-- Every byte string is the big-endian form of its own number. -/
theorem beBytes_ofBeBytes (bs : List UInt8) : beBytes bs.length (ofBeBytes bs) = bs :=
  ofBeBytes_inj (length_beBytes _ _)
    (by rw [ofBeBytes_beBytes, Nat.mod_eq_of_lt (ofBeBytes_lt bs)])

/-! ## Order -/

theorem compareOfLessAndEq_congr {α β : Type} [LT α] [DecidableLT α] [DecidableEq α] [LT β]
    [DecidableLT β] [DecidableEq β] {x y : α} {u v : β} (hlt : x < y ↔ u < v)
    (heq : x = y ↔ u = v) : compareOfLessAndEq x y = compareOfLessAndEq u v := by
  simp only [compareOfLessAndEq, hlt, heq]

theorem compare_byte (b c : UInt8) : compare b c = compare b.toNat c.toNat :=
  compareOfLessAndEq_congr UInt8.lt_iff_toNat_lt UInt8.toNat_inj.symm

theorem compare_word {n : Nat} (x y : BitVec n) : compare x y = compare x.toNat y.toNat :=
  compareOfLessAndEq_congr BitVec.lt_def BitVec.toNat_inj.symm

theorem compare_cons {α : Type} [Ord α] (x y : α) (xs ys : List α) :
    compare (x :: xs) (y :: ys) = (compare x y).then (compare xs ys) :=
  List.compareLex_cons_cons

/-- Of two strings whose fronts have one length, the fronts are compared first. -/
theorem compare_append {α : Type} [Ord α] : ∀ {xs ys : List α} (us vs : List α),
    xs.length = ys.length →
    compare (xs ++ us) (ys ++ vs) = (compare xs ys).then (compare us vs)
  | [], [], _, _, _ => rfl
  | x :: xs, y :: ys, us, vs, h => by
      rw [List.cons_append, List.cons_append, compare_cons, compare_append us vs (Nat.succ.inj h),
        compare_cons, Ordering.then_assoc]

/-- Of two numbers with a digit and a rest below it, the digits are compared first. -/
theorem compare_digits {b x y u v : Nat} (hu : u < b) (hv : v < b) :
    compare (x * b + u) (y * b + v) = (compare x y).then (compare u v) := by
  rcases Nat.lt_trichotomy x y with h | h | h
  · have hle : (x + 1) * b ≤ y * b := Nat.mul_le_mul_right b h
    have hlt : x * b + u < y * b + v := by rw [Nat.succ_mul] at hle; omega
    rw [Nat.compare_eq_lt.mpr h, Nat.compare_eq_lt.mpr hlt]
    rfl
  · subst h
    rw [Nat.compare_eq_eq.mpr rfl, Ordering.eq_then]
    exact compareOfLessAndEq_congr (by omega) (by omega)
  · have hle : (y + 1) * b ≤ x * b := Nat.mul_le_mul_right b h
    have hlt : y * b + v < x * b + u := by rw [Nat.succ_mul] at hle; omega
    rw [Nat.compare_eq_gt.mpr h, Nat.compare_eq_gt.mpr hlt]
    rfl

/-- Byte strings of one length are ordered as their numbers are. -/
theorem compare_ofBeBytes : ∀ {bs cs : List UInt8}, bs.length = cs.length →
    compare bs cs = compare (ofBeBytes bs) (ofBeBytes cs)
  | [], [], _ => rfl
  | b :: bs, c :: cs, h => by
      have hl : bs.length = cs.length := Nat.succ.inj h
      have hb := ofBeBytes_lt bs
      have hc := ofBeBytes_lt cs
      rw [← hl] at hc
      rw [compare_cons, compare_ofBeBytes hl, compare_byte, ofBeBytes, ofBeBytes, ← hl,
        compare_digits hb hc]

end Radix
