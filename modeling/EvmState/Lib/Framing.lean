import Mathlib.Data.List.Basic
import Mathlib.Tactic.Common

/-!
# Frames cut out of a stream that arrives in pieces

A reader collects what arrives in a buffer and takes out each frame as its end mark
comes in. `split` is that reader: the complete frames, and what is left of the next
one. Where the stream is cut decides nothing (`split_append`), and frames that were
written, each with its end mark, are read back (`split_join`).

For text the end mark is a byte and the frames are UTF-8, in which no character but
the newline has the newline's byte (`newline_notMem_utf8`).
-/

namespace Framing

variable {α : Type} [DecidableEq α]

/-- The frames that end in a stream, of the first of which `cur` has been read, and the rest. -/
def split (mark : α) (cur : List α) : List α → List (List α) × List α
  | [] => ([], cur)
  | x :: xs =>
      if x = mark then (cur :: (split mark [] xs).1, (split mark [] xs).2)
      else split mark (cur ++ [x]) xs

/-- Each frame and its end mark. -/
def join (mark : α) (frames : List (List α)) : List α := frames.flatMap (fun f => f ++ [mark])

/-- **Reading on from where a piece ended** is reading the pieces as one. -/
theorem split_append (mark : α) (cur xs ys : List α) :
    split mark cur (xs ++ ys)
      = ((split mark cur xs).1 ++ (split mark (split mark cur xs).2 ys).1,
          (split mark (split mark cur xs).2 ys).2) := by
  induction xs generalizing cur with
  | nil => rfl
  | cons x xs ih =>
      rw [List.cons_append, split, split]
      split
      · simp [ih]
      · exact ih _

/-- A frame is read as it is. -/
theorem split_of_notMem {mark : α} {frame : List α} (h : mark ∉ frame) (cur xs : List α) :
    split mark cur (frame ++ xs) = split mark (cur ++ frame) xs := by
  induction frame generalizing cur with
  | nil => simp
  | cons x frame ih =>
      rw [List.mem_cons, not_or] at h
      rw [List.cons_append, split, if_neg (Ne.symm h.1), ih h.2, List.append_assoc,
        List.singleton_append]

/-- What is left over holds no end mark. -/
theorem notMem_split {mark : α} {cur : List α} (h : mark ∉ cur) (xs : List α) :
    mark ∉ (split mark cur xs).2 := by
  induction xs generalizing cur with
  | nil => exact h
  | cons x xs ih =>
      rw [split]
      split
      · exact ih (by simp)
      · rename_i hx
        refine ih ?_
        rw [List.mem_append, List.mem_singleton, not_or]
        exact ⟨h, Ne.symm hx⟩

/-- Scanning a rest again is going on from it. -/
theorem split_rest {mark : α} {rest : List α} (h : mark ∉ rest) (xs : List α) :
    split mark [] (rest ++ xs) = split mark rest xs := split_of_notMem h [] xs

/-- **Frames that are written are read back**, with what is behind the last end mark. -/
theorem split_join {mark : α} {frames : List (List α)} {rest : List α}
    (h : ∀ f ∈ frames, mark ∉ f) (hrest : mark ∉ rest) :
    split mark [] (join mark frames ++ rest) = (frames, rest) := by
  induction frames with
  | nil => simpa [join, split] using split_of_notMem hrest [] []
  | cons f frames ih =>
      have hf := split_of_notMem (h f List.mem_cons_self) []
        (mark :: (join mark frames ++ rest))
      have hrec := ih fun g hg => h g (List.mem_cons_of_mem f hg)
      rw [List.nil_append, split, if_pos rfl, hrec] at hf
      rw [← hf, join, join, List.flatMap_cons, List.append_assoc, List.append_assoc,
        List.singleton_append]

/-- Cutting a whole stream at its end marks gives the frames and the rest. -/
theorem splitOn_eq {mark : α} {cur : List α} (h : mark ∉ cur) (xs : List α) :
    (cur ++ xs).splitOn mark = (split mark cur xs).1 ++ [(split mark cur xs).2] := by
  induction xs generalizing cur with
  | nil => rw [List.append_nil, List.splitOn_eq_singleton h, split, List.nil_append]
  | cons x xs ih =>
      rw [split]
      split
      · rename_i hx
        subst hx
        have hrest : ([] ++ xs).splitOn x = (split x [] xs).1 ++ [(split x [] xs).2] :=
          ih List.not_mem_nil
        rw [List.nil_append] at hrest
        rw [List.splitOn_append_cons_self_of_not_mem h, hrest, List.cons_append]
      · rename_i hx
        have hcur : mark ∉ cur ++ [x] := by
          rw [List.mem_append, List.mem_singleton, not_or]
          exact ⟨h, Ne.symm hx⟩
        have hnext := ih hcur
        rwa [List.append_assoc, List.singleton_append] at hnext

/-! ## Text -/

/-- Text as UTF-8. -/
def utf8 (cs : List Char) : List UInt8 := cs.flatMap String.utf8EncodeChar

/-- The text, if these bytes are UTF-8. -/
def fromUtf8 (bs : List UInt8) : Option (List Char) := bs.toByteArray.utf8Decode?.map Array.toList

@[simp] theorem fromUtf8_utf8 (cs : List Char) : fromUtf8 (utf8 cs) = some cs := by
  have h : (utf8 cs).toByteArray.utf8Decode? = some cs.toArray := List.utf8Decode?_utf8Encode
  rw [fromUtf8, h, Option.map_some]

theorem utf8_append (cs ds : List Char) : utf8 (cs ++ ds) = utf8 cs ++ utf8 ds :=
  List.flatMap_append

/-- Bytes of longer characters are above the ASCII range. -/
theorem newline_notMem_utf8EncodeChar {c : Char} (h : c ≠ '\n') :
    (10 : UInt8) ∉ String.utf8EncodeChar c := by
  have hval : c.val.toNat ≠ 10 := fun h0 => h (Char.ext (UInt32.toNat_inj.mp h0))
  have hbyte : ∀ n : Nat, n < 256 → n ≠ 10 → (10 : UInt8) ≠ UInt8.ofNat n := by
    intro n hn hne heq
    have htoNat : (UInt8.ofNat n).toNat = n := UInt8.toNat_ofNat_of_lt hn
    rw [← heq] at htoNat
    exact hne htoNat.symm
  unfold String.utf8EncodeChar
  dsimp only
  split
  · rw [List.mem_singleton]
    exact hbyte _ (by omega) hval
  · split
    · simp only [List.mem_cons, List.not_mem_nil, or_false, not_or]
      exact ⟨hbyte _ (by omega) (by omega), hbyte _ (by omega) (by omega)⟩
    · split
      · simp only [List.mem_cons, List.not_mem_nil, or_false, not_or]
        exact ⟨hbyte _ (by omega) (by omega), hbyte _ (by omega) (by omega),
          hbyte _ (by omega) (by omega)⟩
      · simp only [List.mem_cons, List.not_mem_nil, or_false, not_or]
        exact ⟨hbyte _ (by omega) (by omega), hbyte _ (by omega) (by omega),
          hbyte _ (by omega) (by omega), hbyte _ (by omega) (by omega)⟩

/-- Text of one line has no byte that ends it. -/
theorem newline_notMem_utf8 {cs : List Char} (h : '\n' ∉ cs) : (10 : UInt8) ∉ utf8 cs := by
  rw [utf8, List.mem_flatMap]
  intro hx
  obtain ⟨c, hc, hb⟩ := hx
  exact newline_notMem_utf8EncodeChar (fun heq => h (heq ▸ hc)) hb

end Framing
