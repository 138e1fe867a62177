/-!
# Byte strings

A byte string is a list of bytes, most significant first where it stands for a number.

* `bitLimit n` : the first number that does not fit `n` bits;
* `Bytes.toNat`, `Bytes.ofNat` : the big-endian number and its shortest byte string (`[]` for zero);
* `Bytes.ofNatWidth` : the big-endian form cut to a given width;
* `Bytes.ofText`, `Bytes.text?` : UTF-8, and back where the bytes are valid UTF-8;
* `Bytes.lossyText` : the text with a mark in place of bytes that are no UTF-8;
* `Bytes.splitAtInfix?` : the text before and after the first occurrence of a marker.
-/

namespace CertAuthority

def bitLimit (n : Nat) : Nat := Nat.pow 2 n

theorem bitLimit_pos (n : Nat) : 0 < bitLimit n := Nat.pow_pos (by decide)

abbrev Bytes := List UInt8

namespace Bytes

/-- Big-endian value. -/
def toNat (b : Bytes) : Nat :=
  b.foldl (fun n x => n * 256 + x.toNat) 0

/-- Shortest big-endian byte string of `n`, with `acc` appended; empty for zero. -/
def ofNatAux (n : Nat) (acc : Bytes) : Bytes :=
  if n = 0 then acc else ofNatAux (n / 256) (UInt8.ofNat (n % 256) :: acc)
termination_by n
decreasing_by omega

def ofNat (n : Nat) : Bytes := ofNatAux n []

/-- Low `width` bytes of `n`, most significant first. -/
def ofNatWidth : Nat → Nat → Bytes
  | 0, _ => []
  | width + 1, n => ofNatWidth width (n / 256) ++ [UInt8.ofNat (n % 256)]

/-- Big-endian 32-bit word. -/
def ofWord32 (n : Nat) : Bytes := ofNatWidth 4 n

def ofText (s : String) : Bytes := s.toUTF8.toList

def toArray (b : Bytes) : ByteArray := ByteArray.mk (List.toArray b)

/-- The text that is written as these bytes in UTF-8, if there is one. -/
def text? (b : Bytes) : Option String := String.fromUTF8? (toArray b)

theorem toList_loop (b : ByteArray) (i : Nat) (done : List UInt8) :
    ByteArray.toList.loop b i done = done.reverse ++ b.data.toList.drop i := by
  fun_induction ByteArray.toList.loop b i done with
  | case1 i done h ih =>
    have hd : b.data.toList.drop i = b.get! i :: b.data.toList.drop (i + 1) := by
      have hi : i < b.data.toList.length := by simpa using h
      rw [List.drop_eq_getElem_cons hi]
      congr 1
      obtain ⟨data⟩ := b
      simp only [ByteArray.get!]
      exact (getElem!_pos data i (by simpa using hi)).symm
    rw [ih, hd]
    simp
  | case2 i done h =>
    have hi : b.data.toList.length ≤ i := by simpa using h
    simp [List.drop_eq_nil_of_le hi]

/-- Every text is read back from its UTF-8. -/
theorem text?_ofText (s : String) : text? (ofText s) = some s := by
  have hb : toArray (ofText s) = s.toUTF8 := by
    simp [toArray, ofText, ByteArray.toList, toList_loop]
  rw [text?, hb]
  simp only [String.fromUTF8?, String.toUTF8_eq_toByteArray, s.isValidUTF8, dif_pos]
  rfl
/-- Bytes of the character at the front, at most four. -/
def charAt? (b : Bytes) : Option (String × Nat) :=
  [1, 2, 3, 4].findSome? fun n =>
    match text? (b.take n) with
    | some s => if s.length = 1 ∧ n ≤ b.length then some (s, n) else none
    | none => none

/-- The bytes are the beginning of one character. -/
def startsChar (b : Bytes) : Bool :=
  [1, 2, 3].any fun n => [0x80, 0xbf].any fun last =>
    (text? (b ++ List.replicate n last)).any (·.length = 1)

/-- Text with a mark for every stretch that no character has: the longest beginning of one, or else
a single byte; `fuel` bounds the characters. -/
def lossyFrom (fuel : Nat) (b : Bytes) : String :=
  match fuel, b with
  | 0, _ | _, [] => ""
  | fuel + 1, b =>
    match charAt? b with
    | some (s, n) => s ++ lossyFrom fuel (b.drop n)
    | none =>
      let broken := ([3, 2].find? fun n => n ≤ b.length && startsChar (b.take n)).getD 1
      "\uFFFD" ++ lossyFrom fuel (b.drop broken)

def lossyText (b : Bytes) : String := (text? b).getD (lossyFrom b.length b)

/-- Every byte is below 128. -/
def isAscii (b : Bytes) : Bool := b.all (· < 128)

/-- The rest after `pre`, if `b` starts with it. -/
def dropPrefix? : Bytes → Bytes → Option Bytes
  | [], b => some b
  | _ :: _, [] => none
  | p :: ps, x :: xs => if p = x then dropPrefix? ps xs else none

/-- The parts of `b` before and after the first occurrence of `marker`. -/
def splitAtInfix? (marker : Bytes) : Bytes → Option (Bytes × Bytes)
  | [] => if marker.isEmpty then some ([], []) else none
  | x :: xs =>
    match dropPrefix? marker (x :: xs) with
    | some rest => some ([], rest)
    | none => (splitAtInfix? marker xs).map fun (before, after) => (x :: before, after)

/-- Bytes combined one by one with exclusive or. -/
def xor (a b : Bytes) : Bytes := List.zipWith (· ^^^ ·) a b

/-- Pieces of `n` bytes; the last may be shorter. -/
def chunks (n : Nat) (b : Bytes) : List Bytes :=
  if _h : b.isEmpty ∨ n = 0 then [] else b.take n :: chunks n (b.drop n)
termination_by b.length
decreasing_by
  simp only [List.isEmpty_iff, not_or] at _h
  have := List.length_pos_iff.mpr _h.1
  simp only [List.length_drop]
  omega

/-- Lexicographic order, a shorter string before its extensions. -/
def le : Bytes → Bytes → Bool
  | [], _ => true
  | _ :: _, [] => false
  | x :: xs, y :: ys => x < y || (x == y && le xs ys)

end Bytes
end CertAuthority
