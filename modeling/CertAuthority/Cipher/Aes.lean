import CertAuthority.Bytes.Basic

/-!
# AES

The block cipher of FIPS 197 for keys of 16, 24 and 32 bytes, on blocks of 16 bytes that hold the
state column by column. The substitution is computed from its definition, inversion in the field of
256 elements followed by an affine map.
-/

namespace CertAuthority.Aes

/-! ## Field of 256 elements -/

/-- Product with `x`, reduced by `x⁸ + x⁴ + x³ + x + 1`. -/
def timesX (a : UInt8) : UInt8 :=
  if a < 128 then a <<< 1 else (a <<< 1) ^^^ 0x1b

/-- Product, by the binary digits of `b` below position `width`. -/
def times : Nat → UInt8 → UInt8 → UInt8
  | 0, _, _ => 0
  | width + 1, a, b =>
    let rest := times width (timesX a) (b >>> 1)
    if b &&& 1 = 1 then a ^^^ rest else rest

/-- Inverse, with zero for zero: the 254th power. -/
def inverse (a : UInt8) : UInt8 :=
  let square (x : UInt8) := times 8 x x
  let step (x : UInt8) := times 8 (square x) a
  square (step (step (step (step (step (step a))))))

def rotl (a n : UInt8) : UInt8 := (a <<< n) ||| (a >>> (8 - n))

def substitute (a : UInt8) : UInt8 :=
  let b := inverse a
  b ^^^ rotl b 1 ^^^ rotl b 2 ^^^ rotl b 3 ^^^ rotl b 4 ^^^ 0x63

/-! ## Tables -/

def allBytes : List UInt8 := (List.range 256).map UInt8.ofNat

def table (f : UInt8 → UInt8) : Array UInt8 := (allBytes.map f).toArray

def forward : Array UInt8 := table substitute

/-- Substitution backwards. -/
def backward : Array UInt8 :=
  allBytes.foldl (fun t a => t.set! (substitute a).toNat a) (Array.replicate 256 0)

def by2 : Array UInt8 := table (times 8 2)
def by3 : Array UInt8 := table (times 8 3)
def by9 : Array UInt8 := table (times 8 9)
def by11 : Array UInt8 := table (times 8 11)
def by13 : Array UInt8 := table (times 8 13)
def by14 : Array UInt8 := table (times 8 14)

def look (t : Array UInt8) (a : UInt8) : UInt8 := t.getD a.toNat 0

/-! ## Rounds -/

/-- Rotates row `i` by `i` places to the left. -/
def shiftRows : Bytes → Bytes
  | [a, b, c, d, e, f, g, h, i, j, k, l, m, n, o, p] =>
    [a, f, k, p, e, j, o, d, i, n, c, h, m, b, g, l]
  | s => s

def unshiftRows : Bytes → Bytes
  | [a, b, c, d, e, f, g, h, i, j, k, l, m, n, o, p] =>
    [a, n, k, h, e, b, o, l, i, f, c, p, m, j, g, d]
  | s => s

def mixColumns : Bytes → Bytes
  | a :: b :: c :: d :: rest =>
    (look by2 a ^^^ look by3 b ^^^ c ^^^ d) :: (a ^^^ look by2 b ^^^ look by3 c ^^^ d) ::
      (a ^^^ b ^^^ look by2 c ^^^ look by3 d) :: (look by3 a ^^^ b ^^^ c ^^^ look by2 d) ::
      mixColumns rest
  | _ => []

def unmixColumns : Bytes → Bytes
  | a :: b :: c :: d :: rest =>
    (look by14 a ^^^ look by11 b ^^^ look by13 c ^^^ look by9 d) ::
      (look by9 a ^^^ look by14 b ^^^ look by11 c ^^^ look by13 d) ::
      (look by13 a ^^^ look by9 b ^^^ look by14 c ^^^ look by11 d) ::
      (look by11 a ^^^ look by13 b ^^^ look by9 c ^^^ look by14 d) :: unmixColumns rest
  | _ => []

/-! ## Round keys -/

/-- Words of the key schedule, latest first; `i` is the index of the next one, and `rcon` the round
constant of the next full period. -/
def expandWords (period : Nat) : Nat → Nat → UInt8 → List Bytes → List Bytes
  | 0, _, _, words => words
  | fuel + 1, i, rcon, words =>
    let last := words.headD []
    let (mixed, rcon) :=
      if i % period = 0 then
        match last with
        | [a, b, c, d] =>
          ([look forward b ^^^ rcon, look forward c, look forward d, look forward a], timesX rcon)
        | other => (other, rcon)
      else if 6 < period ∧ i % period = 4 then (last.map (look forward), rcon)
      else (last, rcon)
    let word := Bytes.xor mixed (words.getD (period - 1) [])
    expandWords period fuel (i + 1) rcon (word :: words)

/-- One key of 16 bytes per round, and one in front. -/
def roundKeys (key : Bytes) : List Bytes :=
  let period := key.length / 4
  let count := 4 * (period + 7)
  let words := expandWords period (count - period) period 1 (Bytes.chunks 4 key).reverse
  Bytes.chunks 16 words.reverse.flatten

def rounds : List Bytes → Bytes → Bytes
  | [], s => s
  | [last], s => Bytes.xor (shiftRows (s.map (look forward))) last
  | k :: ks, s => rounds ks (Bytes.xor (mixColumns (shiftRows (s.map (look forward)))) k)

def encryptBlock (keys : List Bytes) (block : Bytes) : Bytes :=
  match keys with
  | [] => block
  | first :: rest => rounds rest (Bytes.xor block first)

/-- Undoes the rounds, with the keys in reverse. -/
def unrounds : List Bytes → Bytes → Bytes
  | [], s => s
  | [last], s => Bytes.xor ((unshiftRows s).map (look backward)) last
  | k :: ks, s => unrounds ks (unmixColumns (Bytes.xor ((unshiftRows s).map (look backward)) k))

def decryptBlock (keys : List Bytes) (block : Bytes) : Bytes :=
  match keys.reverse with
  | [] => block
  | last :: rest => unrounds rest (Bytes.xor block last)

end CertAuthority.Aes
