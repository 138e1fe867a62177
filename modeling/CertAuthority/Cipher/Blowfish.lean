import CertAuthority.Bytes.Basic

/-!
# Blowfish with a costly key schedule

The cipher works on pairs of 32-bit words. Its tables start as the binary digits of the fraction of
π, which Machin's formula gives here, and are replaced by encrypting under the key and a salt.
-/

namespace CertAuthority.Blowfish

/-! ## Digits of π -/

/-- `arctan (1 / k)`, scaled: the sum over odd `i` of `± power / i`, where `power` is the scaled
`k ^ -i`. -/
def arctanSum (square : Nat) : Nat → Nat → Nat → Int → Int
  | 0, _, _, sum => sum
  | fuel + 1, i, power, sum =>
    if power = 0 then sum
    else
      let term : Int := (power / i : Nat)
      arctanSum square fuel (i + 2) (power / square) (if i % 4 = 1 then sum + term else sum - term)

def arctanInverse (scale k : Nat) : Int :=
  arctanSum (k * k) scale.log2 1 (scale / k) 0

/-- `π` times two to the power of `bits`, rounded down. -/
def scaledPi (bits : Nat) : Nat :=
  let guard := 64
  let scale := bitLimit (bits + guard)
  (16 * arctanInverse scale 5 - 4 * arctanInverse scale 239).toNat / bitLimit guard

/-- The first `count` words of the fraction of π. -/
def piWords (count : Nat) : List UInt32 :=
  let digits := Bytes.ofNatWidth (4 * count) (scaledPi (32 * count) % bitLimit (32 * count))
  (Bytes.chunks 4 digits).map fun w => UInt32.ofNat (Bytes.toNat w)

/-! ## Cipher -/

/-- 18 round words, and four substitutions of 256 words one after another. -/
structure State where
  rounds : Array UInt32
  boxes : Array UInt32

def initial : State :=
  let words := piWords (18 + 1024)
  ⟨(words.take 18).toArray, (words.drop 18).toArray⟩

def mix (boxes : Array UInt32) (x : UInt32) : UInt32 :=
  let word (box : Nat) (shift : UInt32) := boxes.getD (256 * box + ((x >>> shift) &&& 0xff).toNat) 0
  ((word 0 24 + word 1 16) ^^^ word 2 8) + word 3 0

/-- Rounds in pairs, `i` being the next round. -/
def pairs (s : State) : Nat → Nat → UInt32 → UInt32 → UInt32 × UInt32
  | 0, _, l, r => (l, r)
  | fuel + 1, i, l, r =>
    let r := r ^^^ mix s.boxes l ^^^ s.rounds.getD i 0
    let l := l ^^^ mix s.boxes r ^^^ s.rounds.getD (i + 1) 0
    pairs s fuel (i + 2) l r

def encrypt (s : State) (l r : UInt32) : UInt32 × UInt32 :=
  let (l, r) := pairs s 8 1 (l ^^^ s.rounds.getD 0 0) r
  (r ^^^ s.rounds.getD 17 0, l)

/-! ## Key schedule -/

/-- Word `i` of a byte string that is repeated for ever, given as its words. -/
def cycled (words : Array UInt32) (i : Nat) : UInt32 := words.getD (i % words.size) 0

def words (b : Bytes) : Array UInt32 :=
  ((Bytes.chunks 4 b).map fun w => UInt32.ofNat (Bytes.toNat w)).toArray

def addKey (key : Array UInt32) (s : State) : State :=
  { s with rounds := s.rounds.mapIdx fun i w => w ^^^ cycled key i }

/-- Replaces the round words by encryptions, `i` being the next, and mixes the salt in. -/
def fillRounds (salt : Array UInt32) : Nat → Nat → UInt32 → UInt32 → State → State × UInt32 × UInt32
  | 0, _, l, r, s => (s, l, r)
  | fuel + 1, i, l, r, s =>
    let (l, r) := encrypt s (l ^^^ cycled salt i) (r ^^^ cycled salt (i + 1))
    fillRounds salt fuel (i + 2) l r ⟨(s.rounds.set! i l).set! (i + 1) r, s.boxes⟩

/-- Replaces the substitutions likewise; the salt goes on from word `j`. -/
def fillBoxes (salt : Array UInt32) : Nat → Nat → Nat → UInt32 → UInt32 → State → State
  | 0, _, _, _, _, s => s
  | fuel + 1, i, j, l, r, s =>
    let (l, r) := encrypt s (l ^^^ cycled salt j) (r ^^^ cycled salt (j + 1))
    fillBoxes salt fuel (i + 2) (j + 2) l r ⟨s.rounds, (s.boxes.set! i l).set! (i + 1) r⟩

def expandSalted (salt key : Array UInt32) (s : State) : State :=
  let (s, l, r) := fillRounds salt 9 0 0 0 (addKey key s)
  fillBoxes salt 512 0 18 l r s

/-- Expansion without a salt. -/
def expand (key : Array UInt32) (s : State) : State := expandSalted #[0] key s

end CertAuthority.Blowfish
