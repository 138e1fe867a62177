import CertAuthority.Bytes.Basic

/-!
# Arithmetic modulo a number

Powers by repeated squaring, differences and inverses of residues. An inverse is a power, so the
modulus has to be prime.
-/

namespace CertAuthority

/-- `b ^ e` modulo `m`. -/
def powMod (m b e : Nat) : Nat :=
  if e = 0 then 1 % m
  else
    let half := powMod m (b * b % m) (e / 2)
    if e % 2 = 1 then b * half % m else half
termination_by e
decreasing_by omega

/-- `a - b` modulo `m`, for residues `a` and `b`. -/
def subMod (m a b : Nat) : Nat := (a + (m - b)) % m

/-- Inverse modulo a prime `m`. -/
def invMod (m a : Nat) : Nat := powMod m a (m - 2)

/-- Number of binary digits. -/
def bitLength (n : Nat) : Nat := if n = 0 then 0 else n.log2 + 1

/-- Binary digits from the most significant one, `width` of them. -/
def bitsOf : Nat → Nat → List Bool
  | 0, _ => []
  | width + 1, n => n.testBit width :: bitsOf width n

end CertAuthority
