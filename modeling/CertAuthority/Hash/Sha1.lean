import CertAuthority.Hash.Sha256

/-!
# SHA-1

The 160-bit hash of FIPS 180-4. It names keys and checks old signatures and stores; nothing new is
signed with it. Blocks and padding are those of SHA-256.
-/

namespace CertAuthority.Sha1

structure State where
  a : UInt32
  b : UInt32
  c : UInt32
  d : UInt32
  e : UInt32
deriving DecidableEq, Inhabited

def initial : State := ⟨0x67452301, 0xefcdab89, 0x98badcfe, 0x10325476, 0xc3d2e1f0⟩

def rotl (x : UInt32) (n : UInt32) : UInt32 := (x <<< n) ||| (x >>> (32 - n))

/-- The mixing function and constant of round `i`. -/
def mix (i : Nat) (s : State) : UInt32 :=
  if i < 20 then ((s.b &&& s.c) ||| ((s.b ^^^ 0xffffffff) &&& s.d)) + 0x5a827999
  else if i < 40 then (s.b ^^^ s.c ^^^ s.d) + 0x6ed9eba1
  else if i < 60 then ((s.b &&& s.c) ||| (s.b &&& s.d) ||| (s.c &&& s.d)) + 0x8f1bbcdc
  else (s.b ^^^ s.c ^^^ s.d) + 0xca62c1d6

def step (i : Nat) (s : State) (w : UInt32) : State :=
  ⟨rotl s.a 5 + mix i s + s.e + w, s.a, rotl s.b 30, s.c, s.d⟩

/-- Extends the message schedule by `n` words. -/
def schedule : Nat → Array UInt32 → Array UInt32
  | 0, w => w
  | n + 1, w =>
    let i := w.size
    schedule n (w.push (rotl
      (w.getD (i - 3) 0 ^^^ w.getD (i - 8) 0 ^^^ w.getD (i - 14) 0 ^^^ w.getD (i - 16) 0) 1))

/-- `n` rounds from round `i` on. -/
def rounds (w : Array UInt32) : Nat → Nat → State → State
  | 0, _, s => s
  | n + 1, i, s => rounds w n (i + 1) (step i s (w.getD i 0))

def compress (s : State) (block : Bytes) : State :=
  let t := rounds (schedule 64 (Sha256.words block (Array.mkEmpty 80))) 80 0 s
  ⟨s.a + t.a, s.b + t.b, s.c + t.c, s.d + t.d, s.e + t.e⟩

def digest (message : Bytes) : Bytes :=
  let s := ((message ++ Sha256.padding message.length).chunks 64).foldl compress initial
  [s.a, s.b, s.c, s.d, s.e].flatMap fun w => Bytes.ofWord32 w.toNat

end CertAuthority.Sha1
