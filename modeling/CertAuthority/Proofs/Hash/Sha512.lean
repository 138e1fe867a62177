import CertAuthority.Hash.Sha512
import CertAuthority.Proofs.Bytes.Numbers

/-!
# The 512-bit hash on numbers

The words of the hash are machine words, and the message schedule is an array in which each word is
looked up by its place. Here the words are numbers, and the schedule is a list with the newest word
first: the next word depends on the sixteen before it, and the rounds take one word after another. The
operations on numbers are used by name, since the kernel evaluates them directly, so a digest of a fixed
message takes it a small part of the steps.

* `Sha512.State.nums_step` : a round on numbers is the round;
* `Sha512.dvd_length_padded` : a padded message has whole blocks;
* `Sha512.digest_eq` : the digest on numbers is the digest.
-/

namespace CertAuthority.Sha512

/-! ## Words and states as numbers -/

/-- Words are below this number. -/
def wordLimit : Nat := 0x10000000000000000

def rotrNat (n x : Nat) : Nat :=
  Nat.lor (Nat.shiftRight x n) (Nat.mod (Nat.shiftLeft x (Nat.sub 64 n)) wordLimit)

structure NumState where
  a : Nat
  b : Nat
  c : Nat
  d : Nat
  e : Nat
  f : Nat
  g : Nat
  h : Nat

def State.nums (s : State) : NumState :=
  ⟨s.a.toNat, s.b.toNat, s.c.toNat, s.d.toNat, s.e.toNat, s.f.toNat, s.g.toNat, s.h.toNat⟩

namespace NumState

def step (s : NumState) (kw : Nat) : NumState :=
  let s1 := Nat.xor (Nat.xor (rotrNat 14 s.e) (rotrNat 18 s.e)) (rotrNat 41 s.e)
  let ch := Nat.xor (Nat.land s.e s.f) (Nat.land (Nat.xor s.e 0xffffffffffffffff) s.g)
  let t1 := Nat.add (Nat.add (Nat.add s.h s1) ch) kw
  let s0 := Nat.xor (Nat.xor (rotrNat 28 s.a) (rotrNat 34 s.a)) (rotrNat 39 s.a)
  let maj := Nat.xor (Nat.xor (Nat.land s.a s.b) (Nat.land s.a s.c)) (Nat.land s.b s.c)
  ⟨Nat.mod (Nat.add t1 (Nat.add s0 maj)) wordLimit, s.a, s.b, s.c,
   Nat.mod (Nat.add s.d t1) wordLimit, s.e, s.f, s.g⟩

def add (s t : NumState) : NumState :=
  ⟨Nat.mod (Nat.add s.a t.a) wordLimit, Nat.mod (Nat.add s.b t.b) wordLimit,
   Nat.mod (Nat.add s.c t.c) wordLimit, Nat.mod (Nat.add s.d t.d) wordLimit,
   Nat.mod (Nat.add s.e t.e) wordLimit, Nat.mod (Nat.add s.f t.f) wordLimit,
   Nat.mod (Nat.add s.g t.g) wordLimit, Nat.mod (Nat.add s.h t.h) wordLimit⟩

def toBytes (s : NumState) : Bytes :=
  [s.a, s.b, s.c, s.d, s.e, s.f, s.g, s.h].flatMap fun w => Bytes.ofNatWidth 8 w

end NumState

theorem toNat_rotr (x : UInt64) {n : UInt64} (hpos : 0 < n.toNat) (hlt : n.toNat < 64) :
    (rotr x n).toNat = rotrNat n.toNat x.toNat := by
  have hle : n ≤ 64 := UInt64.le_iff_toNat_le.2 (Nat.le_of_lt hlt)
  have hleft : (64 - n).toNat = 64 - n.toNat := UInt64.toNat_sub_of_le _ _ hle
  rw [rotr, UInt64.toNat_or, UInt64.toNat_shiftRight, UInt64.toNat_shiftLeft, hleft,
    Nat.mod_eq_of_lt hlt, Nat.mod_eq_of_lt (by omega : 64 - n.toNat < 64)]
  rfl

/-- **A round on numbers is the round.** -/
theorem State.nums_step (s : State) (kw : UInt64) : (s.step kw).nums = s.nums.step kw.toNat := by
  have hturn (x : UInt64) :
      (rotr x 14).toNat = rotrNat 14 x.toNat ∧ (rotr x 18).toNat = rotrNat 18 x.toNat ∧
      (rotr x 41).toNat = rotrNat 41 x.toNat ∧ (rotr x 28).toNat = rotrNat 28 x.toNat ∧
      (rotr x 34).toNat = rotrNat 34 x.toNat ∧ (rotr x 39).toNat = rotrNat 39 x.toNat :=
    ⟨toNat_rotr x (by decide) (by decide), toNat_rotr x (by decide) (by decide),
      toNat_rotr x (by decide) (by decide), toNat_rotr x (by decide) (by decide),
      toNat_rotr x (by decide) (by decide), toNat_rotr x (by decide) (by decide)⟩
  obtain ⟨he₁, he₂, he₃, -, -, -⟩ := hturn s.e
  obtain ⟨-, -, -, ha₁, ha₂, ha₃⟩ := hturn s.a
  simp only [State.step, State.nums, UInt64.toNat_add, UInt64.toNat_xor, UInt64.toNat_and, he₁, he₂,
    he₃, ha₁, ha₂, ha₃, Nat.mod_add_mod, Nat.add_mod_mod]
  rfl

theorem State.nums_add (s t : State) : (s.add t).nums = s.nums.add t.nums := by
  simp only [State.add, State.nums, UInt64.toNat_add]
  rfl

theorem State.toBytes_nums (s : State) : s.nums.toBytes = s.toBytes := rfl

/-! ## The message schedule as a list -/

def shiftNat (k : Nat) (x : UInt8) : Nat := Nat.mod (Nat.shiftLeft x.toNat k) wordLimit

def wordNat (a b c d e f g h : UInt8) : Nat :=
  Nat.lor (Nat.lor (Nat.lor (Nat.lor (Nat.lor (Nat.lor (Nat.lor (shiftNat 56 a) (shiftNat 48 b))
    (shiftNat 40 c)) (shiftNat 32 d)) (shiftNat 24 e)) (shiftNat 16 f)) (shiftNat 8 g)) h.toNat

/-- Words of a block, newest first. -/
def numWords : Bytes → List Nat → List Nat
  | a :: b :: c :: d :: e :: f :: g :: h :: rest, acc =>
    numWords rest (wordNat a b c d e f g h :: acc)
  | _, acc => acc

/-- The next word, of those before it. -/
def nextWord (l : List Nat) : Nat :=
  let x := l.getD 14 0
  let y := l.getD 1 0
  let s0 := Nat.xor (Nat.xor (rotrNat 1 x) (rotrNat 8 x)) (Nat.shiftRight x 7)
  let s1 := Nat.xor (Nat.xor (rotrNat 19 y) (rotrNat 61 y)) (Nat.shiftRight y 6)
  Nat.mod (Nat.add (Nat.add (Nat.add (l.getD 15 0) s0) (l.getD 6 0)) s1) wordLimit

def numSchedule : Nat → List Nat → List Nat
  | 0, l => l
  | n + 1, l => numSchedule n (nextWord l :: l)

def numRounds : List Nat → List Nat → NumState → NumState
  | k :: ks, w :: ws, s => numRounds ks ws (s.step (Nat.mod (Nat.add k w) wordLimit))
  | _, _, s => s

def numConstants : List Nat := constants.toList.map (·.toNat)

def numCompress (s : NumState) (block : Bytes) : NumState :=
  s.add (numRounds numConstants (numSchedule 64 (numWords block [])).reverse s)

def numDigest (message : Bytes) : Bytes :=
  (((message ++ padding message.length).chunks 128).foldl numCompress initial.nums).toBytes

/-! ## The same digest -/

/-- What an array holds, newest first. -/
def newestFirst (w : Array UInt64) : List Nat := (w.toList.map (·.toNat)).reverse

theorem newestFirst_push (w : Array UInt64) (x : UInt64) :
    newestFirst (w.push x) = x.toNat :: newestFirst w := by
  simp [newestFirst]

theorem length_newestFirst (w : Array UInt64) : (newestFirst w).length = w.size := by
  simp [newestFirst]

/-- What was added last but `k` is at place `k`. -/
theorem toNat_getD_sub (w : Array UInt64) {k : Nat} (hk : k < w.size) :
    (w.getD (w.size - (k + 1)) 0).toNat = (newestFirst w).getD k 0 := by
  have hlt : w.size - (k + 1) < w.size := by omega
  have hplace : w.size - 1 - k = w.size - (k + 1) := by omega
  simp [newestFirst, Array.getD, hlt, hk, hplace]

theorem toNat_shift (x : UInt8) {k : UInt64} (hk : k.toNat < 64) :
    (x.toUInt64 <<< k).toNat = shiftNat k.toNat x := by
  rw [UInt64.toNat_shiftLeft, Nat.mod_eq_of_lt hk, UInt8.toNat_toUInt64]
  rfl

theorem toNat_word (a b c d e f g h : UInt8) :
    ((a.toUInt64 <<< 56) ||| (b.toUInt64 <<< 48) ||| (c.toUInt64 <<< 40) |||
      (d.toUInt64 <<< 32) ||| (e.toUInt64 <<< 24) ||| (f.toUInt64 <<< 16) |||
      (g.toUInt64 <<< 8) ||| h.toUInt64).toNat = wordNat a b c d e f g h := by
  simp only [UInt64.toNat_or, UInt8.toNat_toUInt64]
  rw [toNat_shift a (by decide), toNat_shift b (by decide), toNat_shift c (by decide),
    toNat_shift d (by decide), toNat_shift e (by decide), toNat_shift f (by decide),
    toNat_shift g (by decide)]
  rfl

theorem newestFirst_words (block : Bytes) (acc : Array UInt64) :
    newestFirst (words block acc) = numWords block (newestFirst acc) := by
  fun_induction words block acc with
  | case1 acc a b c d e f g h rest ih =>
    rw [ih, numWords, newestFirst_push, toNat_word]
  | case2 acc b hb =>
    unfold numWords
    split
    · exact absurd rfl (hb _ _ _ _ _ _ _ _ _)
    · rfl

theorem length_numWords (n : Nat) {block : Bytes} (h : block.length = 8 * n) (acc : List Nat) :
    (numWords block acc).length = n + acc.length := by
  induction n generalizing block acc with
  | zero =>
    obtain rfl : block = [] := List.length_eq_zero_iff.1 h
    exact (Nat.zero_add _).symm
  | succ n ih =>
    match block, h with
    | a :: b :: c :: d :: e :: f :: g :: i :: rest, h =>
      simp only [List.length_cons] at h
      rw [numWords, ih (by omega), List.length_cons]
      omega

theorem newestFirst_schedule (n : Nat) {w : Array UInt64} (hw : 16 ≤ w.size) :
    newestFirst (schedule n w) = numSchedule n (newestFirst w) := by
  induction n generalizing w with
  | zero => rfl
  | succ n ih =>
    have hone := toNat_getD_sub w (k := 1) (by omega)
    have hsix := toNat_getD_sub w (k := 6) (by omega)
    have hfourteen := toNat_getD_sub w (k := 14) (by omega)
    have hfifteen := toNat_getD_sub w (k := 15) (by omega)
    have hnext (x y : UInt64) :
        (w.getD (w.size - 16) 0 + (rotr x 1 ^^^ rotr x 8 ^^^ (x >>> 7)) + w.getD (w.size - 7) 0 +
          (rotr y 19 ^^^ rotr y 61 ^^^ (y >>> 6))).toNat =
        Nat.mod (Nat.add (Nat.add (Nat.add (w.getD (w.size - 16) 0).toNat
          (Nat.xor (Nat.xor (rotrNat 1 x.toNat) (rotrNat 8 x.toNat)) (Nat.shiftRight x.toNat 7)))
          (w.getD (w.size - 7) 0).toNat)
          (Nat.xor (Nat.xor (rotrNat 19 y.toNat) (rotrNat 61 y.toNat))
            (Nat.shiftRight y.toNat 6))) wordLimit := by
      have hone : (rotr x 1).toNat = rotrNat 1 x.toNat := toNat_rotr x (by decide) (by decide)
      have height : (rotr x 8).toNat = rotrNat 8 x.toNat := toNat_rotr x (by decide) (by decide)
      have hnineteen : (rotr y 19).toNat = rotrNat 19 y.toNat :=
        toNat_rotr y (by decide) (by decide)
      have hlast : (rotr y 61).toNat = rotrNat 61 y.toNat := toNat_rotr y (by decide) (by decide)
      simp only [UInt64.toNat_add, UInt64.toNat_xor, UInt64.toNat_shiftRight, hone, height, hnineteen,
        hlast, Nat.mod_add_mod]
      rfl
    rw [schedule, ih (by rw [Array.size_push]; omega), newestFirst_push, numSchedule, nextWord,
      hnext, hone, hsix, hfourteen, hfifteen]

theorem length_numSchedule (n : Nat) (l : List Nat) :
    (numSchedule n l).length = n + l.length := by
  induction n generalizing l with
  | zero => exact (Nat.zero_add _).symm
  | succ n ih =>
    rw [numSchedule, ih, List.length_cons]
    omega

/-- The rounds take the words in their order. -/
theorem nums_rounds {w : Array UInt64} (n i : Nat) (hw : w.size = i + n)
    (hk : constants.size = i + n) (s : State) :
    (rounds w n i s).nums =
      numRounds (numConstants.drop i) ((w.toList.map (·.toNat)).drop i) s.nums := by
  induction n generalizing i s with
  | zero =>
    have hall : numConstants.drop i = [] := List.drop_eq_nil_of_le (by
      rw [numConstants, List.length_map, Array.length_toList]
      omega)
    rw [hall]
    rfl
  | succ n ih =>
    have hi : i < w.size := by omega
    have hi' : i < constants.size := by omega
    have hword : (w.toList.map (·.toNat)).drop i =
        (w.getD i 0).toNat :: (w.toList.map (·.toNat)).drop (i + 1) := by
      rw [List.drop_eq_getElem_cons (by simpa using hi)]
      simp [Array.getD, hi]
    have hconstant : numConstants.drop i =
        (constants.getD i 0).toNat :: numConstants.drop (i + 1) := by
      rw [numConstants, List.drop_eq_getElem_cons (by simpa using hi')]
      simp [Array.getD, hi']
    rw [rounds, ih (i + 1) (by omega) (by omega), State.nums_step, UInt64.toNat_add, hword, hconstant,
      numRounds]
    rfl

theorem nums_compress (s : State) {block : Bytes} (h : block.length = 128) :
    (compress s block).nums = numCompress s.nums block := by
  obtain ⟨w, hw⟩ : ∃ w, w = words block (Array.mkEmpty 80) := ⟨_, rfl⟩
  have hwords : newestFirst w = numWords block [] := hw ▸ newestFirst_words block _
  have hcount : w.size = 16 := by
    rw [← length_newestFirst, hwords, length_numWords 16 h]
    rfl
  have hschedule := newestFirst_schedule 64 (Nat.le_of_eq hcount.symm)
  have hsize : (schedule 64 w).size = 80 := by
    rw [← length_newestFirst, hschedule, length_numSchedule, length_newestFirst, hcount]
  have horder : (schedule 64 w).toList.map (·.toNat) = (numSchedule 64 (numWords block [])).reverse := by
    rw [← hwords, ← hschedule, newestFirst, List.reverse_reverse]
  rw [compress, ← hw, State.nums_add, nums_rounds 80 0 hsize rfl, List.drop_zero, List.drop_zero,
    horder]
  rfl

theorem dvd_length_padded (message : Bytes) :
    128 ∣ (message ++ padding message.length).length := by
  rw [padding, List.length_append, List.length_append, List.length_cons, List.length_replicate,
    Bytes.length_ofNatWidth]
  omega

/-- **The digest on numbers is the digest.** -/
theorem digest_eq : digest = numDigest := by
  funext message
  have hblocks := Bytes.length_of_mem_chunks (dvd_length_padded message)
  have hsame : ∀ (blocks : List Bytes) (s : State), (∀ b ∈ blocks, b.length = 128) →
      (blocks.foldl compress s).nums = blocks.foldl numCompress s.nums := by
    intro blocks
    induction blocks with
    | nil => exact fun _ _ => rfl
    | cons block blocks ih =>
      intro s hall
      obtain ⟨hblock, hall⟩ := List.forall_mem_cons.1 hall
      rw [List.foldl_cons, List.foldl_cons, ← nums_compress s hblock, ih _ hall]
  rw [digest, digestFrom, absorb, ← State.toBytes_nums, hsame _ _ hblocks]
  rfl

end CertAuthority.Sha512
