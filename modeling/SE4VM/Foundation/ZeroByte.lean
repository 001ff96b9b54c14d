import SE4VM.Foundation.Memory

/-!
# Looking for a zero byte a word at a time

Subtracting one from every byte of a word borrows into the highest bit of a byte that was
zero, and of no byte below it.  The test is carried out on numbers, byte by byte from the
lowest one, and then read off for words of eight bytes.
-/

namespace SE4VM.Foundation

/-- One in each of the `n` lowest bytes. -/
def ones : Nat → Nat
  | 0 => 0
  | n + 1 => 1 + 256 * ones n

theorem ones_lt (n : Nat) : ones n < 256 ^ n := by
  induction n with
  | zero => decide
  | succ n ih =>
      rw [ones, Nat.pow_succ]
      omega

theorem and_add {a b : Nat} (ha : a < 256) (hb : b < 256) (u v : Nat) :
    (a + 256 * u) &&& (b + 256 * v) = (a &&& b) + 256 * (u &&& v) := by
  have hlow : ((a + 256 * u) &&& (b + 256 * v)) % 2 ^ 8 = a &&& b := by
    rw [Nat.and_mod_two_pow]
    congr 1 <;> omega
  have hhigh : ((a + 256 * u) &&& (b + 256 * v)) / 2 ^ 8 = u &&& v := by
    rw [Nat.and_div_two_pow]
    congr 1 <;> omega
  omega

theorem xor_add {a b : Nat} (ha : a < 256) (hb : b < 256) (u v : Nat) :
    (a + 256 * u) ^^^ (b + 256 * v) = (a ^^^ b) + 256 * (u ^^^ v) := by
  have hlow : ((a + 256 * u) ^^^ (b + 256 * v)) % 2 ^ 8 = a ^^^ b := by
    rw [Nat.xor_mod_two_pow]
    congr 1 <;> omega
  have hhigh : ((a + 256 * u) ^^^ (b + 256 * v)) / 2 ^ 8 = u ^^^ v := by
    rw [Nat.xor_div_two_pow]
    congr 1 <;> omega
  omega

theorem ofLe_xor {as bs : List U8} (h : as.length = bs.length) :
    ofLe as ^^^ ofLe bs = ofLe (List.zipWith (· ^^^ ·) as bs) := by
  induction as generalizing bs with
  | nil =>
      obtain rfl := List.eq_nil_of_length_eq_zero h.symm
      rfl
  | cons a as ih =>
      cases bs with
      | nil => cases h
      | cons b bs =>
          rw [List.zipWith_cons_cons, ofLe, ofLe, ofLe, xor_add a.isLt b.isLt,
            ih (Nat.succ.inj h), BitVec.toNat_xor]

theorem ofLe_lt (bs : List U8) : ofLe bs < 256 ^ bs.length := by
  induction bs with
  | nil => decide
  | cons b bs ih =>
      have hb := b.isLt
      rw [ofLe, List.length_cons, Nat.pow_succ]
      omega

/-- What the test leaves of a word of `n` bytes. -/
def zeroMarks (n x : Nat) : Nat :=
  (256 ^ n - ones n + x) % 256 ^ n &&& (256 ^ n - 1 - x) &&& 128 * ones n

/-- The lowest byte is marked if it is zero; if not, it does not disturb the others. -/
theorem zeroMarks_succ {n b y : Nat} (hb : b < 256) (hy : y < 256 ^ n) :
    (b = 0 → zeroMarks (n + 1) (b + 256 * y) ≠ 0) ∧
      (b ≠ 0 → zeroMarks (n + 1) (b + 256 * y) = 256 * zeroMarks n y) := by
  have hones := ones_lt n
  have hpow : 256 ^ (n + 1) = 256 * 256 ^ n := by rw [Nat.pow_succ, Nat.mul_comm]
  have hnot : 256 ^ (n + 1) - 1 - (b + 256 * y) = (255 - b) + 256 * (256 ^ n - 1 - y) := by omega
  have hmask : 128 * ones (n + 1) = 128 + 256 * (128 * ones n) := by
    rw [ones]
    omega
  have hmod : ∀ a z, a < 256 → (a + 256 * z) % 256 ^ (n + 1) = a + 256 * (z % 256 ^ n) := by
    intro a z ha
    have hdiv : (a + 256 * z) / 256 = z := by omega
    rw [hpow, Nat.mod_mul, hdiv]
    omega
  constructor
  · intro hzero
    have hsub : 256 ^ (n + 1) - ones (n + 1) + (b + 256 * y) =
        255 + 256 * (256 ^ n - ones n - 1 + y) := by
      rw [ones]
      omega
    rw [zeroMarks, hsub, hnot, hmask, hmod 255 _ (by decide), and_add (by decide) (by omega),
      and_add (Nat.lt_of_le_of_lt Nat.and_le_left (by decide)) (by decide), hzero]
    have hlow : 255 &&& (255 - 0) &&& 128 = 128 := by decide
    omega
  · intro hpos
    have hsub : 256 ^ (n + 1) - ones (n + 1) + (b + 256 * y) =
        (b - 1) + 256 * (256 ^ n - ones n + y) := by
      rw [ones]
      omega
    have hlow : ∀ b < 256, b ≠ 0 → (b - 1) &&& (255 - b) &&& 128 = 0 := by
      decide +kernel
    rw [zeroMarks, hsub, hnot, hmask, hmod (b - 1) _ (by omega), and_add (by omega) (by omega),
      and_add (Nat.lt_of_le_of_lt Nat.and_le_left (by omega)) (by decide), hlow b hb hpos,
      Nat.zero_add, zeroMarks]

theorem zeroMarks_ofLe (bs : List U8) : zeroMarks bs.length (ofLe bs) ≠ 0 ↔ 0 ∈ bs := by
  induction bs with
  | nil => decide
  | cons b bs ih =>
      obtain ⟨hzero, hother⟩ := zeroMarks_succ b.isLt (ofLe_lt bs)
      rw [List.length_cons, ofLe, List.mem_cons]
      by_cases hb : b = 0
      · exact iff_of_true (hzero (by rw [hb]; rfl)) (.inl hb.symm)
      · rw [hother fun h => hb (BitVec.eq_of_toNat_eq h), or_iff_right (Ne.symm hb), ← ih]
        omega

theorem toNat_word {bs : List U8} (h : bs.length = 8) :
    (BitVec.ofNat 64 (ofLe bs)).toNat = ofLe bs := by
  have hlt := ofLe_lt bs
  rw [h] at hlt
  rw [BitVec.toNat_ofNat]
  exact Nat.mod_eq_of_lt hlt

/-- The test on a word of eight bytes. -/
def hasZeroByte (x : U64) : Bool :=
  (x - 0x0101010101010101#64) &&& ~~~x &&& (0x0101010101010101#64 <<< 7) ≠ 0

theorem hasZeroByte_ofLe {bs : List U8} (h : bs.length = 8) :
    hasZeroByte (BitVec.ofNat 64 (ofLe bs)) = true ↔ 0 ∈ bs := by
  rw [← zeroMarks_ofLe, h, hasZeroByte, decide_eq_true_eq, ne_eq, ne_eq, not_iff_not,
    ← BitVec.toNat_inj, BitVec.toNat_and, BitVec.toNat_and, BitVec.toNat_sub, BitVec.toNat_not,
    toNat_word h]
  exact Iff.rfl

end SE4VM.Foundation
