import SE4VM.Foundation.Memory

/-!
# Carries

A counter of two words whose low word overflows into the high one, and the
one's-complement sum of 16-bit words, in which a carry is added back at the low end.
Folding the carries keeps the residue modulo 65535 and tells zero from its other
representation, the word of ones.
-/

namespace SE4VM.Foundation

/-! ## Two-word counters -/

def wordPair (high low : U32) : Nat := high.toNat * 2 ^ 32 + low.toNat

/-- A low word that became smaller has overflowed, if less than a full turn was added. -/
theorem wordPair_add (high low : U32) {n : Nat} (hn : n < 2 ^ 32) :
    wordPair (if low + BitVec.ofNat 32 n < low then high + 1 else high)
      (low + BitVec.ofNat 32 n) = (wordPair high low + n) % 2 ^ 64 := by
  have hhigh := high.isLt
  have hlow := low.isLt
  have hsum : (low + BitVec.ofNat 32 n).toNat = (low.toNat + n) % 2 ^ 32 := by
    rw [BitVec.toNat_add, BitVec.toNat_ofNat, Nat.mod_eq_of_lt hn]
  have hsucc : (high + 1).toNat = (high.toNat + 1) % 2 ^ 32 := by
    rw [BitVec.toNat_add]
    rfl
  simp only [wordPair, BitVec.lt_def, hsum]
  split_ifs with hcarry
  · rw [hsucc]
    omega
  · omega

/-! ## End-around carry -/

def fold16 (n : Nat) : Nat :=
  if n < 2 ^ 16 then n else fold16 (n % 2 ^ 16 + n / 2 ^ 16)
termination_by n
decreasing_by omega

theorem fold16_of_lt {n : Nat} (h : n < 2 ^ 16) : fold16 n = n := by
  rw [fold16, if_pos h]

theorem fold16_of_le {n : Nat} (h : 2 ^ 16 ≤ n) : fold16 n = fold16 (n % 2 ^ 16 + n / 2 ^ 16) := by
  rw [fold16, if_neg (Nat.not_lt.mpr h)]

theorem fold16_lt (n : Nat) : fold16 n < 2 ^ 16 := by
  fun_induction fold16 n with
  | case1 n h => exact h
  | case2 n h ih => exact ih

theorem fold16_mod (n : Nat) : fold16 n % 65535 = n % 65535 := by
  fun_induction fold16 n with
  | case1 n h => rfl
  | case2 n h ih =>
      rw [ih]
      omega

theorem fold16_pos {n : Nat} (h : 0 < n) : 0 < fold16 n := by
  fun_induction fold16 n with
  | case1 n hlt => exact h
  | case2 n hlt ih => exact ih (by omega)

theorem fold16_eq_ones {n : Nat} (hpos : 0 < n) (hmod : n % 65535 = 0) : fold16 n = 0xffff := by
  have hlt := fold16_lt n
  have hne := fold16_pos hpos
  have hres := fold16_mod n
  omega

/-! ## Sums of words -/

/-- The words have their high byte first; a last odd byte is the high one of its word. -/
def wordSum : List U8 → Nat
  | [] => 0
  | [a] => 256 * a.toNat
  | a :: b :: bs => 256 * a.toNat + b.toNat + wordSum bs

theorem wordSum_append {xs : List U8} (ys : List U8) (h : xs.length % 2 = 0) :
    wordSum (xs ++ ys) = wordSum xs + wordSum ys := by
  fun_induction wordSum xs with
  | case1 => simp
  | case2 a => simp at h
  | case3 a b xs ih =>
      have hlen : xs.length % 2 = 0 := by
        simp only [List.length_cons] at h
        omega
      rw [List.cons_append, List.cons_append, wordSum, ih hlen]
      omega

theorem wordSum_concat (xs : List U8) (b : U8) :
    wordSum (xs ++ [b]) = wordSum xs + (if xs.length % 2 = 1 then b.toNat else 256 * b.toNat) := by
  fun_induction wordSum xs with
  | case1 => simp [wordSum]
  | case2 a => simp [wordSum]
  | case3 x y xs ih =>
      have hlen : (x :: y :: xs).length % 2 = xs.length % 2 := by
        simp only [List.length_cons]
        omega
      rw [List.cons_append, List.cons_append, wordSum, ih, hlen]
      omega

theorem wordSum_le (xs : List U8) : wordSum xs ≤ 65280 * xs.length := by
  fun_induction wordSum xs with
  | case1 => simp
  | case2 a =>
      have ha := a.isLt
      simp only [List.length_cons, List.length_nil]
      omega
  | case3 a b xs ih =>
      have ha := a.isLt
      have hb := b.isLt
      simp only [List.length_cons]
      omega

end SE4VM.Foundation
