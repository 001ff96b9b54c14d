import Mathlib.Logic.Function.Iterate
import Mathlib.Data.Nat.ModEq

/-!
# Positions in a ring

A ring of `n` slots is walked by `ringSucc`, which falls back to slot zero from
the last slot and from every position outside the ring.  `ringDist` counts the
steps from one slot forward to another.
-/

namespace SE4VM.Foundation

def ringSucc (n i : Nat) : Nat := if i + 1 < n then i + 1 else 0

def ringDist (n i j : Nat) : Nat := if i ≤ j then j - i else n + j - i

variable {n i j : Nat}

theorem ringSucc_lt (hn : 0 < n) (i : Nat) : ringSucc n i < n := by
  unfold ringSucc
  split_ifs <;> omega

theorem ringSucc_eq_mod (hi : i < n) : ringSucc n i = (i + 1) % n := by
  unfold ringSucc
  split_ifs with h
  · rw [Nat.mod_eq_of_lt h]
  · rw [show i + 1 = n by omega, Nat.mod_self]

theorem ringSucc_iterate (hi : i < n) (k : Nat) : (ringSucc n)^[k] i = (i + k) % n := by
  induction k with
  | zero => simp [Nat.mod_eq_of_lt hi]
  | succ k ih =>
      have hlt : (i + k) % n < n := Nat.mod_lt _ (by omega)
      rw [Function.iterate_succ_apply', ih, ringSucc_eq_mod hlt, Nat.mod_add_mod,
        Nat.add_assoc]

@[simp] theorem ringDist_self : ringDist n i i = 0 := by
  simp [ringDist]

theorem ringDist_lt (hi : i < n) (hj : j < n) : ringDist n i j < n := by
  unfold ringDist
  split_ifs <;> omega

theorem ringDist_eq_emod (hi : i < n) (hj : j < n) :
    (ringDist n i j : Int) = ((j : Int) - i) % n := by
  unfold ringDist
  split_ifs with h
  · rw [Int.emod_eq_of_lt (by omega) (by omega), Int.ofNat_sub h]
  · rw [← Int.add_emod_right, Int.emod_eq_of_lt (by omega) (by omega)]
    omega

theorem ringDist_ringSucc (hi : i < n) (hj : j < n) (hij : i ≠ j) :
    ringDist n (ringSucc n i) j + 1 = ringDist n i j := by
  unfold ringDist ringSucc
  split_ifs <;> omega

theorem add_ringDist (hi : i < n) (hj : j < n) : (i + ringDist n i j) % n = j := by
  unfold ringDist
  split_ifs with h
  · rw [show i + (j - i) = j by omega, Nat.mod_eq_of_lt hj]
  · rw [show i + (n + j - i) = j + n by omega, Nat.add_mod_right, Nat.mod_eq_of_lt hj]

/-- Less than a round takes the walk just as far as it has steps. -/
theorem ringDist_add_mod (hi : i < n) {k : Nat} (hk : k < n) :
    ringDist n i ((i + k) % n) = k := by
  unfold ringDist
  rcases Nat.lt_or_ge (i + k) n with h | h
  · rw [Nat.mod_eq_of_lt h]
    split_ifs <;> omega
  · rw [Nat.mod_eq_sub_mod h, Nat.mod_eq_of_lt (by omega)]
    split_ifs <;> omega

theorem ringDist_advance (hi : i < n) (hj : j < n) {k : Nat} (hk : k ≤ ringDist n i j) :
    ringDist n ((i + k) % n) j = ringDist n i j - k := by
  have hlt := ringDist_lt hi hj
  unfold ringDist at *
  rcases Nat.lt_or_ge (i + k) n with h | h
  · rw [Nat.mod_eq_of_lt h]
    split_ifs at * <;> omega
  · rw [Nat.mod_eq_sub_mod h, Nat.mod_eq_of_lt (by split_ifs at * <;> omega)]
    split_ifs at * <;> omega

end SE4VM.Foundation
