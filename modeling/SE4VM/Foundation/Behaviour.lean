import Mathlib.Algebra.Ring.Periodic
import Mathlib.Data.Nat.Periodic
import Mathlib.Data.Nat.Prime.Basic

/-!
# Machines that no input tells apart

Two states of a machine behave alike when every input leads them to the same
observation.  A machine that puts out a stored signal for ever is told from a
shifted copy of itself unless the signal has a shorter period.
-/

namespace SE4VM.Foundation

section Behaviour

variable {σ α β γ : Type*} {step : σ → α → σ} {obs : σ → β} {x y : σ}

def SameBehaviour (step : σ → α → σ) (obs : σ → β) (x y : σ) : Prop :=
  ∀ input : List α, obs (input.foldl step x) = obs (input.foldl step y)

namespace SameBehaviour

theorem refl (step : σ → α → σ) (obs : σ → β) (x : σ) : SameBehaviour step obs x x :=
  fun _ => rfl

theorem symm (h : SameBehaviour step obs x y) : SameBehaviour step obs y x :=
  fun input => (h input).symm

theorem obs_eq (h : SameBehaviour step obs x y) : obs x = obs y := h []

theorem foldl (h : SameBehaviour step obs x y) (input : List α) :
    SameBehaviour step obs (input.foldl step x) (input.foldl step y) := by
  intro more
  rw [← List.foldl_append, ← List.foldl_append]
  exact h (input ++ more)

theorem map (h : SameBehaviour step obs x y) (f : β → γ) :
    SameBehaviour step (f ∘ obs) x y :=
  fun input => congrArg f (h input)

/-- One step of a coarser machine is a word for the machine below. -/
theorem coarsen (h : SameBehaviour step obs x y) (word : γ → List α) :
    SameBehaviour (fun s c => (word c).foldl step s) obs x y := by
  intro input
  rw [← List.foldl_flatMap, ← List.foldl_flatMap]
  exact h (input.flatMap word)

theorem of_bisimulation (R : σ → σ → Prop) (hobs : ∀ x y, R x y → obs x = obs y)
    (hstep : ∀ x y a, R x y → R (step x a) (step y a)) (h : R x y) :
    SameBehaviour step obs x y := by
  intro input
  induction input generalizing x y with
  | nil => exact hobs x y h
  | cons a input ih => exact ih (hstep x y a h)

end SameBehaviour

end Behaviour

/-! ## Signals -/

section Signal

variable {α : Type*} {f : Nat → α} {a b k : Nat}

theorem periodic_of_shift {n : Nat} (hn : 0 < n) (hf : Function.Periodic f n)
    (h : ∀ i, f (a + i) = f (b + i)) : Function.Periodic f (b + (n - a % n)) := by
  intro i
  have hlt := Nat.mod_lt a hn
  have hback : a + (i + (n - a % n)) = i + (a / n + 1) * n := by
    have hdiv := Nat.div_add_mod' a n
    rw [Nat.add_mul]
    omega
  rw [show i + (b + (n - a % n)) = b + (i + (n - a % n)) by omega, ← h, hback,
    ← Nat.cast_id (a / n + 1)]
  exact hf.nat_mul _ i

theorem periodic_half_of_not_dvd {d : Nat} (hf : Function.Periodic f (2 ^ (k + 1)))
    (hd : Function.Periodic f d) (hdvd : ¬ 2 ^ (k + 1) ∣ d) :
    Function.Periodic f (2 ^ k) := by
  obtain ⟨j, hj, hgcd⟩ := (Nat.dvd_prime_pow Nat.prime_two).mp (Nat.gcd_dvd_right d (2 ^ (k + 1)))
  have hle : j ≤ k := by
    refine Nat.le_of_lt_succ (Nat.lt_of_le_of_ne hj ?_)
    rintro rfl
    exact hdvd (hgcd ▸ Nat.gcd_dvd_left d _)
  have hlt : Nat.gcd d (2 ^ (k + 1)) < 2 ^ (k + 1) := by
    rw [hgcd]
    exact Nat.pow_lt_pow_right (by decide) (Nat.lt_succ_of_le hle)
  obtain ⟨m, -, hm⟩ := Nat.exists_mul_mod_eq_gcd hlt
  have hsmall : Function.Periodic f (2 ^ j) := by
    intro i
    calc f (i + 2 ^ j) = f ((i + d * m % 2 ^ (k + 1)) % 2 ^ (k + 1)) := by
          rw [hf.map_mod_nat, hm, hgcd]
      _ = f (i + d * m) := by rw [Nat.add_mod_mod, hf.map_mod_nat]
      _ = f i := by
          rw [Nat.mul_comm d m]
          exact hd.nat_mul m i
  have hpow : 2 ^ k = 2 ^ (k - j) * 2 ^ j := by
    rw [← Nat.pow_add, Nat.sub_add_cancel hle]
  rw [hpow]
  exact_mod_cast hsmall.nat_mul (2 ^ (k - j))

/-- A signal whose period is a power of two and no less differs from its shifts. -/
theorem modEq_of_shift (hf : Function.Periodic f (2 ^ (k + 1)))
    (hmin : ¬ Function.Periodic f (2 ^ k)) (h : ∀ i, f (a + i) = f (b + i)) :
    a ≡ b [MOD 2 ^ (k + 1)] := by
  have hpos : 0 < 2 ^ (k + 1) := Nat.two_pow_pos _
  have hdvd : 2 ^ (k + 1) ∣ b + (2 ^ (k + 1) - a % 2 ^ (k + 1)) := by
    by_contra hnot
    exact hmin (periodic_half_of_not_dvd hf (periodic_of_shift hpos hf h) hnot)
  have hlt := Nat.mod_lt a hpos
  have hadd : b + (2 ^ (k + 1) - a % 2 ^ (k + 1)) + a ≡ a [MOD 2 ^ (k + 1)] := by
    simpa using (Nat.modEq_zero_iff_dvd.mpr hdvd).add_right a
  refine hadd.symm.trans ?_
  have hdiv := Nat.div_add_mod' a (2 ^ (k + 1))
  rw [show b + (2 ^ (k + 1) - a % 2 ^ (k + 1)) + a =
    b + (a / 2 ^ (k + 1) + 1) * 2 ^ (k + 1) by rw [Nat.add_mul]; omega]
  exact Nat.add_mul_mod_self_right _ _ _

end Signal

end SE4VM.Foundation
