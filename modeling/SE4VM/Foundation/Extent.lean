import SE4VM.Foundation.Memory

/-!
# Contiguous transfers

`Covers a n xs` says that the transfers `xs`, given as address and length in
the order they happen, run through the `n` bytes at `a` without gap, overlap or
excess.
-/

namespace SE4VM.Foundation

def Covers : U64 → Nat → List (U64 × Nat) → Prop
  | _, n, [] => n = 0
  | a, n, (a', m) :: rest => a' = a ∧ m ≤ n ∧ Covers (a + BitVec.ofNat 64 m) (n - m) rest

theorem Covers.snoc {a : U64} {n : Nat} {xs : List (U64 × Nat)} (h : Covers a n xs)
    (m : Nat) : Covers a (n + m) (xs ++ [(a + BitVec.ofNat 64 n, m)]) := by
  induction xs generalizing a n with
  | nil =>
      cases (h : n = 0)
      simp [Covers]
  | cons x rest ih =>
      obtain ⟨a', k⟩ := x
      obtain ⟨rfl, hk, hrest⟩ := h
      have haddr : a' + BitVec.ofNat 64 k + BitVec.ofNat 64 (n - k) =
          a' + BitVec.ofNat 64 n := by
        rw [Memory.add_ofNat_add, Nat.add_sub_cancel' hk]
      refine ⟨rfl, by omega, ?_⟩
      have := ih hrest
      rwa [haddr, show n - k + m = n + m - k by omega] at this

theorem Covers.le_of_append {a a' : U64} {k m n : Nat} {xs ys : List (U64 × Nat)}
    (hxs : Covers a k xs) (h : Covers a n (xs ++ (a', m) :: ys)) : k + m ≤ n := by
  induction xs generalizing a k n with
  | nil =>
      cases (hxs : k = 0)
      have := h.2.1
      omega
  | cons x rest ih =>
      obtain ⟨b, l⟩ := x
      obtain ⟨rfl, hl, hrest⟩ := hxs
      obtain ⟨-, hl', hrest'⟩ := h
      have := ih hrest hrest'
      omega

end SE4VM.Foundation
