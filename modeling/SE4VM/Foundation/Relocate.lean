import SE4VM.Foundation.Memory

/-!
# Moving blocks between two memories

A relocation says which address of one memory each address of another one stands
for.  Copying blocks piece by piece to where they belong gives a memory that depends
only on the set of addresses copied so far.
-/

namespace SE4VM.Foundation

open Memory (offset)

abbrev Block := U64 × Nat

def covers (S : List Block) (x : U64) : Bool := S.any fun b => offset b.1 x < b.2

@[simp] theorem covers_append (S T : List Block) (x : U64) :
    covers (S ++ T) x = (covers S x || covers T x) :=
  List.any_append

theorem covers_singleton (a x : U64) (n : Nat) : covers [(a, n)] x = decide (offset a x < n) := by
  rw [covers, List.any_cons, List.any_nil, Bool.or_false]

/-- All bytes of a block are covered. -/
def holds (S : List Block) (a : U64) (n : Nat) : Prop := ∀ i < n, covers S (a + BitVec.ofNat 64 i)

instance (S : List Block) (a : U64) (n : Nat) : Decidable (holds S a n) :=
  inferInstanceAs (Decidable (∀ i < n, covers S (a + BitVec.ofNat 64 i) = true))

theorem add_offset (a x : U64) : a + BitVec.ofNat 64 (offset a x) = x := by
  rw [offset, BitVec.ofNat_toNat, BitVec.setWidth_eq, BitVec.add_comm, BitVec.sub_add_cancel]

structure Relocation where
  origin : U64 → Option U64
  injective : ∀ {x y y'}, origin y = some x → origin y' = some x → y = y'

namespace Relocation

/-- Everything lies `δ` higher up. -/
def shift (δ : U64) : Relocation where
  origin y := some (y - δ)
  injective h h' := by
    have heq := congrArg (· + δ) ((Option.some.inj h).trans (Option.some.inj h').symm)
    simpa only [BitVec.sub_add_cancel] using heq

/-- The block at `dst` stands for the one at `src`. -/
def Places (ρ : Relocation) (src dst : U64) (n : Nat) : Prop :=
  ∀ i < n, ρ.origin (dst + BitVec.ofNat 64 i) = some (src + BitVec.ofNat 64 i)

instance (ρ : Relocation) (src dst : U64) (n : Nat) : Decidable (ρ.Places src dst n) :=
  inferInstanceAs (Decidable (∀ i < n, _ = _))

theorem places_shift (δ a : U64) (n : Nat) : (shift δ).Places a (a + δ) n := by
  intro i _
  show some (a + δ + BitVec.ofNat 64 i - δ) = _
  rw [BitVec.add_assoc, BitVec.add_comm δ, ← BitVec.add_assoc, BitVec.add_sub_cancel]

end Relocation

/-- `m'`, with the covered addresses taken over from `m`. -/
def transfer (ρ : Relocation) (S : List Block) (m m' : Memory) : Memory := fun y =>
  match ρ.origin y with
  | some x => if covers S x then m x else m' y
  | none => m' y

section Transfer

variable {ρ : Relocation} {S : List Block} {m m' : Memory} {src dst : U64} {n : Nat}

theorem transfer_of_some {x y : U64} (h : ρ.origin y = some x) :
    transfer ρ S m m' y = if covers S x then m x else m' y := by
  rw [transfer, h]

theorem transfer_of_none {y : U64} (h : ρ.origin y = none) : transfer ρ S m m' y = m' y := by
  rw [transfer, h]

/-- What agrees already counts as copied. -/
theorem transfer_eq_self (h : ∀ x y, ρ.origin y = some x → covers S x → m' y = m x) :
    transfer ρ S m m' = m' := by
  funext y
  cases horigin : ρ.origin y with
  | none => exact transfer_of_none horigin
  | some x =>
      rw [transfer_of_some horigin]
      split_ifs with hcovers
      · exact (h x y horigin hcovers).symm
      · rfl

theorem write_transfer (h : ρ.Places src dst n) (hn : n ≤ 2 ^ 64) :
    (transfer ρ S m m').write dst (m.read src n) = transfer ρ (S ++ [(src, n)]) m m' := by
  funext y
  by_cases hy : offset dst y < n
  · have horigin := h _ hy
    rw [add_offset] at horigin
    have hsrc : offset src (src + BitVec.ofNat 64 (offset dst y)) < n := by
      rw [Memory.offset_self_add, Nat.mod_eq_of_lt (by omega)]
      exact hy
    rw [transfer_of_some horigin, covers_append, covers_singleton, decide_eq_true hsrc,
      Bool.or_true, if_pos rfl, Memory.write_apply_of_lt _ (by rwa [Memory.length_read]),
      Memory.getElem_read]
  · rw [Memory.write_apply_of_le _ (by rw [Memory.length_read]; omega)]
    cases horigin : ρ.origin y with
    | none => rw [transfer_of_none horigin, transfer_of_none horigin]
    | some x =>
        have hx : ¬ offset src x < n := by
          intro hx
          have hplace := h _ hx
          rw [add_offset] at hplace
          apply hy
          rw [ρ.injective horigin hplace, Memory.offset_self_add, Nat.mod_eq_of_lt (by omega)]
          exact hx
        rw [transfer_of_some horigin, transfer_of_some horigin, covers_append, covers_singleton,
          decide_eq_false hx, Bool.or_false]

theorem read_transfer (h : ρ.Places src dst n) (hS : holds S src n) :
    (transfer ρ S m m').read dst n = m.read src n :=
  Memory.read_congr fun i hi => by rw [transfer_of_some (h i hi), if_pos (hS i hi)]

end Transfer

end SE4VM.Foundation
