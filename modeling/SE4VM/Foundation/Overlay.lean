import Mathlib.Data.Set.Basic
import SE4VM.Foundation.Memory

/-!
# Copying a block piece by piece

`copy` is a block transfer inside one memory.  When the pieces of a block are
copied from the same offsets of another block, the result depends only on the
set of offsets that some piece covers: it is the `overlay` of the source block
on the destination block.
-/

namespace SE4VM.Foundation.Memory

def copy (m : Memory) (dst src : U64) (n : Nat) : Memory :=
  fun x => if offset dst x < n then m (src + (x - dst)) else m x

theorem copy_apply_of_lt (m : Memory) {dst src x : U64} {n : Nat} (h : offset dst x < n) :
    m.copy dst src n x = m (src + (x - dst)) :=
  if_pos h

theorem copy_apply_of_le (m : Memory) {dst src x : U64} {n : Nat} (h : n ≤ offset dst x) :
    m.copy dst src n x = m x :=
  if_neg (Nat.not_lt.mpr h)

/-! ## Sets of offsets -/

def inside (n : Nat) : Set U64 := {v | v.toNat < n}

def span (a : U64) (n : Nat) : Set U64 := {v | offset a v < n}

theorem mem_span_iff {a v : U64} {n : Nat} (h : a.toNat + n ≤ 2 ^ 64) :
    v ∈ span a n ↔ a.toNat ≤ v.toNat ∧ v.toNat < a.toNat + n := by
  have hv := v.isLt
  have ha := a.isLt
  simp only [span, Set.mem_ofPred_eq, offset, BitVec.toNat_sub]
  omega

theorem span_subset_inside {a : U64} {n k : Nat} (h : a.toNat + n ≤ k) (hk : k ≤ 2 ^ 64) :
    span a n ⊆ inside k := by
  intro v hv
  have := (mem_span_iff (by omega)).mp hv
  show v.toNat < k
  omega

/-! ## Overlays -/

open Classical in
/-- `m`, with the offsets in `V` of the block at `dst` taken from the block at `src`. -/
noncomputable def overlay (m : Memory) (dst src : U64) (V : Set U64) : Memory :=
  fun x => if x - dst ∈ V then m (src + (x - dst)) else m x

section Overlay

variable {m : Memory} {dst src : U64} {V : Set U64}

theorem overlay_of_mem {x : U64} (h : x - dst ∈ V) :
    overlay m dst src V x = m (src + (x - dst)) :=
  if_pos h

theorem overlay_of_notMem {x : U64} (h : x - dst ∉ V) : overlay m dst src V x = m x :=
  if_neg h

@[simp] theorem overlay_empty : overlay m dst src ∅ = m := by
  funext x
  exact overlay_of_notMem (Set.notMem_empty _)

/-- One more piece, copied while the source is still as it was. -/
theorem copy_overlay {a : U64} {n : Nat} (h : ∀ v ∈ span a n, src + v - dst ∉ V) :
    (overlay m dst src V).copy (dst + a) (src + a) n =
      overlay m dst src (V ∪ span a n) := by
  funext x
  have hoff : offset (dst + a) x = offset a (x - dst) := by
    rw [offset, offset, sub_add_eq]
  by_cases hx : offset a (x - dst) < n
  · have hsrc : src + a + (x - (dst + a)) = src + (x - dst) := by
      rw [sub_add_eq, BitVec.add_assoc, BitVec.add_comm a, BitVec.sub_add_cancel]
    rw [copy_apply_of_lt _ (by rwa [hoff]), hsrc, overlay_of_notMem (h _ hx),
      overlay_of_mem (.inr hx)]
  · rw [copy_apply_of_le _ (by rw [hoff]; omega)]
    by_cases hV : x - dst ∈ V
    · rw [overlay_of_mem hV, overlay_of_mem (.inl hV)]
    · rw [overlay_of_notMem hV, overlay_of_notMem (by rintro (h | h) <;> contradiction)]

theorem notMem_of_disjoint {n : Nat} (hdisj : Disjoint src n dst n) (hV : V ⊆ inside n)
    {v : U64} (hv : v.toNat < n) : src + v - dst ∉ V := by
  intro hmem
  have hlt : (src + v - dst).toNat < n := hV hmem
  have hge := hdisj v.toNat hv
  rw [BitVec.ofNat_toNat, BitVec.setWidth_eq, offset] at hge
  omega

theorem copy_overlay_of_disjoint {a : U64} {n k : Nat} (hdisj : Disjoint src k dst k)
    (hV : V ⊆ inside k) (ha : a.toNat + n ≤ k) (hk : k ≤ 2 ^ 64) :
    (overlay m dst src V).copy (dst + a) (src + a) n =
      overlay m dst src (V ∪ span a n) :=
  copy_overlay fun _ hv => notMem_of_disjoint hdisj hV (span_subset_inside ha hk hv)

theorem read_overlay {a : U64} {n k : Nat} (hdisj : Disjoint src k dst k)
    (hV : V ⊆ inside k) (ha : a.toNat + n ≤ k) (hk : k ≤ 2 ^ 64) :
    (overlay m dst src V).read (src + a) n = m.read (src + a) n := by
  refine read_congr fun i hi => overlay_of_notMem ?_
  have hlt : (a + BitVec.ofNat 64 i).toNat < k := by
    rw [BitVec.toNat_add, BitVec.toNat_ofNat]
    omega
  rw [BitVec.add_assoc]
  exact notMem_of_disjoint hdisj hV hlt

end Overlay

end SE4VM.Foundation.Memory
