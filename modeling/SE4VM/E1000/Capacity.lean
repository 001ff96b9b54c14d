import SE4VM.E1000.ReceiveOwnership

/-!
# The capacity check

`e1000_has_rxbufs` answers for a frame of one buffer by comparing the two ends of
the ring, and for a longer one by a product of a descriptor count and the buffer
size.  While both ends lie inside the ring the two answers are one: the frame has
to fit into the buffers from `RDH` up to `RDT`.
-/

namespace SE4VM.E1000

open SE4VM.Foundation

/-! ## The general path -/

/-- `bufs`, in the two cases in which the ends of the ring differ. -/
def rxBufs (s : E1000State) : U32 :=
  let rdh := s.macReg Reg.rdh
  let rdt := s.macReg Reg.rdt
  if rdh < rdt then rdt - rdh
  else BitVec.ofNat 32 ((s.macReg Reg.rdlen).toNat / descBytes) + rdt - rdh

/-- The check without the path for short packets. -/
def roomFor (s : E1000State) (totalSize : Nat) : Bool :=
  s.macReg Reg.rdh != s.macReg Reg.rdt &&
    decide (totalSize ≤ (rxBufs s * s.rxbufSize).toNat)

theorem e1000HasRxbufs_eq (s : E1000State) (totalSize : Nat) :
    e1000HasRxbufs s totalSize =
      if totalSize ≤ s.rxbufSize.toNat then s.macReg Reg.rdh != s.macReg Reg.rdt
      else roomFor s totalSize := by
  simp only [e1000HasRxbufs, roomFor, rxBufs]
  split_ifs with hshort hlt hgt
  · rfl
  · rw [bne_iff_ne.mpr (BitVec.ne_of_lt hlt), Bool.true_and]
  · rw [bne_iff_ne.mpr (BitVec.ne_of_lt hgt).symm, Bool.true_and]
  · rw [show s.macReg Reg.rdh = s.macReg Reg.rdt by bv_omega, bne_self_eq_false,
      Bool.false_and]

/-! ## Both ends inside the ring -/

section Inside

variable {w : World} (hinv : RegInv w.dev) (hbuf : w.dev.rxbufSize.toNat ≤ 16384)
  (hrdh : (w.reg Reg.rdh).toNat < rxSlots w) (hrdt : (w.reg Reg.rdt).toNat < rxSlots w)

include hrdh

theorem toNat_rxBufs (hne : w.reg Reg.rdh ≠ w.reg Reg.rdt) :
    (rxBufs w.dev).toNat = ownedSlots w := by
  have hne' : (w.reg Reg.rdh).toNat ≠ (w.reg Reg.rdt).toNat := fun h =>
    hne (BitVec.eq_of_toNat_eq h)
  have hslots := rxSlots_lt w
  have hnum : (BitVec.ofNat 32 ((w.reg Reg.rdlen).toNat / descBytes)).toNat = rxSlots w :=
    Nat.mod_eq_of_lt hslots
  have hbufs : rxBufs w.dev = if w.reg Reg.rdh < w.reg Reg.rdt then
      w.reg Reg.rdt - w.reg Reg.rdh
    else BitVec.ofNat 32 ((w.reg Reg.rdlen).toNat / descBytes) + w.reg Reg.rdt -
      w.reg Reg.rdh := rfl
  rw [hbufs, ownedSlots, ringDist]
  by_cases hlt : w.reg Reg.rdh < w.reg Reg.rdt
  · have hle : (w.reg Reg.rdh).toNat ≤ (w.reg Reg.rdt).toNat := (BitVec.lt_def.mp hlt).le
    rw [if_pos hlt, if_pos hle, BitVec.toNat_sub_of_le hle]
  · have hgt : ¬ (w.reg Reg.rdh).toNat < (w.reg Reg.rdt).toNat := mt BitVec.lt_def.mpr hlt
    rw [if_neg hlt, if_neg (by omega), BitVec.toNat_sub, BitVec.toNat_add, hnum]
    omega

include hrdt hinv hbuf

/-- The product fits into 32 bits, so the check computes what it means. -/
theorem ownedSlots_mul_lt : ownedSlots w * w.dev.rxbufSize.toNat < 2 ^ 32 := by
  have hlen : (w.reg Reg.rdlen).toNat ≤ 0xfff80 := hinv.rdlen_bounds.2
  have hd : ownedSlots w < rxSlots w := ringDist_lt hrdh hrdt
  have hle : ownedSlots w ≤ 65536 := by
    simp only [rxSlots, descBytes] at hd
    omega
  calc ownedSlots w * w.dev.rxbufSize.toNat ≤ 65536 * 16384 := Nat.mul_le_mul hle hbuf
    _ < 2 ^ 32 := by decide

theorem roomFor_iff (total : Nat) :
    roomFor w.dev total = true ↔
      w.reg Reg.rdh ≠ w.reg Reg.rdt ∧ total ≤ ownedSlots w * w.dev.rxbufSize.toNat := by
  rw [roomFor, Bool.and_eq_true, bne_iff_ne, decide_eq_true_iff]
  refine and_congr_right fun hne => ?_
  rw [BitVec.toNat_mul, toNat_rxBufs hrdh hne,
    Nat.mod_eq_of_lt (ownedSlots_mul_lt hinv hbuf hrdh hrdt)]

/-- A frame that fits into one buffer asks for one slot, on either path. -/
theorem hasRxbufs_eq_roomFor {total : Nat} :
    e1000HasRxbufs w.dev total = roomFor w.dev total := by
  rw [e1000HasRxbufs_eq]
  split_ifs with hshort
  · rw [Bool.eq_iff_iff, roomFor_iff hinv hbuf hrdh hrdt, bne_iff_ne]
    refine (and_iff_left_of_imp fun hne => ?_).symm
    have hpos : 0 < ownedSlots w := by
      have hne' : (w.reg Reg.rdh).toNat ≠ (w.reg Reg.rdt).toNat := fun h =>
        hne (BitVec.eq_of_toNat_eq h)
      rw [ownedSlots, ringDist]
      split_ifs <;> omega
    exact hshort.trans (Nat.le_mul_of_pos_left _ hpos)
  · rfl

theorem hasRxbufs_iff {total : Nat} (hpos : 0 < total) :
    e1000HasRxbufs w.dev total = true ↔
      total ≤ ownedSlots w * w.dev.rxbufSize.toNat := by
  rw [hasRxbufs_eq_roomFor hinv hbuf hrdh hrdt, roomFor_iff hinv hbuf hrdh hrdt]
  refine and_iff_right_of_imp fun hle heq => ?_
  rw [ownedSlots, heq, ringDist_self, Nat.zero_mul] at hle
  omega

end Inside

/-! ## The check as one formula -/

/--
Between the ends of the ring lie `d` slots.  The check asks whether the frame fits
into their buffers, the product it compares with does not wrap, and a smaller
frame is never refused where a larger one is taken.
-/
theorem hasRxbufs_capacity {w : World} (h : Reachable w)
    (hrdh : (w.reg Reg.rdh).toNat < rxSlots w) (hrdt : (w.reg Reg.rdt).toNat < rxSlots w) :
    let d := (((w.reg Reg.rdt).toNat : Int) - (w.reg Reg.rdh).toNat) % rxSlots w
    (∀ total, 1 ≤ total → (e1000HasRxbufs w.dev total = true ↔
      w.reg Reg.rdh ≠ w.reg Reg.rdt ∧ (total : Int) ≤ d * w.dev.rxbufSize.toNat)) ∧
    (∀ total, 1 ≤ total → e1000HasRxbufs w.dev total = roomFor w.dev total) ∧
    (w.reg Reg.rdh ≠ w.reg Reg.rdt →
      (rxBufs w.dev).toInt = d ∧ d * w.dev.rxbufSize.toNat < 2 ^ 32) ∧
    (∀ total total', total ≤ total' → e1000HasRxbufs w.dev total' = true →
      e1000HasRxbufs w.dev total = true) := by
  intro d
  have hinv := h.regInv
  have hbuf := h.rxbufSize_le
  have hd : d = ownedSlots w := (ringDist_eq_emod hrdh hrdt).symm
  have hlt := ownedSlots_mul_lt hinv hbuf hrdh hrdt
  have hslots : ownedSlots w < 65536 := by
    have hown : ownedSlots w < rxSlots w := ringDist_lt hrdh hrdt
    have hlen : (w.reg Reg.rdlen).toNat ≤ 0xfff80 := hinv.rdlen_bounds.2
    simp only [rxSlots, descBytes] at hown
    omega
  have hpath : ∀ total, e1000HasRxbufs w.dev total = roomFor w.dev total := fun total =>
    hasRxbufs_eq_roomFor hinv hbuf hrdh hrdt
  have hroom := roomFor_iff hinv hbuf hrdh hrdt
  refine ⟨fun total _ => ?_, fun total _ => hpath total, fun hne => ⟨?_, ?_⟩, ?_⟩
  · rw [hpath, hroom, hd]
    norm_cast
  · rw [hd, BitVec.toInt_eq_toNat_of_lt, toNat_rxBufs hrdh hne]
    rw [toNat_rxBufs hrdh hne]
    omega
  · rw [hd]
    exact_mod_cast hlt
  · intro total total' hle hbig
    rw [hpath, hroom] at hbig ⊢
    exact ⟨hbig.1, hle.trans hbig.2⟩

/-- A ring of eight slots with the head behind the tail: seven of them are free. -/
theorem hasRxbufs_capacity_wrapped :
    let w := rxReady 0x30002 128 3 2 Memory.blank
    e1000HasRxbufs w.dev 1792 = roomFor w.dev 1792 ∧
      (e1000HasRxbufs w.dev 1793 = true ↔
        w.reg Reg.rdh ≠ w.reg Reg.rdt ∧ ((1793 : Nat) : Int) ≤
          ((((w.reg Reg.rdt).toNat : Int) - (w.reg Reg.rdh).toNat) % rxSlots w) *
            w.dev.rxbufSize.toNat) := by
  have h := hasRxbufs_capacity (reachable_rxReady 0x30002 128 3 2 Memory.blank)
    (by decide) (by decide)
  exact ⟨h.2.1 1792 (by decide), h.1 1793 (by decide)⟩

example : e1000HasRxbufs (rxReady 0x30002 128 3 2 Memory.blank).dev 1792 = true := by decide

example : e1000HasRxbufs (rxReady 0x30002 128 3 2 Memory.blank).dev 1793 = false := by decide

end SE4VM.E1000
