import SE4VM.E1000.Reach

/-!
# The receive filter

What the filter lets in, as one condition on the frame: its VLAN is not filtered
out, and its destination is matched exactly, by the multicast hash, or because one
of the promiscuous modes is on.  The two tables are read as bit sets.
-/

namespace SE4VM.E1000

open SE4VM.Foundation

/-! ## The condition -/

/-- Bit `i` of the table of words that starts at `base`. -/
def tableBit (s : E1000State) (base i : Nat) : Bool :=
  (s.macReg (base + i / 32)).getLsbD (i % 32)

/-- The frame starts with this 48-bit address, least significant byte first. -/
def AddressedTo (address : Nat) (buf : List U8) : Prop :=
  ∀ k < 6, buf[k]? = some (BitVec.ofNat 8 (address / 256 ^ k))

def receiveAddress (s : E1000State) (i : Nat) : Nat :=
  (s.macReg (Reg.ra + 2 * i)).toNat + 2 ^ 32 * (s.macReg (Reg.ra + 2 * i + 1)).toNat

def hashShift (rctl : U32) : Nat :=
  match rctl.toNat / 2 ^ 12 % 4 with
  | 0 => 4
  | 1 => 3
  | 2 => 2
  | _ => 0

def destinationHash (rctl : U32) (buf : List U8) : Nat :=
  ((buf.getD 5 0).toNat * 256 + (buf.getD 4 0).toNat) / 2 ^ hashShift rctl % 4096

/-- The VLAN filter does not apply to the frame, or lets its VLAN id in. -/
def VlanAdmitted (s : E1000State) (buf : List U8) : Prop :=
  be16 buf 12 ≠ (s.macReg Reg.vet).setWidth 16 ∨
    test (s.macReg Reg.rctl) rctlVfe = false ∨
    tableBit s Reg.vfta ((be16 buf 14).toNat % 4096) = true

def DestinationAdmitted (s : E1000State) (buf : List U8) : Prop :=
  test (s.macReg Reg.rctl) rctlUpe = true ∨
  ((buf.getD 0 0).toNat % 2 = 1 ∧ test (s.macReg Reg.rctl) rctlMpe = true) ∨
  (AddressedTo 0xffffffffffff buf ∧ test (s.macReg Reg.rctl) rctlBam = true) ∨
  (∃ i < 16, test (s.macReg (Reg.ra + 2 * i + 1)) rahAv = true ∧
    AddressedTo (receiveAddress s i) buf) ∨
  tableBit s Reg.mta (destinationHash (s.macReg Reg.rctl) buf) = true

/-! ## Bits -/

theorem test_tableBit (s : E1000State) (base : Nat) {word bit i : Nat} (hword : word = i / 32)
    (hbit : bit = i % 32) :
    test (s.macReg (base + word)) (1#32 <<< bit) = tableBit s base i := by
  subst hword hbit
  exact test_twoPow _ ⟨i % 32, Nat.mod_lt i (by decide)⟩

theorem test_one (b : U8) : test b 1#8 = true ↔ b.toNat % 2 = 1 := by
  rw [show (1#8 : U8) = BitVec.twoPow 8 (0 : Fin 8) from rfl, test_twoPow]
  rw [show b.getLsbD (0 : Fin 8) = b.toNat.testBit 0 from rfl, Nat.testBit_zero, decide_eq_true_iff]

theorem vlanFiltered_eq_false (s : E1000State) (buf : List U8) :
    vlanFiltered s buf = false ↔ VlanAdmitted s buf := by
  have hword : ((be16 buf 14).toNat >>> 5) &&& 0x7f = (be16 buf 14).toNat % 4096 / 32 := by
    rw [Nat.shiftRight_eq_div_pow, Nat.and_two_pow_sub_one_eq_mod _ 7]
    omega
  have hindex : (be16 buf 14).toNat &&& 0x1f = (be16 buf 14).toNat % 4096 % 32 := by
    rw [Nat.and_two_pow_sub_one_eq_mod _ 5]
    omega
  have hbit := test_tableBit s Reg.vfta hword hindex
  simp only [vlanFiltered, isVlanPacket, vlanRxFilterEnabled, VlanAdmitted, hbit,
    Bool.and_eq_false_iff, beq_eq_false_iff_ne, Bool.not_eq_false', or_assoc, ne_eq]

theorem mtaShift_eq (rctl : U32) : mtaShift rctl = hashShift rctl := by
  have hindex : ((rctl >>> rctlMoShift) &&& 3#32).toNat = rctl.toNat / 2 ^ 12 % 4 := by
    rw [BitVec.toNat_and, BitVec.toNat_ushiftRight, Nat.shiftRight_eq_div_pow]
    exact Nat.and_two_pow_sub_one_eq_mod _ 2
  have hlt := Nat.mod_lt (rctl.toNat / 2 ^ 12) (by decide : 0 < 4)
  rw [mtaShift, hindex, hashShift]
  exact (by decide : ∀ m < 4, [4, 3, 2, 0].getD m 0 =
    match m with | 0 => 4 | 1 => 3 | 2 => 2 | _ => 0) _ hlt

theorem multicastHash_eq (rctl : U32) (buf : List U8) :
    (((buf.getD 5 0).toNat <<< 8 ||| (buf.getD 4 0).toNat) >>> mtaShift rctl) &&& 0xfff =
      destinationHash rctl buf := by
  rw [destinationHash, ← mtaShift_eq, ← Nat.shiftLeft_add_eq_or_of_lt (buf.getD 4 0).isLt,
    Nat.shiftRight_eq_div_pow, Nat.shiftLeft_eq, Nat.and_two_pow_sub_one_eq_mod _ 12]

/-! ## Addresses -/

theorem take_eq_iff {n : Nat} {buf bs : List U8} (h : bs.length = n) :
    buf.take n = bs ↔ ∀ k < n, buf[k]? = bs[k]? := by
  constructor
  · rintro rfl k hk
    rw [List.getElem?_take_of_lt hk]
  · intro hall
    apply List.ext_getElem?
    intro k
    by_cases hk : k < n
    · rw [List.getElem?_take_of_lt hk, hall k hk]
    · rw [List.getElem?_take_eq_none (by omega), List.getElem?_eq_none (by omega)]

theorem take_toLe_iff {address : Nat} {buf : List U8} :
    buf.take 6 = toLe 6 address ↔ AddressedTo address buf := by
  rw [take_eq_iff (length_toLe 6 address), AddressedTo]
  exact forall₂_congr fun k hk => by rw [getElem?_toLe hk]

theorem raBytes_eq (ral rah : U32) :
    raBytes ral rah = toLe 6 (ral.toNat + 2 ^ 32 * rah.toNat) :=
  (toLe_add 4 2 rah.toNat ral.isLt).symm

theorem raMatch_iff (s : E1000State) (buf : List U8) :
    raMatch s buf = true ↔ ∃ i < 16, test (s.macReg (Reg.ra + 2 * i + 1)) rahAv = true ∧
      AddressedTo (receiveAddress s i) buf := by
  simp only [raMatch, List.any_eq_true, List.mem_range, Bool.and_eq_true, beq_iff_eq, raBytes_eq,
    take_toLe_iff, receiveAddress]

theorem broadcast_iff {buf : List U8} :
    buf.take 6 = List.replicate 6 0xff#8 ↔ AddressedTo 0xffffffffffff buf := by
  rw [← take_toLe_iff]
  exact Iff.rfl

theorem receiveFilter_eq_true (s : E1000State) (buf : List U8) :
    receiveFilter s buf = true ↔ VlanAdmitted s buf ∧ DestinationAdmitted s buf := by
  have hhash := test_tableBit s Reg.mta
    (Nat.shiftRight_eq_div_pow (destinationHash (s.macReg Reg.rctl) buf) 5)
    (Nat.and_two_pow_sub_one_eq_mod _ 5)
  rw [← vlanFiltered_eq_false, DestinationAdmitted, ← test_one, ← broadcast_iff, ← raMatch_iff,
    ← hhash, receiveFilter, multicastHash_eq]
  simp only [Bool.if_false_left, Bool.if_true_left, Bool.and_eq_true, Bool.or_eq_true,
    Bool.not_eq_true', decide_eq_true_eq, decide_eq_false_iff_not, Bool.not_eq_true,
    beq_iff_eq, and_comm]

/-! ## After a reset -/

/-- The two registers spell the address; the valid bit is above the part that is compared. -/
theorem raBytes_macaddrRegs (macaddr : Buffer) :
    raBytes (macaddrRegs macaddr).1 (macaddrRegs macaddr).2 = macaddr.slice 0 6 := by
  have hlow : toLe 4 (macaddrRegs macaddr).1.toNat = macaddr.slice 0 4 := by
    rw [macaddrRegs, BitVec.toNat_ofNat]
    exact (toLe_mod 4 _).trans (toLe_ofLe (macaddr.slice 0 4))
  have hhigh : toLe 2 (macaddrRegs macaddr).2.toNat = macaddr.slice 4 2 := by
    have hmod : (macaddrRegs macaddr).2.toNat % 256 ^ 2 =
        ofLe (macaddr.slice 4 2) % 256 ^ 2 := by
      have hvalid : rahAv.toNat % 2 ^ 16 = 0 := by decide
      rw [macaddrRegs, BitVec.toNat_or, BitVec.toNat_ofNat, show 256 ^ 2 = 2 ^ 16 from rfl,
        Nat.or_mod_two_pow, hvalid, Nat.zero_or, Nat.mod_mod_of_dvd _ (by decide)]
    rw [← toLe_mod, hmod, toLe_mod]
    exact toLe_ofLe (macaddr.slice 4 2)
  rw [raBytes, hlow, hhigh, ← Buffer.slice_append]

section Reset

variable (w : World)

theorem e1000Reset_ra : (e1000Reset w).dev.macReg Reg.ra = (macaddrRegs w.dev.macaddr).1 ∧
    (e1000Reset w).dev.macReg (Reg.ra + 1) = (macaddrRegs w.dev.macaddr).2 := by
  simp only [e1000Reset]
  split_ifs <;> exact ⟨rfl, rfl⟩

theorem e1000Reset_raMatch (buf : List U8) :
    raMatch (e1000Reset w).dev buf = true ↔ buf.take 6 = w.dev.macaddr.slice 0 6 := by
  obtain ⟨hral, hrah⟩ := e1000Reset_ra w
  simp only [raMatch, List.any_eq_true, List.mem_range, Bool.and_eq_true, beq_iff_eq]
  constructor
  · rintro ⟨i, hi, hvalid, haddr⟩
    by_cases hzero : i = 0
    · subst hzero
      rwa [Nat.mul_zero, Nat.add_zero, hral, hrah, raBytes_macaddrRegs] at haddr
    · have hreg := (by decide : ∀ i < 16, i ≠ 0 → Reg.ra + 2 * i + 1 ≠ Reg.ra ∧
        Reg.ra + 2 * i + 1 ≠ Reg.ra + 1 ∧ Reg.ra + 2 * i + 1 ≠ Reg.status ∧
        test (macRegInit (Reg.ra + 2 * i + 1)) rahAv = false) i hi hzero
      rw [e1000Reset_macReg w hreg.1 hreg.2.1 hreg.2.2.1, hreg.2.2.2] at hvalid
      cases hvalid
  · intro haddr
    refine ⟨0, by decide, ?_, ?_⟩
    · rw [Nat.mul_zero, Nat.add_zero, hrah, macaddrRegs, BitVec.or_comm]
      exact test_or_self _ (by decide)
    · rw [Nat.mul_zero, Nat.add_zero, hral, hrah, raBytes_macaddrRegs, haddr]

theorem e1000Reset_mta (i : Nat) (hi : i < 4096) :
    tableBit (e1000Reset w).dev Reg.mta i = false := by
  have hreg := (by decide : ∀ k < 128, Reg.mta + k ≠ Reg.ra ∧ Reg.mta + k ≠ Reg.ra + 1 ∧
    Reg.mta + k ≠ Reg.status ∧ macRegInit (Reg.mta + k) = 0) (i / 32) (by omega)
  rw [tableBit, e1000Reset_macReg w hreg.1 hreg.2.1 hreg.2.2.1, hreg.2.2.2]
  exact BitVec.getLsbD_zero

/--
After a reset only the configured address is let in: no other entry of the table
is valid, the hash table is empty and every promiscuous mode is off.
-/
theorem e1000Reset_receiveFilter (buf : List U8) :
    receiveFilter (e1000Reset w).dev buf = true ↔ buf.take 6 = w.dev.macaddr.slice 0 6 := by
  have hrctl : (e1000Reset w).dev.macReg Reg.rctl = 0 :=
    e1000Reset_macReg w (by decide) (by decide) (by decide)
  have htest : ∀ mask : U32, test (0 : U32) mask = false := fun mask => by simp [test]
  have hvlan : VlanAdmitted (e1000Reset w).dev buf := .inr (.inl (by rw [hrctl, htest]))
  have hhash := e1000Reset_mta w (destinationHash 0 buf) (Nat.mod_lt _ (by decide))
  rw [receiveFilter_eq_true, DestinationAdmitted, ← raMatch_iff, e1000Reset_raMatch, hrctl,
    hhash]
  simp only [htest, hvlan, true_and, Bool.false_eq_true, and_false, false_or, or_false]

end Reset

/-- The filter accepts what its specification admits, after a reset the configured address. -/
theorem receiveFilter_spec (s : E1000State) (buf : List U8) :
    (receiveFilter s buf = true ↔ VlanAdmitted s buf ∧ DestinationAdmitted s buf) ∧
    ∀ w : World, receiveFilter (e1000Reset w).dev buf = true ↔
      buf.take 6 = w.dev.macaddr.slice 0 6 :=
  ⟨receiveFilter_eq_true s buf, fun w => e1000Reset_receiveFilter w buf⟩

end SE4VM.E1000
