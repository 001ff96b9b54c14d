import SE4VM.Foundation.Ring
import SE4VM.E1000.State

/-!
# Descriptors and descriptor rings

Both rings hold sixteen-byte descriptors.  A transmit descriptor is read either
as a legacy or data descriptor, or, over the same sixteen bytes, as an
`e1000_context_desc`.
-/

namespace SE4VM.E1000

open SE4VM.Foundation

abbrev descBytes : Nat := 16

/-! ## Receive descriptors -/

structure RxDesc where
  bufferAddr : U64
  length : U16
  csum : U16
  status : U8
  errors : U8
  special : U16
  deriving DecidableEq, Repr

namespace RxDesc

def ofBytes (bs : List U8) : RxDesc where
  bufferAddr := BitVec.ofNat 64 (ofLe (bs.take 8))
  length := BitVec.ofNat 16 (ofLe ((bs.drop 8).take 2))
  csum := BitVec.ofNat 16 (ofLe ((bs.drop 10).take 2))
  status := bs.getD 12 0
  errors := bs.getD 13 0
  special := BitVec.ofNat 16 (ofLe ((bs.drop 14).take 2))

def toBytes (d : RxDesc) : List U8 :=
  toLe 8 d.bufferAddr.toNat ++ toLe 2 d.length.toNat ++ toLe 2 d.csum.toNat ++
    [d.status, d.errors] ++ toLe 2 d.special.toNat

def fetch (mem : Memory) (base : U64) : RxDesc := ofBytes (mem.read base descBytes)

@[simp] theorem length_toBytes (d : RxDesc) : d.toBytes.length = descBytes := by
  simp [toBytes, descBytes]

private theorem ofNat_ofLe_toLe (k : Nat) (v : BitVec (8 * k)) :
    BitVec.ofNat (8 * k) (ofLe (toLe k v.toNat)) = v := by
  have hpow : (256 : Nat) ^ k = 2 ^ (8 * k) := by
    rw [Nat.pow_mul]
  rw [ofLe_toLe, hpow, Nat.mod_eq_of_lt v.isLt, BitVec.ofNat_toNat,
    BitVec.setWidth_eq]

@[simp] theorem ofBytes_toBytes (d : RxDesc) : ofBytes d.toBytes = d := by
  have h8 := ofNat_ofLe_toLe 8 d.bufferAddr
  have hl := ofNat_ofLe_toLe 2 d.length
  have hc := ofNat_ofLe_toLe 2 d.csum
  have hs := ofNat_ofLe_toLe 2 d.special
  cases d
  simp only [toBytes, ofBytes, toLe, List.cons_append, List.nil_append,
    List.take_succ_cons, List.take_zero, List.drop_succ_cons, List.drop_zero,
    List.getD_cons_succ, List.getD_cons_zero] at *
  simp only [h8, hl, hc, hs]

theorem fetch_write_self (mem : Memory) (base : U64) (d : RxDesc) :
    fetch (mem.write base d.toBytes) base = d := by
  have h := Memory.read_write_self mem base d.toBytes (by simp [descBytes])
  rw [length_toBytes] at h
  rw [fetch, h, ofBytes_toBytes]

end RxDesc

/-! ## Transmit descriptors -/

structure TxDesc where
  bufferAddr : U64
  lower : U32
  upper : U32
  deriving DecidableEq, Repr

namespace TxDesc

def ofBytes (bs : List U8) : TxDesc where
  bufferAddr := BitVec.ofNat 64 (ofLe (bs.take 8))
  lower := BitVec.ofNat 32 (ofLe ((bs.drop 8).take 4))
  upper := BitVec.ofNat 32 (ofLe ((bs.drop 12).take 4))

def fetch (mem : Memory) (base : U64) : TxDesc := ofBytes (mem.read base descBytes)

/-- Writing back the second half of the second word leaves the rest alone. -/
theorem fetch_write_upper (mem : Memory) (base : U64) (upper : U32) :
    fetch (mem.write (base + 12) (toLe 4 upper.toNat)) base =
      { fetch mem base with upper := upper } := by
  have hlow : (mem.write (base + 12) (toLe 4 upper.toNat)).read base 12 = mem.read base 12 := by
    refine Memory.read_write_of_disjoint mem fun i hi => ?_
    rw [length_toLe]
    refine (?_ : 4 ≤ Memory.offset (base + BitVec.ofNat 64 12) (base + BitVec.ofNat 64 i))
    rw [Memory.offset_add, Memory.offset_self_add]
    omega
  have hhigh : (mem.write (base + 12) (toLe 4 upper.toNat)).read (base + 12) 4 =
      toLe 4 upper.toNat := by
    have h := Memory.read_write_self mem (base + 12) (toLe 4 upper.toNat) (by simp)
    rwa [length_toLe] at h
  have hupper : BitVec.ofNat 32 (ofLe (toLe 4 upper.toNat)) = upper := by
    rw [ofLe_toLe]
    exact BitVec.eq_of_toNat_eq (by have := upper.isLt; simp; omega)
  have hlen := Memory.length_read mem base 12
  have htake : (toLe 4 upper.toNat).take 4 = toLe 4 upper.toNat :=
    List.take_of_length_le (by simp)
  rw [fetch, fetch, show descBytes = 12 + 4 from rfl, Memory.read_add, Memory.read_add, hlow]
  rw [show base + BitVec.ofNat 64 12 = base + 12 from rfl, hhigh]
  simp [ofBytes, List.take_append, List.drop_append, hlen, htake, hupper]

theorem fetch_write_upper_other (mem : Memory) {a b : U64} (upper : U32)
    (h : Memory.Disjoint a descBytes b descBytes) :
    fetch (mem.write (b + 12) (toLe 4 upper.toNat)) a = fetch mem a := by
  rw [fetch, Memory.read_write_of_disjoint, fetch]
  rw [length_toLe]
  exact Memory.Disjoint.add_right (k := 12) (l := 4) h (by decide)

def special (d : TxDesc) : U16 := d.upper.extractLsb' 16 16

-- The context view: `lower_setup` and `upper_setup` overlay `buffer_addr`,
-- `cmd_and_length` overlays `lower`, `tcp_seg_setup` overlays `upper`.

def ipcss (d : TxDesc) : U8 := d.bufferAddr.extractLsb' 0 8
def ipcso (d : TxDesc) : U8 := d.bufferAddr.extractLsb' 8 8
def ipcse (d : TxDesc) : U16 := d.bufferAddr.extractLsb' 16 16
def tucss (d : TxDesc) : U8 := d.bufferAddr.extractLsb' 32 8
def tucso (d : TxDesc) : U8 := d.bufferAddr.extractLsb' 40 8
def tucse (d : TxDesc) : U16 := d.bufferAddr.extractLsb' 48 16
def cmdAndLength (d : TxDesc) : U32 := d.lower
def hdrLen (d : TxDesc) : U8 := d.upper.extractLsb' 8 8
def mss (d : TxDesc) : U16 := d.upper.extractLsb' 16 16

end TxDesc

/-! ## Ring positions -/

/--
`if (++head * sizeof(desc) >= len) head = 0`, the step both rings take.  The
product is computed in 64 bits, so it does not wrap.
-/
def ringNext (len head : U32) : U32 :=
  let head := head + 1
  if head.toNat * descBytes ≥ len.toNat then 0 else head

/-- The number of slots the heads cycle through; an empty ring still has slot zero. -/
def slots (len : U32) : Nat := max 1 ((len.toNat + (descBytes - 1)) / descBytes)

theorem slots_pos (len : U32) : 0 < slots len := by
  simp [slots]

theorem lt_slots {len : U32} {i : Nat} :
    i < slots len ↔ i = 0 ∨ i * descBytes < len.toNat := by
  simp only [slots, descBytes]
  omega

/-- A head or tail value that the wrapping head never takes. -/
def OutsideRing (len i : U32) : Prop := i ≠ 0 ∧ len.toNat ≤ i.toNat * descBytes

instance (len i : U32) : Decidable (OutsideRing len i) :=
  inferInstanceAs (Decidable (_ ∧ _))

theorem outsideRing_iff {len i : U32} : OutsideRing len i ↔ slots len ≤ i.toNat := by
  have hzero : i = 0 ↔ i.toNat = 0 := by
    rw [← BitVec.toNat_inj]
    rfl
  rw [OutsideRing, ne_eq, hzero, ← not_lt, ← not_lt, lt_slots, not_or]

theorem toNat_ringNext (len head : U32) :
    (ringNext len head).toNat = ringSucc (slots len) head.toNat := by
  have hhead := head.isLt
  have hlen := len.isLt
  -- The only head whose successor wraps lies outside every ring.
  by_cases hmax : head.toNat + 1 = 2 ^ 32
  · have hzero : head + 1 = 0 := BitVec.eq_of_toNat_eq (by simp [hmax])
    have hout : ¬ head.toNat + 1 < slots len := by
      simp only [lt_slots, hmax, descBytes]
      omega
    rw [ringNext, ringSucc, if_neg hout, hzero, ite_self]
    rfl
  · have hsucc : (head + 1).toNat = head.toNat + 1 := by
      rw [BitVec.toNat_add, show (1 : U32).toNat = 1 from rfl, Nat.mod_eq_of_lt (by omega)]
    by_cases hin : head.toNat + 1 < slots len
    · have hlt := lt_slots.mp hin
      rw [ringNext, ringSucc, if_pos hin, if_neg (by rw [hsucc]; omega), hsucc]
    · have hge := mt lt_slots.mpr hin
      rw [ringNext, ringSucc, if_neg hin, if_pos (by rw [hsucc]; omega)]
      rfl

def ringBase (bah bal : U32) : U64 :=
  (bah.setWidth 64 <<< 32) + (bal &&& ~~~0xf#32).setWidth 64

def descAddr (base : U64) (index : U32) : U64 :=
  base + BitVec.ofNat 64 (descBytes * index.toNat)

theorem descAddr_injective (base : U64) : Function.Injective (descAddr base) := by
  intro i j h
  have hi := i.isLt
  have hj := j.isLt
  have hoff := congrArg (Memory.offset base) h
  simp only [descAddr, Memory.offset_self_add, descBytes] at hoff
  exact BitVec.eq_of_toNat_eq (by omega)

theorem descAddr_disjoint (base : U64) {i j : U32} (h : i ≠ j) :
    Memory.Disjoint (descAddr base i) descBytes (descAddr base j) descBytes := by
  intro k hk
  have hi := i.isLt
  have hj := j.isLt
  have hne : i.toNat ≠ j.toNat := fun heq => h (BitVec.eq_of_toNat_eq heq)
  have haddr : descAddr base i + BitVec.ofNat 64 k =
      base + BitVec.ofNat 64 (descBytes * i.toNat + k) := Memory.add_ofNat_add _ _ _
  rw [haddr, descAddr, Memory.offset_add, Memory.offset_self_add]
  simp only [descBytes] at *
  omega

theorem RxDesc.fetch_write_other (mem : Memory) (base : U64) {i j : U32} (h : i ≠ j)
    (d : RxDesc) :
    fetch (mem.write (descAddr base j) d.toBytes) (descAddr base i) =
      fetch mem (descAddr base i) := by
  rw [fetch, Memory.read_write_of_disjoint, fetch]
  rw [length_toBytes]
  exact descAddr_disjoint base h

end SE4VM.E1000
