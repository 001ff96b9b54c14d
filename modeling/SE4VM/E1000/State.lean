import SE4VM.Foundation.Run
import SE4VM.E1000.Registers

/-!
# Device state, guest memory and the device's outputs

`E1000State` lists the fields of the C structure that the device code reads.
Arrays are total functions of the index.  A `World` couples the device with the
guest memory it reaches by DMA and with a log, newest entry first, of
everything it does to its surroundings: DMA transfers, frames handed to
`qemu_send_packet`, the interrupt pin, timers and receive-queue flushes.
-/

namespace SE4VM.E1000

open SE4VM.Foundation

/-! ## Byte arrays inside the device -/

abbrev Buffer := Nat → U8

namespace Buffer

def slice (b : Buffer) (start n : Nat) : List U8 :=
  (List.range n).map fun i => b (start + i)

def store (b : Buffer) (start : Nat) (bs : List U8) : Buffer :=
  fun i => if start ≤ i then bs.getD (i - start) (b i) else b i

@[simp] theorem length_slice (b : Buffer) (start n : Nat) :
    (b.slice start n).length = n := by
  simp [slice]

theorem getElem_slice (b : Buffer) (start n : Nat) {i : Nat}
    (h : i < (b.slice start n).length) : (b.slice start n)[i] = b (start + i) := by
  simp [slice]

theorem slice_append (b : Buffer) (start n k : Nat) :
    b.slice start (n + k) = b.slice start n ++ b.slice (start + n) k := by
  simp [slice, List.range_add, Nat.add_assoc]

theorem take_slice (b : Buffer) (start : Nat) {n k : Nat} (h : k ≤ n) :
    (b.slice start n).take k = b.slice start k := by
  obtain ⟨d, rfl⟩ := Nat.exists_eq_add_of_le h
  rw [slice_append, List.take_left' (length_slice _ _ _)]

theorem drop_slice (b : Buffer) (start : Nat) {n k : Nat} (h : k ≤ n) :
    (b.slice start n).drop k = b.slice (start + k) (n - k) := by
  obtain ⟨d, rfl⟩ := Nat.exists_eq_add_of_le h
  rw [slice_append, List.drop_left' (length_slice _ _ _), Nat.add_sub_cancel_left]

theorem slice_store_self (b : Buffer) {start n : Nat} (bs : List U8) (h : bs.length = n) :
    (b.store start bs).slice start n = bs := by
  subst h
  apply List.ext_getElem (by simp)
  intro i hi hi'
  simp [slice, store, List.getElem?_eq_getElem hi']

/-- Bytes stored before or behind a slice do not show in it. -/
theorem slice_store_of_disjoint (b : Buffer) {start n i : Nat} {bs : List U8}
    (h : start + n ≤ i ∨ i + bs.length ≤ start) :
    (b.store i bs).slice start n = b.slice start n := by
  refine List.map_congr_left fun j hj => ?_
  have hj' := List.mem_range.mp hj
  unfold store
  split_ifs with hle
  · rw [List.getD_eq_getElem?_getD, List.getElem?_eq_none (by omega), Option.getD_none]
  · rfl

theorem slice_store_append (b : Buffer) (start n : Nat) (bs : List U8) :
    (b.store (start + n) bs).slice start (n + bs.length) = b.slice start n ++ bs := by
  rw [slice_append, slice_store_of_disjoint _ (.inl le_rfl), slice_store_self _ _ rfl]

end Buffer

/-! ## The device -/

structure E1000Tx where
  header : Buffer
  vlanHeader : Buffer
  vlan : Buffer
  data : Buffer
  size : U16
  sumNeeded : U8
  vlanNeeded : Bool
  ipcss : U8
  ipcso : U8
  ipcse : U16
  tucss : U8
  tucso : U8
  tucse : U16
  hdrLen : U8
  mss : U16
  paylen : U32
  tsoFrames : U16
  tse : Bool
  ip : Bool
  tcp : Bool
  /-- Segmentation bit of the packet being assembled. -/
  cptse : Bool

structure EecdState where
  valIn : U32
  bitnumIn : U16
  bitnumOut : U16
  reading : Bool
  oldEecd : U32
  deriving DecidableEq, Repr

structure E1000State where
  macaddr : Buffer
  /-- `link_down` of the network client behind the device. -/
  linkDown : Bool
  macReg : Nat → U32
  phyReg : Nat → U16
  eepromData : Nat → U16
  rxbufSize : U32
  rxbufMinShift : U32
  tx : E1000Tx
  eecdState : EecdState
  /-- Whether the auto-negotiation timer is pending. -/
  autonegTimer : Bool
  mitTimerOn : Bool
  mitIrqLevel : Bool
  mitIde : U32
  compatFlags : U32

/-! ## Outputs -/

/-- The host buffer on the device side of a DMA transfer. -/
inductive HostBuf where
  | txDesc
  | txData
  | rxDesc
  | rxData
  deriving DecidableEq, Repr

inductive Event where
  | dmaRead (buf : HostBuf) (addr : U64) (len : Nat)
  | dmaWrite (buf : HostBuf) (addr : U64) (data : List U8)
  | sendPacket (frame : List U8)
  /-- The client's link is down, and `qemu_send_packet` returns at once. -/
  | dropPacket (frame : List U8)
  | setIrq (level : Bool)
  | armMitTimer (delay : U32)
  | armAutonegTimer
  | flushQueuedPackets
  | formatNicInfoStr (macaddr : List U8)
  deriving DecidableEq, Repr

structure World where
  dev : E1000State
  mem : Memory
  log : List Event

namespace World

def reg (w : World) (i : Nat) : U32 := w.dev.macReg i

def setReg (w : World) (i : Nat) (v : U32) : World :=
  { w with dev := { w.dev with macReg := Function.update w.dev.macReg i v } }

def emit (w : World) (e : Event) : World := { w with log := e :: w.log }

def setTx (w : World) (tx : E1000Tx) : World :=
  { w with dev := { w.dev with tx := tx } }

def dmaRead (w : World) (buf : HostBuf) (addr : U64) (n : Nat) :
    List U8 × World :=
  (w.mem.read addr n, w.emit (.dmaRead buf addr n))

def dmaWrite (w : World) (buf : HostBuf) (addr : U64) (bs : List U8) : World :=
  { w with mem := w.mem.write addr bs, log := .dmaWrite buf addr bs :: w.log }

section Fields

variable (w : World) (i j : Nat) (v : U32) (e : Event) (tx : E1000Tx)
  (buf : HostBuf) (addr : U64) (n : Nat) (bs : List U8)

@[simp] theorem reg_setReg_self : (w.setReg i v).reg i = v := by
  simp [reg, setReg]

theorem reg_setReg_of_ne (h : j ≠ i) : (w.setReg i v).reg j = w.reg j := by
  simp [reg, setReg, h]

@[simp] theorem dev_setReg : (w.setReg i v).dev =
    { w.dev with macReg := Function.update w.dev.macReg i v } := rfl

@[simp] theorem mem_setReg : (w.setReg i v).mem = w.mem := rfl

@[simp] theorem log_setReg : (w.setReg i v).log = w.log := rfl

@[simp] theorem dev_emit : (w.emit e).dev = w.dev := rfl

@[simp] theorem mem_emit : (w.emit e).mem = w.mem := rfl

@[simp] theorem log_emit : (w.emit e).log = e :: w.log := rfl

@[simp] theorem reg_emit : (w.emit e).reg i = w.reg i := rfl

@[simp] theorem dev_setTx : (w.setTx tx).dev = { w.dev with tx := tx } := rfl

@[simp] theorem mem_setTx : (w.setTx tx).mem = w.mem := rfl

@[simp] theorem log_setTx : (w.setTx tx).log = w.log := rfl

@[simp] theorem reg_setTx : (w.setTx tx).reg i = w.reg i := rfl

@[simp] theorem fst_dmaRead :
    (w.dmaRead buf addr n).1 = w.mem.read addr n := rfl

@[simp] theorem snd_dmaRead :
    (w.dmaRead buf addr n).2 = w.emit (.dmaRead buf addr n) := rfl

@[simp] theorem dev_dmaWrite : (w.dmaWrite buf addr bs).dev = w.dev := rfl

@[simp] theorem mem_dmaWrite :
    (w.dmaWrite buf addr bs).mem = w.mem.write addr bs := rfl

@[simp] theorem log_dmaWrite :
    (w.dmaWrite buf addr bs).log = .dmaWrite buf addr bs :: w.log := rfl

@[simp] theorem reg_dmaWrite : (w.dmaWrite buf addr bs).reg i = w.reg i := rfl

end Fields

end World

end SE4VM.E1000
