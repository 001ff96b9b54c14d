import SE4VM.Foundation.Overlay

/-!
# State descriptions and their walkers

A `VMStateDescription` lists the fields of a C structure, nested structures and
arrays included.  `vmstateSaveState` walks it to put a device on a migration
stream, `deviceLoadState` walks it to bring the described bytes of a device back
from a copy.  Both run in one flat host memory, where a device, its snapshot and
the swap space are three blocks.
-/

namespace SE4VM.Disc

open SE4VM.Foundation

/-! ## Descriptions -/

def vmsPointer : U32 := 0x002
def vmsArray : U32 := 0x004
def vmsVarrayInt32 : U32 := 0x010
def vmsArrayOfPointer : U32 := 0x040
def vmsVarrayUint16 : U32 := 0x080
def vmsVbuffer : U32 := 0x100
def vmsMultiply : U32 := 0x200
def vmsVarrayUint8 : U32 := 0x400
def vmsVarrayUint32 : U32 := 0x800

abbrev FieldTest := Memory → U64 → Int → Bool

structure FieldLayout where
  offset : U64
  size : U64
  flags : U32 := 0
  start : U64 := 0
  num : U32 := 0
  numOffset : U64 := 0
  sizeOffset : U64 := 0
  fieldExists : Option FieldTest := none

structure VMStateHeader where
  name : String
  versionId : Int
  preSave : Option (Memory → U64 → Memory) := none

mutual

inductive VMStateDescription where
  | mk (header : VMStateHeader) (fields : List VMStateField)
      (subsections : List VMStateSubsection)

/-- `vmsd` is there exactly when `VMS_STRUCT` is set. -/
inductive VMStateField where
  | mk (layout : FieldLayout) (vmsd : Option VMStateDescription)

inductive VMStateSubsection where
  | mk (vmsd : VMStateDescription) (needed : Memory → U64 → Bool)

end

namespace VMStateDescription

def header : VMStateDescription → VMStateHeader
  | mk h _ _ => h

def fields : VMStateDescription → List VMStateField
  | mk _ fs _ => fs

def subsections : VMStateDescription → List VMStateSubsection
  | mk _ _ subs => subs

end VMStateDescription

namespace VMStateField

def layout : VMStateField → FieldLayout
  | mk l _ => l

def vmsd : VMStateField → Option VMStateDescription
  | mk _ d => d

end VMStateField

theorem VMStateDescription.induction {P : VMStateDescription → Prop}
    (h : ∀ d : VMStateDescription,
      (∀ f ∈ d.fields, ∀ sub, f.vmsd = some sub → P sub) → P d)
    (d : VMStateDescription) : P d := by
  refine @VMStateDescription.rec P (fun f => ∀ sub, f.vmsd = some sub → P sub)
    (fun _ => True) (fun fs => ∀ f ∈ fs, ∀ sub, f.vmsd = some sub → P sub) (fun _ => True)
    (fun o => ∀ sub, o = some sub → P sub) ?_ ?_ ?_ ?_ ?_ ?_ ?_ ?_ ?_ d
  · exact fun header fields subsections hfields _ => h _ hfields
  · exact fun layout vmsd hsub => hsub
  · exact fun vmsd needed _ => trivial
  · exact fun f hf => absurd hf (List.not_mem_nil)
  · intro f fs hf hfs g hg
    rcases List.mem_cons.mp hg with rfl | hg
    · exact hf
    · exact hfs g hg
  · trivial
  · exact fun _ _ _ _ => trivial
  · exact fun sub hsub => nomatch hsub
  · intro d hd sub hsub
    cases hsub
    exact hd

/-! ## Reading a field's layout -/

def readInt32 (m : Memory) (a : U64) : Int := (BitVec.ofNat 32 (m.readWord a 4)).toInt

def readPointer (m : Memory) (a : U64) : U64 := BitVec.ofNat 64 (m.readWord a 8)

def toSizeT (n : Int) : U64 := BitVec.ofInt 64 n

namespace FieldLayout

def has (l : FieldLayout) (flag : U32) : Bool := l.flags &&& flag ≠ 0

/-- `!field->field_exists || field->field_exists(opaque, version_id)` -/
def present (l : FieldLayout) (m : Memory) (base : U64) (versionId : Int) : Bool :=
  match l.fieldExists with
  | none => true
  | some test => test m base versionId

def elemSize (l : FieldLayout) (m : Memory) (base : U64) : Int :=
  if l.has vmsVbuffer then
    let size := readInt32 m (base + l.sizeOffset)
    if l.has vmsMultiply then ((toSizeT size * l.size).setWidth 32).toInt else size
  else (l.size.setWidth 32).toInt

def nElems (l : FieldLayout) (m : Memory) (base : U64) : Int :=
  if l.has vmsArray then l.num.toInt
  else if l.has vmsVarrayInt32 then readInt32 m (base + l.numOffset)
  else if l.has vmsVarrayUint32 then readInt32 m (base + l.numOffset)
  else if l.has vmsVarrayUint16 then m.readWord (base + l.numOffset) 2
  else if l.has vmsVarrayUint8 then m.readWord (base + l.numOffset) 1
  else 1

end FieldLayout

/-! ## Walkers -/

abbrev Put := U64 × Nat

mutual

def vmstateSaveState : VMStateDescription → U64 → Memory × List Put → Memory × List Put
  | ⟨header, fields, subsections⟩, base, (m, puts) =>
      let m := match header.preSave with
        | none => m
        | some hook => hook m base
      saveSubsections subsections base (saveFields fields header.versionId base (m, puts))

def saveFields : List VMStateField → Int → U64 → Memory × List Put → Memory × List Put
  | [], _, _, st => st
  | f :: fs, versionId, base, st => saveFields fs versionId base (saveField f versionId base st)

def saveField : VMStateField → Int → U64 → Memory × List Put → Memory × List Put
  | ⟨l, vmsd⟩, versionId, base, st =>
      if l.present st.1 base versionId then
        let size := l.elemSize st.1 base
        let baseAddr := base + l.offset
        let baseAddr :=
          if l.has vmsPointer then readPointer st.1 baseAddr + l.start else baseAddr
        (List.range (l.nElems st.1 base).toNat).foldl (fun st (i : Nat) =>
          let addr := baseAddr + toSizeT (size * i)
          let addr := if l.has vmsArrayOfPointer then readPointer st.1 addr else addr
          saveElem vmsd addr (toSizeT size).toNat st) st
      else st

def saveElem : Option VMStateDescription → U64 → Nat → Memory × List Put →
    Memory × List Put
  | some d, addr, _, st => vmstateSaveState d addr st
  | none, addr, size, (m, puts) => (m, puts ++ [(addr, size)])

def saveSubsections : List VMStateSubsection → U64 → Memory × List Put →
    Memory × List Put
  | [], _, st => st
  | ⟨vmsd, needed⟩ :: subs, base, st =>
      saveSubsections subs base
        (if needed st.1 base then vmstateSaveState vmsd base st else st)

end

mutual

/-- Bring the described bytes of the structure at `base` back from `swapspace`. -/
def deviceLoadState : VMStateDescription → U64 → U64 → Memory → Memory
  | ⟨header, fields, _⟩, base, swapspace, m =>
      loadFields fields header.versionId base swapspace m

def loadFields : List VMStateField → Int → U64 → U64 → Memory → Memory
  | [], _, _, _, m => m
  | f :: fs, versionId, base, swapspace, m =>
      loadFields fs versionId base swapspace (loadField f versionId base swapspace m)

def loadField : VMStateField → Int → U64 → U64 → Memory → Memory
  | ⟨l, vmsd⟩, versionId, base, swapspace, m =>
      if l.present m base versionId then
        let size := l.elemSize m swapspace
        let swapBaseAddr := swapspace + l.offset
        let swapBaseAddr :=
          if l.has vmsPointer then readPointer m swapBaseAddr + l.start else swapBaseAddr
        (List.range (l.nElems m swapspace).toNat).foldl (fun m (i : Nat) =>
          let addr := base + l.offset + toSizeT (size * i)
          let swapAddr := swapBaseAddr + toSizeT (size * i)
          let swapAddr := if l.has vmsArrayOfPointer then readPointer m swapAddr else swapAddr
          loadElem vmsd addr swapAddr (toSizeT size).toNat m) m
      else m

def loadElem : Option VMStateDescription → U64 → U64 → Nat → Memory → Memory
  | some d, addr, swapAddr, _, m => deviceLoadState d addr swapAddr m
  | none, addr, swapAddr, size, m => m.copy addr swapAddr size

end

theorem saveFields_eq (fs : List VMStateField) (versionId : Int) (base : U64)
    (st : Memory × List Put) :
    saveFields fs versionId base st =
      fs.foldl (fun st f => saveField f versionId base st) st := by
  induction fs generalizing st with
  | nil => rfl
  | cons f fs ih => exact ih _

theorem loadFields_eq (fs : List VMStateField) (versionId : Int) (base swapspace : U64)
    (m : Memory) :
    loadFields fs versionId base swapspace m =
      fs.foldl (fun m f => loadField f versionId base swapspace m) m := by
  induction fs generalizing m with
  | nil => rfl
  | cons f fs ih => exact ih _

theorem deviceLoadState_eq (d : VMStateDescription) (base swapspace : U64) (m : Memory) :
    deviceLoadState d base swapspace m =
      d.fields.foldl (fun m f => loadField f d.header.versionId base swapspace m) m := by
  cases d
  exact loadFields_eq _ _ _ _ _

/-! ## The flip -/

structure DevSnapshots where
  devname : String
  statesize : U32
  snapshot : U64
  swapspace : U64
  vmsd : VMStateDescription

def DevSnapshots.bytes (e : DevSnapshots) : Nat := (toSizeT e.statesize.toInt).toNat

def flipDevice (e : DevSnapshots) (base : U64) (m : Memory) : Memory :=
  let m := m.copy e.swapspace base e.bytes
  let m := m.copy base e.snapshot e.bytes
  deviceLoadState e.vmsd base e.swapspace m

/-- The state of the device at `base` goes back to its snapshot, except for what is described. -/
def deviceNapReset (dss : List DevSnapshots) (name : String) (base : U64) (m : Memory) :
    Memory :=
  match dss.find? fun e => e.devname = name with
  | some e => flipDevice e base m
  | none => m

end SE4VM.Disc
