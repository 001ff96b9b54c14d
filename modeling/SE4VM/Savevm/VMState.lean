import Mathlib.Data.List.TakeWhile
import SE4VM.Disc.VMState
import SE4VM.Savevm.Info

/-!
# Described states on a stream

`vmstate_save_state` walks a description and hands every field to its `put` handler,
`vmstate_load_state` walks the same description on another machine and hands every
field to its `get` handler.  Subsections come behind the fields, each with a header
that the receiver recognises by looking ahead.
-/

namespace SE4VM.Savevm

open SE4VM.Foundation
open SE4VM.Disc (FieldLayout readPointer toSizeT vmsPointer vmsArray vmsVarrayInt32
  vmsArrayOfPointer vmsVarrayUint16 vmsVbuffer vmsVarrayUint8 vmsVarrayUint32)

/-! ## Strings -/

/-- A C string, without the zero at its end. -/
structure CString where
  bytes : List U8
  nonzero : 0 ∉ bytes
  deriving DecidableEq

/-- What C takes a buffer for that ends with a zero at the latest. -/
def cstr (bs : List U8) : List U8 := bs.takeWhile (· ≠ 0)

theorem CString.cstr_bytes (s : CString) : cstr s.bytes = s.bytes := by
  rw [cstr, List.takeWhile_eq_self_iff]
  intro b hb
  exact decide_eq_true fun h => s.nonzero (h ▸ hb)

/-- `strncmp(name, idstr, strlen(name)) == 0` -/
def CString.begins (name : CString) (idstr : List U8) : Bool :=
  (cstr idstr).take name.bytes.length = name.bytes

/-! ## Descriptions -/

structure VMStateHeader where
  name : CString
  unmigratable : Bool := false
  versionId : Int
  minimumVersionId : Int
  minimumVersionIdOld : Int
  loadStateOld : Option (GetOps → U64 → Int → Loader) := none
  preLoad : Option (Memory → U64 → Int × Memory) := none
  postLoad : Option (Memory → U64 → Int → Int × Memory) := none
  preSave : Option (Memory → U64 → Memory) := none

mutual

inductive VMStateDescription where
  | mk (header : VMStateHeader) (fields : List VMStateField)
      (subsections : List VMStateSubsection)

/-- With `VMS_STRUCT` a field has a description of its own, otherwise it has handlers. -/
inductive VMStateField where
  | mk (layout : FieldLayout) (versionId : Int) (what : VMStateInfo ⊕ VMStateDescription)

inductive VMStateSubsection where
  | mk (vmsd : VMStateDescription) (needed : Memory → U64 → Bool)

end

def VMStateDescription.header : VMStateDescription → VMStateHeader
  | mk h _ _ => h

def VMStateDescription.fields : VMStateDescription → List VMStateField
  | mk _ fs _ => fs

def VMStateDescription.subsections : VMStateDescription → List VMStateSubsection
  | mk _ _ subs => subs

def VMStateField.layout : VMStateField → FieldLayout
  | mk l _ _ => l

def VMStateField.versionId : VMStateField → Int
  | mk _ v _ => v

def VMStateField.what : VMStateField → VMStateInfo ⊕ VMStateDescription
  | mk _ _ w => w

def VMStateSubsection.vmsd : VMStateSubsection → VMStateDescription
  | mk d _ => d

section Layout

variable (l : FieldLayout) (m : Memory) (base : U64)

/-- `base_addr` -/
def FieldLayout.baseAddr : U64 :=
  if l.has vmsPointer then readPointer m (base + l.offset) + l.start else base + l.offset

/-- `addr`, for element `i` behind `start`. -/
def FieldLayout.elemAddr (start : U64) (size : Int) (i : Nat) : U64 :=
  if l.has vmsArrayOfPointer then readPointer m (start + toSizeT (size * i))
  else start + toSizeT (size * i)

/-- The members of the structure from which size and number of the elements are read. -/
def FieldLayout.cells : List Block :=
  (if l.has vmsVbuffer then [(base + l.sizeOffset, 4)] else []) ++
    (if l.has vmsArray then []
    else if l.has vmsVarrayInt32 then [(base + l.numOffset, 4)]
    else if l.has vmsVarrayUint32 then [(base + l.numOffset, 4)]
    else if l.has vmsVarrayUint16 then [(base + l.numOffset, 2)]
    else if l.has vmsVarrayUint8 then [(base + l.numOffset, 1)]
    else [])

end Layout

/-! ## Saving -/

def qemuVmSubsection : U8 := 0x05

/-- What a sender does.  The last two put nothing: they say what it has read, and what is over. -/
inductive Item where
  | put (info : VMStateInfo) (addr : U64) (size : Nat) (calls : List PutCall)
  | header (calls : List PutCall)
  | cell (addr : U64) (n : Nat)
  | finish (name : CString)

def Item.calls : Item → List PutCall
  | put _ _ _ calls => calls
  | header calls => calls
  | cell _ _ => []
  | finish _ => []

abbrev Saver := Memory → Memory × List Item

def saveElems (l : FieldLayout) (elem : U64 → Nat → Saver) (start : U64) (size : Int) :
    List Nat → Saver
  | [], m => (m, [])
  | i :: is, m =>
      let (m, xs) := elem (FieldLayout.elemAddr l m start size i) (toSizeT size).toNat m
      let (m, ys) := saveElems l elem start size is m
      (m, xs ++ ys)

def saveEach (l : FieldLayout) (elem : U64 → Nat → Saver) (versionId : Int) (base : U64) : Saver :=
  fun m =>
    if l.present m base versionId then
      let (m', xs) := saveElems l elem (FieldLayout.baseAddr l m base) (l.elemSize m base)
        (List.range (l.nElems m base).toNat) m
      (m', (FieldLayout.cells l base).map (fun b => .cell b.1 b.2) ++ xs)
    else (m, [])

def subsectionHeader (h : VMStateHeader) : List PutCall :=
  let len := BitVec.ofNat 8 h.name.bytes.length
  .byte qemuVmSubsection :: .byte len :: .buffer (h.name.bytes.take len.toNat) ::
    qemuPutBe32 (BitVec.ofInt 32 h.versionId).toNat

mutual

def vmstateSaveState : VMStateDescription → U64 → Saver
  | ⟨header, fields, subsections⟩, base, m =>
      let m := match header.preSave with
        | some hook => hook m base
        | none => m
      let (m, xs) := saveFields fields header.versionId base m
      let (m, ys) := vmstateSubsectionSave subsections base m
      (m, xs ++ ys ++ [.finish header.name])

def saveFields : List VMStateField → Int → U64 → Saver
  | [], _, _, m => (m, [])
  | f :: fs, versionId, base, m =>
      let (m, xs) := saveField f versionId base m
      let (m, ys) := saveFields fs versionId base m
      (m, xs ++ ys)

def saveField : VMStateField → Int → U64 → Saver
  | ⟨l, _, .inl info⟩, versionId, base, m =>
      saveEach l (fun a n m => (m, [.put info a n (info.put m a n)])) versionId base m
  | ⟨l, _, .inr d⟩, versionId, base, m =>
      saveEach l (fun a _ m => vmstateSaveState d a m) versionId base m

def vmstateSubsectionSave : List VMStateSubsection → U64 → Saver
  | [], _, m => (m, [])
  | ⟨d, needed⟩ :: subs, base, m =>
      if needed m base then
        let (m, xs) := vmstateSaveState d base m
        let (m, ys) := vmstateSubsectionSave subs base m
        (m, .header (subsectionHeader d.header) :: xs ++ ys)
      else vmstateSubsectionSave subs base m

end

/-! ## Loading -/

/-- A negative result ends the walk. -/
def andThen (p : StateT GetFile Run (Int × Memory)) (q : Loader) :
    StateT GetFile Run (Int × Memory) := do
  let (ret, m) ← p
  if ret < 0 then pure (ret, m) else q m

def loadElems (l : FieldLayout) (elem : U64 → Nat → Loader) (start : U64) (size : Int) :
    List Nat → Loader
  | [], m => pure (0, m)
  | i :: is, m =>
      andThen (elem (FieldLayout.elemAddr l m start size i) (toSizeT size).toNat m)
        (loadElems l elem start size is)

def FieldLayout.loads (l : FieldLayout) (fieldVersion : Int) (m : Memory) (base : U64)
    (versionId : Int) : Bool :=
  match l.fieldExists with
  | some test => test m base versionId
  | none => fieldVersion ≤ versionId

def loadEach (l : FieldLayout) (elem : U64 → Nat → Loader) (fieldVersion versionId : Int)
    (base : U64) : Loader := fun m =>
  if FieldLayout.loads l fieldVersion m base versionId then
    loadElems l elem (FieldLayout.baseAddr l m base) (l.elemSize m base)
      (List.range (l.nElems m base).toNat) m
  else pure (0, m)

def vmstateGetSubsection {α : Type} (table : List (CString × α)) (idstr : List U8) : Option α :=
  (table.find? fun e => e.1.bytes = cstr idstr).map Prod.snd

def subsectionRound (ops : GetOps) (name : CString)
    (table : List (CString × (U64 → Int → Loader))) (base : U64) (m : Memory) :
    StateT GetFile Run (Step Memory (Int × Memory)) := fun f =>
  let (b, f) := qemuPeekByte ops 0 f
  if b ≠ qemuVmSubsection then .ok (.done (0, m), f)
  else
    let (len, f) := qemuPeekByte ops 1 f
    if len.toNat < name.bytes.length + 1 then .ok (.done (0, m), f)
    else
      let (idstr, f) := qemuPeekBuffer ops len.toNat 2 f
      if idstr.length ≠ len.toNat then .ok (.done (0, m), f)
      else if name.begins idstr = false then .ok (.done (0, m), f)
      else
        match vmstateGetSubsection table idstr with
        | none => .ok (.done (-enoent, m), f)
        | some load => do
            let f := qemuFileSkip len.toNat (qemuFileSkip 1 (qemuFileSkip 1 f))
            let (v, f) := qemuGetBe32 ops f
            -- `version_id` has eight bits here
            let ((ret, m), f) ← load base (v % 256 : Nat) m f
            .ok (if ret ≠ 0 then .done (ret, m) else .next m, f)

/-- Every round but the last one skips a byte at least, so that there are rounds enough. -/
def vmstateSubsectionLoad (ops : GetOps) (name : CString)
    (table : List (CString × (U64 → Int → Loader))) (base : U64) : Loader := fun m f =>
  readLoop (subsectionRound ops name table base) (f.content.length + 1) m f

/-- The end of `vmstate_load_state`, behind the fields. -/
def loadTail (ops : GetOps) (h : VMStateHeader) (table : List (CString × (U64 → Int → Loader)))
    (base : U64) (versionId : Int) : Loader := fun m => do
  let (ret, m) ← vmstateSubsectionLoad ops h.name table base m
  if ret ≠ 0 then pure (ret, m)
  else
    match h.postLoad with
    | some hook => pure (hook m base versionId)
    | none => pure (0, m)

mutual

def vmstateLoadState (ops : GetOps) : VMStateDescription → U64 → Int → Loader
  | ⟨header, fields, subsections⟩, base, versionId, m =>
      if header.versionId < versionId then pure (-einval, m)
      else if versionId < header.minimumVersionIdOld then pure (-einval, m)
      else if versionId < header.minimumVersionId then
        match header.loadStateOld with
        | some hook => hook ops base versionId m
        | none => fun _ => .fault
      else
        let (ret, m) := match header.preLoad with
          | some hook => hook m base
          | none => (0, m)
        if ret ≠ 0 then pure (ret, m)
        else andThen (loadFields ops fields versionId base m)
          (loadTail ops header (subsectionTable ops subsections) base versionId)

def loadFields (ops : GetOps) : List VMStateField → Int → U64 → Loader
  | [], _, _, m => pure (0, m)
  | f :: fs, versionId, base, m =>
      andThen (loadField ops f versionId base m) (loadFields ops fs versionId base)

def loadField (ops : GetOps) : VMStateField → Int → U64 → Loader
  | ⟨l, v, .inl info⟩, versionId, base, m => loadEach l (info.get ops) v versionId base m
  | ⟨l, v, .inr d⟩, versionId, base, m =>
      loadEach l (fun a _ => vmstateLoadState ops d a d.header.versionId) v versionId base m

/-- The subsections by name, each with its loader. -/
def subsectionTable (ops : GetOps) :
    List VMStateSubsection → List (CString × (U64 → Int → Loader))
  | [] => []
  | ⟨d, _⟩ :: subs => (d.header.name, vmstateLoadState ops d) :: subsectionTable ops subs

end

end SE4VM.Savevm
