import SE4VM.Disc.SaveState

/-!
# What the put handlers read

A field of a C description names the `VMStateInfo` whose handlers move it, and the
pointer to the list of fields may be missing.  `Declaration` keeps both.  Migration
saves what the handlers read; the flip copies `size` bytes at `offset` instead, which
need not be the same bytes.
-/

namespace SE4VM.Disc

open SE4VM.Foundation

/-! ## Declarations -/

/-- The ranges of memory that `put` reads for a field of some size at some address. -/
abbrev PutHandler := Memory → U64 → Nat → List (U64 × Nat)

mutual

inductive Declaration where
  | mk (header : VMStateHeader) (fields : Option (List DeclaredField))
      (subsections : List DeclaredSubsection)

inductive DeclaredField where
  | info (layout : FieldLayout) (put : PutHandler)
  | struct (layout : FieldLayout) (vmsd : Declaration)

inductive DeclaredSubsection where
  | mk (vmsd : Declaration) (needed : Memory → U64 → Bool)

end

namespace Declaration

def header : Declaration → VMStateHeader
  | mk h _ _ => h

def fields : Declaration → Option (List DeclaredField)
  | mk _ fs _ => fs

def subsections : Declaration → List DeclaredSubsection
  | mk _ _ subs => subs

end Declaration

theorem Declaration.induction {P : Declaration → Prop}
    (h : ∀ d : Declaration, (∀ fs, d.fields = some fs → ∀ l sub, .struct l sub ∈ fs → P sub) →
      P d)
    (d : Declaration) : P d := by
  refine @Declaration.rec P (fun f => ∀ l sub, f = .struct l sub → P sub) (fun _ => True)
    (fun o => ∀ fs, o = some fs → ∀ l sub, .struct l sub ∈ fs → P sub) (fun _ => True)
    (fun fs => ∀ l sub, .struct l sub ∈ fs → P sub) ?_ ?_ ?_ ?_ ?_ ?_ ?_ ?_ ?_ ?_ d
  · exact fun header fields subsections hfields _ => h _ hfields
  · intro layout put l sub hf
    cases hf
  · intro layout vmsd hvmsd l sub hf
    cases hf
    exact hvmsd
  · exact fun vmsd needed _ => trivial
  · intro fs hfs
    cases hfs
  · intro fs hfs fs' heq
    cases heq
    exact hfs
  · trivial
  · exact fun _ _ _ _ => trivial
  · exact fun l sub hmem => absurd hmem List.not_mem_nil
  · intro f fs hf hfs l sub hmem
    rcases List.mem_cons.mp hmem with heq | hmem
    · exact hf l sub heq.symm
    · exact hfs l sub hmem

mutual

/-- The description that the walkers of the model take; a missing list has no fields. -/
def Declaration.toVMState : Declaration → VMStateDescription
  | ⟨header, fields, subsections⟩ =>
      ⟨header, listToVMState fields, subsectionsToVMState subsections⟩

def listToVMState : Option (List DeclaredField) → List VMStateField
  | none => []
  | some fs => fieldsToVMState fs

def fieldsToVMState : List DeclaredField → List VMStateField
  | [] => []
  | f :: fs => f.toVMState :: fieldsToVMState fs

def DeclaredField.toVMState : DeclaredField → VMStateField
  | .info l _ => ⟨l, none⟩
  | .struct l d => ⟨l, some d.toVMState⟩

def subsectionsToVMState : List DeclaredSubsection → List VMStateSubsection
  | [] => []
  | ⟨d, needed⟩ :: subs => ⟨d.toVMState, needed⟩ :: subsectionsToVMState subs

end

theorem fieldsToVMState_eq (fs : List DeclaredField) :
    fieldsToVMState fs = fs.map DeclaredField.toVMState := by
  induction fs with
  | nil => rfl
  | cons f fs ih => rw [fieldsToVMState, ih, List.map_cons]

/-! ## Saving a declared device -/

def saveEach (l : FieldLayout) (versionId : Int) (base : U64)
    (elem : U64 → Nat → Memory × List Put → Option (Memory × List Put))
    (st : Memory × List Put) : Option (Memory × List Put) :=
  if l.present st.1 base versionId then
    let size := l.elemSize st.1 base
    let baseAddr := base + l.offset
    let baseAddr := if l.has vmsPointer then readPointer st.1 baseAddr + l.start else baseAddr
    (List.range (l.nElems st.1 base).toNat).foldlM (fun st (i : Nat) =>
      let addr := baseAddr + toSizeT (size * i)
      let addr := if l.has vmsArrayOfPointer then readPointer st.1 addr else addr
      elem addr (toSizeT size).toNat st) st
  else some st

mutual

/-- The ranges that the handlers read; nothing if a list of fields is missing. -/
def saveDeclared : Declaration → U64 → Memory × List Put → Option (Memory × List Put)
  | ⟨header, fields, subsections⟩, base, (m, reads) =>
      let m := match header.preSave with
        | none => m
        | some hook => hook m base
      (saveDeclaredList fields header.versionId base (m, reads)).bind
        (saveDeclaredSubsections subsections base)

def saveDeclaredList : Option (List DeclaredField) → Int → U64 → Memory × List Put →
    Option (Memory × List Put)
  | none, _, _, _ => none
  | some fs, versionId, base, st => saveDeclaredFields fs versionId base st

def saveDeclaredFields : List DeclaredField → Int → U64 → Memory × List Put →
    Option (Memory × List Put)
  | [], _, _, st => some st
  | f :: fs, versionId, base, st =>
      (saveDeclaredField f versionId base st).bind (saveDeclaredFields fs versionId base)

def saveDeclaredField : DeclaredField → Int → U64 → Memory × List Put →
    Option (Memory × List Put)
  | .info l put, versionId, base, st =>
      saveEach l versionId base (fun addr size st =>
        some (st.1, st.2 ++ put st.1 addr size)) st
  | .struct l d, versionId, base, st =>
      saveEach l versionId base (fun addr _ st => saveDeclared d addr st) st

def saveDeclaredSubsections : List DeclaredSubsection → U64 → Memory × List Put →
    Option (Memory × List Put)
  | [], _, st => some st
  | ⟨vmsd, needed⟩ :: subs, base, st =>
      (if needed st.1 base then saveDeclared vmsd base st else some st).bind
        (saveDeclaredSubsections subs base)

end

def handlersRead (d : Declaration) (base : U64) (m : Memory) (b : Nat) : Bool :=
  (saveDeclared d base (m, [])).any fun st =>
    st.2.any fun p => Memory.offset p.1 (base + BitVec.ofNat 64 b) < p.2

/-! ## Handlers -/

/-- `put_buffer`, and the scalar handlers for fields of their size. -/
def putBuffer : PutHandler := fun _ addr size => [(addr, size)]

/-- Zeros go to the stream, from a buffer of the handler's own. -/
def putUnusedBuffer : PutHandler := fun _ _ _ => []

/--
The configuration space is behind the pointer at `addr`; the assertion on its size
reads `cap_present`, which lies `capPresent` bytes after that pointer.
-/
def putPciConfigDevice (capPresent : U64) : PutHandler := fun m addr size =>
  [(addr + capPresent, 4), (addr, 8), (readPointer m addr, size)]

/-- One bit for each pin, all of them in the byte at `addr`. -/
def putPciIrqState : PutHandler := fun _ addr _ => [(addr, 1)]

/-- Every list is there, every handler reads just its field, and there are no subsections. -/
inductive Buffered : Declaration → Prop
  | intro {d : Declaration} {fs : List DeclaredField} (list : d.fields = some fs)
      (subsections : d.subsections = [])
      (here : ∀ l put, .info l put ∈ fs → put = putBuffer)
      (nested : ∀ l sub, .struct l sub ∈ fs → Buffered sub) : Buffered d

theorem saveEach_eq {l : FieldLayout} (vmsd : Option VMStateDescription)
    {elem : U64 → Nat → Memory × List Put → Option (Memory × List Put)}
    (h : ∀ addr n st, elem addr n st = some (saveElem vmsd addr n st)) (versionId : Int)
    (base : U64) (st : Memory × List Put) :
    saveEach l versionId base elem st = some (saveField ⟨l, vmsd⟩ versionId base st) := by
  simp only [saveEach, saveField, h]
  cases l.present st.1 base versionId with
  | true => exact List.foldlM_pure
  | false => rfl

theorem saveDeclaredFields_eq {fs : List DeclaredField} {versionId : Int} {base : U64}
    (h : ∀ f ∈ fs, ∀ st, saveDeclaredField f versionId base st =
      some (saveField f.toVMState versionId base st))
    (st : Memory × List Put) :
    saveDeclaredFields fs versionId base st =
      some (saveFields (fieldsToVMState fs) versionId base st) := by
  induction fs generalizing st with
  | nil => rfl
  | cons f fs ih =>
      obtain ⟨hf, hfs⟩ := List.forall_mem_cons.mp h
      rw [saveDeclaredFields, hf, Option.bind_some, ih hfs, fieldsToVMState, saveFields]

theorem saveDeclared_eq {d : Declaration} (h : Buffered d) (base : U64)
    (st : Memory × List Put) :
    saveDeclared d base st = some (vmstateSaveState d.toVMState base st) := by
  induction d using Declaration.induction generalizing base st with
  | h d ih =>
      obtain ⟨list, subsections, here, nested⟩ := h
      rename_i fs
      obtain ⟨header, fields, subs⟩ := d
      obtain rfl : fields = some fs := list
      obtain rfl : subs = [] := subsections
      have hfields : ∀ f ∈ fs, ∀ base st,
          saveDeclaredField f header.versionId base st =
            some (saveField f.toVMState header.versionId base st) := by
        intro f hf base st
        cases f with
        | info l put =>
            obtain rfl := here l put hf
            exact saveEach_eq none (fun addr n st => rfl) _ _ _
        | struct l sub =>
            exact saveEach_eq (some sub.toVMState) (fun addr n st =>
              ih fs rfl l sub hf (nested l sub hf) addr st) _ _ _
      obtain ⟨m, reads⟩ := st
      simp only [saveDeclared, saveDeclaredList, Declaration.toVMState, listToVMState,
        subsectionsToVMState, vmstateSaveState]
      rw [saveDeclaredFields_eq (fun f hf st => hfields f hf base st)]
      rfl

/-! ## What the flip resets -/

def ResetsUnread (d : Declaration) (e : DevSnapshots) (base : U64) (m m' : Memory) : Prop :=
  ∀ b < e.bytes, handlersRead d base m b = false →
    m' (base + BitVec.ofNat 64 b) = m (e.snapshot + BitVec.ofNat 64 b)

theorem handlersRead_eq_savedByte {d : Declaration} (h : Buffered d) (base : U64) (m : Memory)
    (b : Nat) : handlersRead d base m b = savedByte d.toVMState base m b := by
  rw [handlersRead, saveDeclared_eq h]
  rfl

theorem flipDevice_resetsUnread {d : Declaration} {e : DevSnapshots} {base : U64} {m : Memory}
    (hd : e.vmsd = d.toVMState) (hbuf : Buffered d) (hplain : Plain e.vmsd)
    (hall : AllFields (fun l => l.NoPointer ∧ l.VersionOnly) e.vmsd) (hapart : e.Apart base)
    (hfit : ∀ x ∈ liveAccesses e.vmsd base m, x.within e.bytes) :
    ResetsUnread d e base m (flipDevice e base m) := by
  intro b hb hunread
  have hlt := e.bytes_lt
  rw [handlersRead_eq_savedByte hbuf, ← hd] at hunread
  have hdesc : describes (liveAccesses e.vmsd base m) b = false := by
    rw [Bool.eq_false_iff, ne_eq, ← savedByte_iff_describes hplain (hall.mono fun _ h => h.1)
      hlt.le hfit (by omega), hunread]
    decide
  rw [flipDevice_merge hall hapart hfit (DevSnapshots.ofNat_mem_inside hb),
    DevSnapshots.toNat_ofNat hb, hdesc]
  rfl

/--
An unread byte is reset just in case the walk does not restore it, or the snapshot
happens to agree with the live device there.
-/
theorem deviceNapReset_resetsUnread_iff {dss : List DevSnapshots} {name : String}
    {d : Declaration} {e : DevSnapshots} {base : U64} {m : Memory}
    (hfind : (dss.find? fun e => e.devname = name) = some e) (hd : e.vmsd = d.toVMState)
    (hptr : AllFields FieldLayout.NoPointer d.toVMState) (hapart : e.Apart base)
    (hfit : ∀ x ∈ accesses (liveState m base) (fun _ _ _ => true) d.toVMState 0#64,
      x.within e.bytes) :
    ResetsUnread d e base m (deviceNapReset dss name base m) ↔
      ∀ b < e.bytes, handlersRead d base m b = false →
        BitVec.ofNat 64 b ∉ (e.walk hapart m).restored d.toVMState 0#64 ∅ ∨
          m (base + BitVec.ofNat 64 b) = m (e.snapshot + BitVec.ofNat 64 b) := by
  rw [← hd] at hptr hfit ⊢
  refine forall₃_congr fun b hb _ => ?_
  obtain ⟨hmem, hnot⟩ := deviceNapReset_byte hfind hptr hapart hfit hb
  by_cases hkept : BitVec.ofNat 64 b ∈ (e.walk hapart m).restored e.vmsd 0#64 ∅
  · rw [hmem hkept]
    exact ⟨.inr, fun h => h.resolve_left (not_not_intro hkept)⟩
  · exact iff_of_true (hnot hkept) (.inl hkept)

def pairsDeclaration : Declaration :=
  ⟨{ name := "pairs", versionId := 2 },
    some [.info { offset := 0, size := 1 } putBuffer,
      .struct { offset := 2, size := 2, flags := vmsVarrayUint8, numOffset := 0 }
        ⟨{ name := "pair", versionId := 1 }, some [.info { offset := 0, size := 1 } putBuffer],
          []⟩,
      .info { offset := 1, size := 1,
              fieldExists := some fun _ _ versionId => versionId == 1 } putBuffer], []⟩

theorem deviceNapReset_resetsUnread_iff_pairs :
    ResetsUnread pairsDeclaration pairsSnapshot 0 pairsMemory
        (deviceNapReset [pairsSnapshot] "pairs" 0 pairsMemory) ↔
      ∀ b < pairsSnapshot.bytes, handlersRead pairsDeclaration 0 pairsMemory b = false →
        BitVec.ofNat 64 b ∉ (pairsSnapshot.walk pairsSnapshot_apart pairsMemory).restored
            pairsDeclaration.toVMState 0#64 ∅ ∨
          pairsMemory (0 + BitVec.ofNat 64 b) = pairsMemory (16 + BitVec.ofNat 64 b) :=
  have hd : pairsSnapshot.vmsd = pairsDeclaration.toVMState := rfl
  deviceNapReset_resetsUnread_iff rfl hd (pairsDescription_allFields.mono fun _ h => h.1)
    pairsSnapshot_apart (by decide)

/-! ## The description of a PCI device -/

/-- `vmstate_pci_device`, with its members at the given offsets. -/
def declaredPciDevice (versionId config capPresent irqState : U64) : Declaration :=
  ⟨{ name := "PCIDevice", versionId := 2 },
    some [.info { offset := versionId, size := 4 } putBuffer,
      .info { offset := config, size := 256 } (putPciConfigDevice (capPresent - config)),
      .info { offset := irqState, size := 16 } putPciIrqState], []⟩

theorem toVMState_declaredPciDevice (versionId config capPresent irqState : U64) :
    (declaredPciDevice versionId config capPresent irqState).toVMState =
      vmstatePciDevice versionId config irqState := rfl

/-- `config` at 0x110, so that `io_regions[0].addr` is at 0x188; `irq_state` at 0x301. -/
def pciSnapshot : DevSnapshots :=
  ⟨"PCIDevice", 0x800, 0x100000, 0x200000, vmstatePciDevice 0x3f0 0x110 0x301⟩

/-- The configuration space is at 0x300000; the first region has been mapped since. -/
def pciMemory : Memory := fun a =>
  if a = 0x112 then 0x30 else if a = 0x18a then 0xfe else if a = 0x308 then 1 else 0

def unusedDeclaration : Declaration :=
  ⟨{ name := "unused", versionId := 2 }, some [.info { offset := 0, size := 4 } putUnusedBuffer],
    []⟩

def unusedSnapshot : DevSnapshots := ⟨"unused", 8, 16, 32, unusedDeclaration.toVMState⟩

def unusedMemory : Memory := fun a => if a = 2 then 1 else 0

/--
The pointer to the configuration space is copied with 248 bytes of what follows it,
`irq_state` with fifteen, and padding in the stream with the first bytes of the device.
-/
theorem deviceNapReset_not_resetsUnread :
    (∀ b ∈ [0x18a, 0x308],
      handlersRead (declaredPciDevice 0x3f0 0x110 0x304 0x301) 0 pciMemory b = false ∧
        deviceNapReset [pciSnapshot] "PCIDevice" 0 pciMemory (0 + BitVec.ofNat 64 b) ≠
          pciMemory (pciSnapshot.snapshot + BitVec.ofNat 64 b)) ∧
      ¬ ResetsUnread unusedDeclaration unusedSnapshot 0 unusedMemory
        (deviceNapReset [unusedSnapshot] "unused" 0 unusedMemory) := by
  constructor
  · decide +kernel
  · intro hresets
    exact absurd (hresets 2 (by decide) (by decide)) (by decide)

end SE4VM.Disc
