import SE4VM.Disc.LoadState
import SE4VM.E1000.Migration

/-!
# The flip against the migration stream

Migration saves the fields that exist on the live device and, after them, every
subsection that is needed.  The flip restores the fields that exist on the device
it has just overwritten, and knows nothing of subsections.
-/

namespace SE4VM.Disc

open SE4VM.Foundation
open SE4VM.Foundation.Memory (inside span overlay)

/-! ## What migration saves -/

/-- Whether `vmstate_save_state` puts byte `b` of the device at `base` on the stream. -/
def savedByte (d : VMStateDescription) (base : U64) (m : Memory) (b : Nat) : Bool :=
  (vmstateSaveState d base (m, [])).2.any fun p =>
    Memory.offset p.1 (base + BitVec.ofNat 64 b) < p.2

/-- A description without hooks and subsections, at any depth. -/
inductive Plain : VMStateDescription → Prop
  | intro {d : VMStateDescription} (hook : d.header.preSave = none)
      (subsections : d.subsections = [])
      (nested : ∀ f ∈ d.fields, ∀ sub, f.vmsd = some sub → Plain sub) : Plain d

def putsOf (base : U64) (xs : List Access) : List Put :=
  xs.filterMap fun
    | .bytes o n => some (base + o, n)
    | .cell _ _ => none

theorem foldl_puts {α : Type} {l : List α} {m : Memory}
    {g : Memory × List Put → α → Memory × List Put} {base : U64} {xs : α → List Access}
    (h : ∀ a ∈ l, ∀ ps, g (m, ps) a = (m, ps ++ putsOf base (xs a))) (ps : List Put) :
    l.foldl g (m, ps) = (m, ps ++ putsOf base (l.flatMap xs)) := by
  induction l generalizing ps with
  | nil => simp [putsOf]
  | cons a l ih =>
      obtain ⟨ha, hl⟩ := List.forall_mem_cons.mp h
      rw [List.foldl_cons, ha, ih hl, List.append_assoc]
      simp only [putsOf, List.flatMap_cons, List.filterMap_append]

theorem read_liveState (m : Memory) (base δ o : U64) (n : Nat) :
    m.read (base + δ + o) n = (liveState m base).read (δ + o) n := by
  refine Memory.read_congr fun i _ => ?_
  rw [liveState, BitVec.add_assoc, BitVec.add_assoc, BitVec.add_assoc]

theorem saveField_puts {m : Memory} {base : U64} {f : VMStateField} {versionId : Int} {δ : U64}
    (hptr : f.layout.NoPointer)
    (hsub : ∀ sub, f.vmsd = some sub → ∀ δ' ps,
      vmstateSaveState sub (base + δ') (m, ps) =
        (m, ps ++ putsOf base (accesses (liveState m base) (existsOn m base) sub δ')))
    (ps : List Put) :
    saveField f versionId (base + δ) (m, ps) =
      (m, ps ++ putsOf base
        (fieldAccesses (liveState m base) (existsOn m base) f versionId δ)) := by
  obtain ⟨l, vmsd⟩ := f
  obtain ⟨hpointer, harray⟩ : l.has vmsPointer = false ∧ l.has vmsArrayOfPointer = false := hptr
  have hsize := elemSize_congr (l := l) fun c _ => read_liveState m base δ c.1 c.2
  have hcount := nElems_congr (l := l) fun c _ => read_liveState m base δ c.1 c.2
  have hcells : putsOf base (l.cells.map fun c => .cell (δ + c.1) c.2) = [] := by
    simp [putsOf]
  have helem : ∀ δ' n ps, saveElem vmsd (base + δ') n (m, ps) =
      (m, ps ++ putsOf base
        (elemAccesses (liveState m base) (existsOn m base) vmsd δ' n)) := by
    intro δ' n ps
    cases vmsd with
    | some sub => exact hsub sub rfl δ' ps
    | none => rfl
  have happend : ∀ xs ys, putsOf base (xs ++ ys) = putsOf base xs ++ putsOf base ys :=
    fun xs ys => List.filterMap_append
  cases hpresent : l.present m (base + δ) versionId with
  | true =>
      have hex : existsOn m base l δ versionId = true := hpresent
      simp only [saveField, fieldAccesses, hsize, hcount, hpointer, harray, hpresent, hex,
        Bool.false_eq_true, if_true, if_false, happend, hcells, List.nil_append]
      refine foldl_puts (fun (i : Nat) _ ps => ?_) ps
      rw [← helem, FieldLayout.elemOffset, BitVec.add_assoc, BitVec.add_assoc,
        BitVec.add_assoc]
  | false =>
      have hex : existsOn m base l δ versionId = false := hpresent
      simp [saveField, fieldAccesses, hpresent, hex, putsOf]

theorem vmstateSaveState_puts {m : Memory} {base : U64} {d : VMStateDescription}
    (hplain : Plain d) (hptr : AllFields FieldLayout.NoPointer d) (δ : U64) (ps : List Put) :
    vmstateSaveState d (base + δ) (m, ps) =
      (m, ps ++ putsOf base (accesses (liveState m base) (existsOn m base) d δ)) := by
  induction d using VMStateDescription.induction generalizing δ ps with
  | h d ih =>
      obtain ⟨here, deeper⟩ := hptr
      obtain ⟨hook, subsections, nested⟩ := hplain
      have hfields := foldl_puts (l := d.fields) (g := fun st f =>
        saveField f d.header.versionId (base + δ) st) (fun f hf ps =>
          saveField_puts (here f hf) (fun sub hsub δ' ps => ih f hf sub hsub
            (nested f hf sub hsub) (deeper f hf sub hsub) δ' ps) ps) ps
      rw [accesses_eq, ← hfields, ← saveFields_eq]
      obtain ⟨header, fields, subs⟩ := d
      obtain rfl : subs = [] := subsections
      have hnone : header.preSave = none := hook
      simp only [vmstateSaveState, hnone, saveSubsections]
      rfl

/-! ## What the flip keeps of it -/

/-- Every byte of the device that migration would save survives the flip. -/
def KeepsSaved (e : DevSnapshots) (base : U64) (m m' : Memory) : Prop :=
  ∀ b < e.bytes, savedByte e.vmsd base m b = true →
    m' (base + BitVec.ofNat 64 b) = m (base + BitVec.ofNat 64 b)

theorem savedByte_iff_describes {d : VMStateDescription} {base : U64} {m : Memory} {k : Nat}
    (hplain : Plain d) (hptr : AllFields FieldLayout.NoPointer d) (hk : k ≤ 2 ^ 64)
    (hfit : ∀ x ∈ liveAccesses d base m, x.within k) {b : Nat} (hb : b < 2 ^ 64) :
    savedByte d base m b = true ↔ describes (liveAccesses d base m) b = true := by
  have hputs : vmstateSaveState d (base + 0#64) (m, []) = _ :=
    vmstateSaveState_puts hplain hptr 0#64 []
  have hrange : ∀ o n, Access.bytes o n ∈ liveAccesses d base m →
      (Memory.offset (base + o) (base + BitVec.ofNat 64 b) < n ↔
        o.toNat ≤ b ∧ b < o.toNat + n) := by
    intro o n hx
    have hle : o.toNat + n ≤ k := hfit _ hx
    have hoff : Memory.offset (base + o) (base + BitVec.ofNat 64 b) =
        Memory.offset o (BitVec.ofNat 64 b) := by
      rw [Memory.offset, Memory.sub_add_eq, BitVec.add_comm, BitVec.add_sub_cancel,
        Memory.offset]
    have hspan := Memory.mem_span_iff (a := o) (v := BitVec.ofNat 64 b) (n := n) (by omega)
    rw [BitVec.toNat_ofNat, Nat.mod_eq_of_lt hb] at hspan
    rw [hoff]
    exact hspan
  rw [BitVec.add_zero, List.nil_append] at hputs
  rw [savedByte, hputs, describes, List.any_eq_true, List.any_eq_true]
  constructor
  · rintro ⟨p, hp, hlt⟩
    obtain ⟨x, hx, hput⟩ := List.mem_filterMap.mp hp
    cases x with
    | cell o n => cases hput
    | bytes o n =>
        cases hput
        exact ⟨_, hx, by simpa using (hrange o n hx).mp (of_decide_eq_true hlt)⟩
  · rintro ⟨x, hx, hdesc⟩
    cases x with
    | cell o n => cases hdesc
    | bytes o n =>
        exact ⟨(base + o, n), List.mem_filterMap.mpr ⟨_, hx, rfl⟩,
          decide_eq_true ((hrange o n hx).mpr (by simpa using hdesc))⟩

theorem flipDevice_keepsSaved {e : DevSnapshots} {base : U64} {m : Memory}
    (hplain : Plain e.vmsd)
    (hall : AllFields (fun l => l.NoPointer ∧ l.VersionOnly) e.vmsd) (hapart : e.Apart base)
    (hfit : ∀ x ∈ liveAccesses e.vmsd base m, x.within e.bytes) :
    KeepsSaved e base m (flipDevice e base m) := by
  intro b hb hsaved
  have hlt := e.bytes_lt
  have hdesc := (savedByte_iff_describes hplain (hall.mono fun _ h => h.1) hlt.le hfit
    (by omega)).mp hsaved
  rw [flipDevice_merge hall hapart hfit (DevSnapshots.ofNat_mem_inside hb),
    DevSnapshots.toNat_ofNat hb, if_pos hdesc]

/-! ## The description of the e1000 -/

def single (offset size : U64) : VMStateField := ⟨{ offset := offset, size := size }, none⟩

def array (offset size : U64) (num : U32) : VMStateField :=
  ⟨{ offset := offset, size := size, flags := vmsArray, num := num }, none⟩

def isVersion1 : FieldTest := fun _ _ versionId => versionId == 1

def vmstatePciDevice (versionId config irqState : U64) : VMStateDescription :=
  ⟨{ name := "PCIDevice", versionId := 2 },
    [single versionId 4, single config 256, single irqState 16], []⟩

def regField (macReg : U64) (i : Nat) : VMStateField :=
  single (macReg + BitVec.ofNat 64 (4 * i)) 4

def mitStateNeeded (macReg : U64) (m : Memory) (base : U64) : Bool :=
  BitVec.ofNat 32 (m.readWord (base + macReg + 0x30218) 4) &&& E1000.e1000FlagMit ≠ 0

def vmstateE1000MitState (macReg : U64) : VMStateDescription :=
  ⟨{ name := "e1000/mit_state", versionId := 1 },
    E1000.mitRegs.map (regField macReg) ++ [single (macReg + 0x30211) 1], []⟩

/--
`vmstate_e1000` for a structure with `mac_reg` at `macReg`; the members after it
lie where the C layout puts them.
-/
def vmstateE1000 (pci : VMStateDescription) (sizeofPci macReg : U64)
    (preSave : Memory → U64 → Memory) : VMStateDescription :=
  let tx := macReg + 0x200C8
  let eecd := macReg + 0x301EC
  ⟨{ name := "e1000", versionId := 2, preSave := some preSave },
    [⟨{ offset := 0, size := sizeofPci }, some pci⟩,
     ⟨{ offset := 0, size := 4, fieldExists := some isVersion1 }, none⟩,
     single 0 4,
     single (macReg + 0x200C0) 4,
     single (macReg + 0x200C4) 4,
     single eecd 4, single (eecd + 4) 2, single (eecd + 6) 2, single (eecd + 8) 2,
     single (eecd + 12) 4,
     single (tx + 0x1010C) 1, single (tx + 0x1010D) 1, single (tx + 0x1010E) 2,
     single (tx + 0x10110) 1, single (tx + 0x10111) 1, single (tx + 0x10112) 2,
     single (tx + 0x10118) 4, single (tx + 0x10114) 1, single (tx + 0x10116) 2,
     single (tx + 0x10108) 2, single (tx + 0x1011C) 2, single (tx + 0x1010A) 1,
     single (tx + 0x1011F) 1, single (tx + 0x10120) 1,
     single tx 256, single (tx + 0x108) 0x10000,
     array (macReg + 0x20040) 2 64,
     array (macReg + 0x20000) 2 0x20] ++
    E1000.vmstateRegs.map (regField macReg) ++
    [array (macReg + BitVec.ofNat 64 (4 * E1000.Reg.ra)) 4 32,
     array (macReg + BitVec.ofNat 64 (4 * E1000.Reg.mta)) 4 128,
     array (macReg + BitVec.ofNat 64 (4 * E1000.Reg.vfta)) 4 128],
    [⟨vmstateE1000MitState macReg, mitStateNeeded macReg⟩]⟩

def e1000Snapshot : DevSnapshots :=
  ⟨"e1000", 0x31220, 0x100000, 0x200000,
    vmstateE1000 (vmstatePciDevice 0x100 0x110 0x300) 0x800 0x1000 fun m _ => m⟩

/-- Mitigation on, and ones in the four delay registers and the pin level. -/
def e1000Memory : Memory := fun a =>
  if a = 0x31218 then 2
  else if a ∈ [0x3820#64, 0x382C#64, 0x482C#64, 0x10C4#64, 0x31211#64] then 1 else 0

/-- One byte that exists while the byte before it is not zero. -/
def flaggedSnapshot : DevSnapshots :=
  ⟨"flagged", 2, 16, 32, ⟨{ name := "flagged", versionId := 1 },
    [⟨{ offset := 1, size := 1, fieldExists := some fun m base _ => m base ≠ 0 }, none⟩], []⟩⟩

def flaggedMemory : Memory := fun a => if a < 2 then 1 else 0

/-! ## The flip and the stream -/

theorem deviceNapReset_byte {dss : List DevSnapshots} {name : String} {e : DevSnapshots}
    {base : U64} {m : Memory} (hfind : (dss.find? fun e => e.devname = name) = some e)
    (hptr : AllFields FieldLayout.NoPointer e.vmsd) (hapart : e.Apart base)
    (hfit : ∀ x ∈ accesses (liveState m base) (fun _ _ _ => true) e.vmsd 0#64,
      x.within e.bytes) {b : Nat} (hb : b < e.bytes) :
    (BitVec.ofNat 64 b ∈ (e.walk hapart m).restored e.vmsd 0#64 ∅ →
        deviceNapReset dss name base m (base + BitVec.ofNat 64 b) =
          m (base + BitVec.ofNat 64 b)) ∧
      (BitVec.ofNat 64 b ∉ (e.walk hapart m).restored e.vmsd 0#64 ∅ →
        deviceNapReset dss name base m (base + BitVec.ofNat 64 b) =
          m (e.snapshot + BitVec.ofNat 64 b)) := by
  rw [deviceNapReset, hfind]
  exact DevSnapshots.flipDevice_apply hapart (fun _ _ _ => true)
    (hptr.mono fun l hl => ⟨hl, fun _ _ _ _ => rfl⟩) hfit (DevSnapshots.ofNat_mem_inside hb)

/--
A saved byte survives just in case the walk restores it, testing each field on the
overwritten device, or the snapshot happens to agree with the live device there.
-/
theorem deviceNapReset_keepsSaved_iff {dss : List DevSnapshots} {name : String}
    {e : DevSnapshots} {base : U64} {m : Memory}
    (hfind : (dss.find? fun e => e.devname = name) = some e)
    (hptr : AllFields FieldLayout.NoPointer e.vmsd) (hapart : e.Apart base)
    (hfit : ∀ x ∈ accesses (liveState m base) (fun _ _ _ => true) e.vmsd 0#64,
      x.within e.bytes) :
    KeepsSaved e base m (deviceNapReset dss name base m) ↔
      ∀ b < e.bytes, savedByte e.vmsd base m b = true →
        BitVec.ofNat 64 b ∈ (e.walk hapart m).restored e.vmsd 0#64 ∅ ∨
          m (base + BitVec.ofNat 64 b) = m (e.snapshot + BitVec.ofNat 64 b) := by
  refine forall₃_congr fun b hb _ => ?_
  obtain ⟨hmem, hnot⟩ := deviceNapReset_byte hfind hptr hapart hfit hb
  by_cases hkept : BitVec.ofNat 64 b ∈ (e.walk hapart m).restored e.vmsd 0#64 ∅
  · exact iff_of_true (hmem hkept) (.inl hkept)
  · rw [hnot hkept]
    exact ⟨fun h => .inr h.symm, fun h => (h.resolve_left hkept).symm⟩

instance (e : DevSnapshots) (base : U64) (m m' : Memory) :
    Decidable (KeepsSaved e base m m') :=
  inferInstanceAs (Decidable (∀ b < e.bytes, _ → _))

theorem deviceNapReset_keepsSaved_iff_pairs :
    KeepsSaved pairsSnapshot 0 pairsMemory
        (deviceNapReset [pairsSnapshot] "pairs" 0 pairsMemory) ↔
      ∀ b < pairsSnapshot.bytes, savedByte pairsDescription 0 pairsMemory b = true →
        BitVec.ofNat 64 b ∈ (pairsSnapshot.walk pairsSnapshot_apart pairsMemory).restored
            pairsDescription 0#64 ∅ ∨
          pairsMemory (0 + BitVec.ofNat 64 b) = pairsMemory (16 + BitVec.ofNat 64 b) :=
  deviceNapReset_keepsSaved_iff rfl (pairsDescription_allFields.mono fun _ h => h.1)
    pairsSnapshot_apart (by decide)

/--
The registers and the pin level of the subsection do not survive, nor does a field
whose test reads a byte that the description leaves out.
-/
theorem deviceNapReset_not_keepsSaved :
    (∀ b ∈ [0x3820, 0x382C, 0x482C, 0x10C4, 0x31211],
      savedByte e1000Snapshot.vmsd 0 e1000Memory b = true ∧
        deviceNapReset [e1000Snapshot] "e1000" 0 e1000Memory (0 + BitVec.ofNat 64 b) ≠
          e1000Memory (0 + BitVec.ofNat 64 b)) ∧
      ¬ KeepsSaved flaggedSnapshot 0 flaggedMemory
        (deviceNapReset [flaggedSnapshot] "flagged" 0 flaggedMemory) := by
  constructor
  · decide +kernel
  · decide

end SE4VM.Disc
