import SE4VM.Disc.Handlers
import SE4VM.Disc.Registry

/-!
# The bounds of the flip

`device_nap_reset` trusts its entry: `statesize` for the device and for both buffers,
and the description for everything the walk reads and writes.  Here the walk is run
with every access checked and every list of fields looked for.
-/

namespace SE4VM.Disc

open SE4VM.Foundation

/-! ## The checked walk -/

section Checked

variable (ok : U64 → Nat → Bool)

def loadEach (l : FieldLayout) (versionId : Int) (base swapspace : U64)
    (elem : U64 → U64 → Nat → Memory → Option Memory) (m : Memory) : Option Memory :=
  if l.present m base versionId then
    if l.cells.all (fun c => ok (swapspace + c.1) c.2) &&
        (!l.has vmsPointer || ok (swapspace + l.offset) 8) then
      let size := l.elemSize m swapspace
      let swapBaseAddr := swapspace + l.offset
      let swapBaseAddr :=
        if l.has vmsPointer then readPointer m swapBaseAddr + l.start else swapBaseAddr
      (List.range (l.nElems m swapspace).toNat).foldlM (fun m (i : Nat) =>
        let addr := base + l.offset + toSizeT (size * i)
        let swapAddr := swapBaseAddr + toSizeT (size * i)
        if l.has vmsArrayOfPointer then
          if ok swapAddr 8 then elem addr (readPointer m swapAddr) (toSizeT size).toNat m
          else none
        else elem addr swapAddr (toSizeT size).toNat m) m
    else none
  else some m

def checkedCopy (addr swapAddr : U64) (n : Nat) (m : Memory) : Option Memory :=
  if ok addr n && ok swapAddr n then some (m.copy addr swapAddr n) else none

mutual

/-- `device_load_state`; nothing if it leaves the permitted ranges or misses a list. -/
def loadDeclared : Declaration → U64 → U64 → Memory → Option Memory
  | ⟨header, fields, _⟩, base, swapspace, m =>
      loadDeclaredList fields header.versionId base swapspace m

def loadDeclaredList : Option (List DeclaredField) → Int → U64 → U64 → Memory → Option Memory
  | none, _, _, _, _ => none
  | some fs, versionId, base, swapspace, m => loadDeclaredFields fs versionId base swapspace m

def loadDeclaredFields : List DeclaredField → Int → U64 → U64 → Memory → Option Memory
  | [], _, _, _, m => some m
  | f :: fs, versionId, base, swapspace, m =>
      (loadDeclaredField f versionId base swapspace m).bind
        (loadDeclaredFields fs versionId base swapspace)

def loadDeclaredField : DeclaredField → Int → U64 → U64 → Memory → Option Memory
  | .info l _, versionId, base, swapspace, m =>
      loadEach ok l versionId base swapspace (checkedCopy ok) m
  | .struct l d, versionId, base, swapspace, m =>
      loadEach ok l versionId base swapspace
        (fun addr swapAddr _ m => loadDeclared d addr swapAddr m) m

end

def flipDeclared (e : DevSnapshots) (d : Declaration) (base : U64) (m : Memory) :
    Option Memory :=
  if ok e.swapspace e.bytes && ok base e.bytes && ok e.snapshot e.bytes then
    loadDeclared ok d base e.swapspace (e.overwritten base m)
  else none

end Checked

/-! ## A walk that stays inside -/

/-- Every description, at any depth, has its list of fields. -/
inductive Listed : Declaration → Prop
  | intro {d : Declaration} {fs : List DeclaredField} (list : d.fields = some fs)
      (nested : ∀ l sub, .struct l sub ∈ fs → Listed sub) : Listed d

theorem foldlM_eq_some {α β : Type} {f : β → α → Option β} {g : β → α → β} (Inv : β → Prop)
    {l : List α} (h : ∀ a ∈ l, ∀ b, Inv b → f b a = some (g b a) ∧ Inv (g b a)) {b : β}
    (hb : Inv b) : l.foldlM f b = some (l.foldl g b) := by
  induction l generalizing b with
  | nil => rfl
  | cons a l ih =>
      obtain ⟨ha, hl⟩ := List.forall_mem_cons.mp h
      obtain ⟨hstep, hinv⟩ := ha b hb
      rw [List.foldlM_cons, hstep, List.foldl_cons]
      exact ih hl hinv

namespace Walk

variable (k : Walk) {ok : U64 → Nat → Bool} {ex : Existence}

/-- The walk may go wherever offsets are below the size of its blocks. -/
def Permits (ok : U64 → Nat → Bool) : Prop :=
  ∀ (δ : U64) (n : Nat), δ.toNat + n ≤ k.size → ok (k.dev + δ) n = true ∧ ok (k.swap + δ) n = true

def Shown (m : Memory) : Prop := ∃ V, k.Shows m V

variable {k}

theorem loadEach_eq {l : FieldLayout} (vmsd : Option VMStateDescription) {versionId : Int} {δ : U64}
    {elem : U64 → U64 → Nat → Memory → Option Memory} {m : Memory} (hok : k.Permits ok)
    (hptr : l.NoPointer)
    (hex : ∀ V, l.present (k.view V) (k.dev + δ) versionId = true → ex l δ versionId = true)
    (hfit : ∀ x ∈ fieldAccesses k.live ex ⟨l, vmsd⟩ versionId δ, x.within k.size)
    (helem : ∀ δ' n m, (∀ x ∈ elemAccesses k.live ex vmsd δ' n, x.within k.size) → k.Shown m →
      elem (k.dev + δ') (k.swap + δ') n m = some (loadElem vmsd (k.dev + δ') (k.swap + δ') n m) ∧
        k.Shown (loadElem vmsd (k.dev + δ') (k.swap + δ') n m))
    (h : k.Shown m) :
    loadEach ok l versionId (k.dev + δ) (k.swap + δ) elem m =
      some (loadField ⟨l, vmsd⟩ versionId (k.dev + δ) (k.swap + δ) m) := by
  obtain ⟨V, rfl, hV⟩ := h
  obtain ⟨hpointer, harray⟩ := hptr
  simp only [loadEach, loadField, hpointer, harray, Bool.false_eq_true, if_false, Bool.not_false,
    Bool.true_or, Bool.and_true]
  cases hpresent : l.present (k.view V) (k.dev + δ) versionId with
  | false => rfl
  | true =>
      simp only [fieldAccesses, hex V hpresent, if_true, List.mem_append, List.mem_map,
        List.mem_flatMap, List.mem_range] at hfit
      have hin : ∀ c ∈ l.cells, (δ + c.1).toNat + c.2 ≤ k.size := fun c hc =>
        hfit (.cell (δ + c.1) c.2) (.inl ⟨c, hc, rfl⟩)
      have hchecks : l.cells.all (fun c => ok (k.swap + δ + c.1) c.2) = true := by
        refine List.all_eq_true.mpr fun c hc => ?_
        rw [BitVec.add_assoc]
        exact (hok _ _ (hin c hc)).2
      have hcells := k.read_cells hV hin
      have haddr : ∀ (root : U64) (i : Nat),
          root + δ + l.offset + toSizeT (l.elemSize k.live δ * i) =
            root + l.elemOffset k.live δ i := by
        intro root i
        rw [FieldLayout.elemOffset, BitVec.add_assoc, BitVec.add_assoc, BitVec.add_assoc]
      simp only [hchecks, if_true, elemSize_congr hcells, nElems_congr hcells, haddr]
      refine foldlM_eq_some k.Shown (fun i hi m hm => ?_) ⟨V, rfl, hV⟩
      exact helem _ _ m (fun x hx => hfit x (.inr ⟨i, List.mem_range.mp hi, hx⟩)) hm

theorem checkedCopy_eq (hok : k.Permits ok) {δ : U64} {n : Nat} {m : Memory}
    (hfit : ∀ x ∈ elemAccesses k.live ex none δ n, x.within k.size) (h : k.Shown m) :
    checkedCopy ok (k.dev + δ) (k.swap + δ) n m =
        some (loadElem none (k.dev + δ) (k.swap + δ) n m) ∧
      k.Shown (loadElem none (k.dev + δ) (k.swap + δ) n m) := by
  have hin : δ.toNat + n ≤ k.size := hfit (.bytes δ n) (List.mem_singleton_self _)
  obtain ⟨hdev, hswap⟩ := hok δ n hin
  obtain ⟨V, hV⟩ := h
  refine ⟨?_, _, k.loadElem_shows hV (fun _ => hin) fun sub hsub => by cases hsub⟩
  rw [checkedCopy, hdev, hswap]
  rfl

theorem loadDeclaredFields_eq {fs : List DeclaredField} {versionId : Int} {base swapspace : U64}
    {m : Memory}
    (h : ∀ f ∈ fs, ∀ m, k.Shown m →
      loadDeclaredField ok f versionId base swapspace m =
          some (loadField f.toVMState versionId base swapspace m) ∧
        k.Shown (loadField f.toVMState versionId base swapspace m))
    (hm : k.Shown m) :
    loadDeclaredFields ok fs versionId base swapspace m =
      some (loadFields (fieldsToVMState fs) versionId base swapspace m) := by
  induction fs generalizing m with
  | nil => rfl
  | cons f fs ih =>
      obtain ⟨hf, hfs⟩ := List.forall_mem_cons.mp h
      obtain ⟨hload, hshown⟩ := hf m hm
      rw [loadDeclaredFields, hload, Option.bind_some, ih hfs hshown, fieldsToVMState, loadFields]

/-- Inside its blocks and with all its lists, the checked walk is the walk. -/
theorem loadDeclared_eq {d : Declaration} (hlist : Listed d) (hok : k.Permits ok)
    (hall : AllFields (fun l => l.NoPointer ∧ ∀ V δ versionId,
      l.present (k.view V) (k.dev + δ) versionId = true → ex l δ versionId = true) d.toVMState)
    {δ : U64} (hfit : ∀ x ∈ accesses k.live ex d.toVMState δ, x.within k.size) {m : Memory}
    (h : k.Shown m) :
    loadDeclared ok d (k.dev + δ) (k.swap + δ) m =
      some (deviceLoadState d.toVMState (k.dev + δ) (k.swap + δ) m) := by
  induction d using Declaration.induction generalizing δ m with
  | h d ih =>
      obtain ⟨list, nested⟩ := hlist
      rename_i fs
      obtain ⟨header, fields, subs⟩ := d
      obtain rfl : fields = some fs := list
      obtain ⟨here, deeper⟩ := hall
      -- the walk shows some set of restored offsets before and after every field
      refine loadDeclaredFields_eq (fun f hf m hm => ?_) h
      have hmem : f.toVMState ∈ fieldsToVMState fs := by
        rw [fieldsToVMState_eq]
        exact List.mem_map_of_mem hf
      have hin : ∀ x ∈ fieldAccesses k.live ex f.toVMState header.versionId δ,
          x.within k.size := fun x hx => hfit x (by
        rw [accesses_eq]
        exact List.mem_flatMap.mpr ⟨_, hmem, hx⟩)
      obtain ⟨hptr, hex⟩ := here _ hmem
      have hsub : ∀ sub, f.toVMState.vmsd = some sub → ∀ δ',
          (∀ x ∈ accesses k.live ex sub δ', x.within k.size) → ∀ m V, k.Shows m V →
          k.Shows (deviceLoadState sub (k.dev + δ') (k.swap + δ') m) (k.restored sub δ' V) :=
        fun sub hvmsd δ' hfit' m V hV =>
          k.deviceLoadState_shows (deeper _ hmem sub hvmsd) hfit' hV
      obtain ⟨V, hV⟩ := hm
      refine ⟨?_, _, k.loadField_shows hptr (fun V => hex V δ _) hin hsub hV⟩
      cases f with
      | info l put =>
          exact loadEach_eq none hok hptr (fun V => hex V δ _) hin
            (fun δ' n m => checkedCopy_eq hok) ⟨V, hV⟩
      | struct l sub =>
          rw [loadDeclaredField, DeclaredField.toVMState]
          refine loadEach_eq (some sub.toVMState) hok hptr (fun V => hex V δ _) hin
            (fun δ' n m hin' hm' => ?_) ⟨V, hV⟩
          obtain ⟨V', hV'⟩ := hm'
          exact ⟨ih fs rfl l sub hf (nested l sub hf) (deeper _ hmem _ rfl) hin' ⟨V', hV'⟩,
            _, hsub _ rfl δ' hin' m V' hV'⟩

end Walk

/-! ## Objects and buffers -/

def holds (objects : List (U64 × Nat)) (p : U64) (n : Nat) : Bool :=
  objects.any fun o => Memory.offset o.1 p + n ≤ o.2

def inBuffer (objects : List (U64 × Nat)) (p : U64) (size : Nat) (a : U64) (n : Nat) : Bool :=
  holds objects p size && decide (Memory.offset p a + n ≤ size)

namespace DevSnapshots

variable (e : DevSnapshots)

def inBuffers (objects : List (U64 × Nat)) (base a : U64) (n : Nat) : Bool :=
  inBuffer objects base e.statesize.toNat a n ||
    inBuffer objects e.snapshot e.statesize.toNat a n ||
    inBuffer objects e.swapspace e.statesize.toNat a n

variable {e} {objects : List (U64 × Nat)} {base a : U64} {n : Nat}

theorem exists_of_inBuffers (h : e.inBuffers objects base a n = true) :
    ∃ p, holds objects p e.statesize.toNat = true ∧
      Memory.offset p a + n ≤ e.statesize.toNat := by
  simp only [inBuffers, inBuffer, Bool.or_eq_true, Bool.and_eq_true, decide_eq_true_eq] at h
  rcases h with (h | h) | h
  · exact ⟨_, h⟩
  · exact ⟨_, h⟩
  · exact ⟨_, h⟩

/-- `int sz` takes the size as it is, unless its top bit is set. -/
theorem bytes_eq (h : e.statesize.toNat < 2 ^ 31) : e.bytes = e.statesize.toNat := by
  rw [bytes, toSizeT, BitVec.toInt_eq_toNat_of_lt (by omega)]
  simp only [BitVec.ofInt_natCast, BitVec.toNat_ofNat]
  omega

theorem statesize_lt (h : e.bytes ≤ e.statesize.toNat) : e.statesize.toNat < 2 ^ 31 := by
  by_contra hbig
  have hlt := e.statesize.isLt
  rw [bytes, toSizeT, BitVec.toInt_eq_toNat_cond, if_neg (by omega), BitVec.toNat_ofInt] at h
  omega

end DevSnapshots

/-! ## The descriptions of the e1000 -/

def declaredLeaf (put : PutHandler) (f : VMStateField) : DeclaredField := .info f.layout put

def declaredE1000 (pci : Declaration) (sizeofPci macReg : U64) (preSave : Memory → U64 → Memory) :
    Declaration :=
  ⟨{ name := "e1000", versionId := 2, preSave := some preSave },
    some (.struct { offset := 0, size := sizeofPci } pci ::
      .info { offset := 0, size := 4, fieldExists := some isVersion1 } putUnusedBuffer ::
      .info { offset := 0, size := 4 } putUnusedBuffer ::
      ((vmstateE1000 pci.toVMState sizeofPci macReg preSave).fields.drop 3).map
        (declaredLeaf putBuffer)),
    [⟨⟨{ name := "e1000/mit_state", versionId := 1 },
        some ((vmstateE1000MitState macReg).fields.map (declaredLeaf putBuffer)), []⟩,
      mitStateNeeded macReg⟩]⟩

theorem toVMState_declaredE1000 (pci : Declaration) (sizeofPci macReg : U64)
    (preSave : Memory → U64 → Memory) :
    (declaredE1000 pci sizeofPci macReg preSave).toVMState =
      vmstateE1000 pci.toVMState sizeofPci macReg preSave := rfl

theorem listed_declaredE1000 {pci : Declaration} (h : Listed pci) (sizeofPci macReg : U64)
    (preSave : Memory → U64 → Memory) : Listed (declaredE1000 pci sizeofPci macReg preSave) := by
  refine .intro rfl fun l sub hmem => ?_
  simp only [List.mem_cons, List.mem_map, declaredLeaf, reduceCtorEq, and_false, exists_false,
    or_false, DeclaredField.struct.injEq] at hmem
  rw [hmem.2]
  exact h

theorem FieldLayout.noPointer {l : FieldLayout} (h : l.flags = 0 ∨ l.flags = vmsArray) :
    l.NoPointer := by
  rcases h with h | h
  · simp only [NoPointer, has, h]
    decide
  · simp only [NoPointer, has, h]
    decide

theorem noPointer_vmstatePciDevice (versionId config irqState : U64) :
    AllFields FieldLayout.NoPointer (vmstatePciDevice versionId config irqState) := by
  have hleaf : ∀ f ∈ (vmstatePciDevice versionId config irqState).fields,
      f.layout.NoPointer ∧ f.vmsd = none := by
    simp only [vmstatePciDevice, VMStateDescription.fields, List.forall_mem_cons]
    exact ⟨⟨FieldLayout.noPointer (.inl rfl), rfl⟩, ⟨FieldLayout.noPointer (.inl rfl), rfl⟩,
      ⟨FieldLayout.noPointer (.inl rfl), rfl⟩, fun _ h => absurd h List.not_mem_nil⟩
  refine .intro (fun f hf => (hleaf f hf).1) fun f hf sub hsub => ?_
  rw [(hleaf f hf).2] at hsub
  cases hsub

theorem noPointer_vmstateE1000 {pci : VMStateDescription} (h : AllFields FieldLayout.NoPointer pci)
    (sizeofPci macReg : U64) (preSave : Memory → U64 → Memory) :
    AllFields FieldLayout.NoPointer (vmstateE1000 pci sizeofPci macReg preSave) := by
  have hsingle : ∀ o n, (single o n).layout.NoPointer ∧ (single o n).vmsd = none :=
    fun _ _ => ⟨FieldLayout.noPointer (.inl rfl), rfl⟩
  have harray : ∀ o n k, (array o n k).layout.NoPointer ∧ (array o n k).vmsd = none :=
    fun _ _ _ => ⟨FieldLayout.noPointer (.inr rfl), rfl⟩
  have htail : ∀ f ∈ (vmstateE1000 pci sizeofPci macReg preSave).fields.tail,
      f.layout.NoPointer ∧ f.vmsd = none := by
    simp only [vmstateE1000, VMStateDescription.fields, List.cons_append, List.tail_cons,
      List.nil_append, List.forall_mem_cons, List.forall_mem_append, List.forall_mem_map, regField,
      hsingle, harray, and_true, true_and, implies_true]
    exact ⟨⟨FieldLayout.noPointer (.inl rfl), rfl⟩, fun _ h => absurd h List.not_mem_nil⟩
  refine .intro (fun f hf => ?_) fun f hf sub hsub => ?_
  · rcases List.mem_cons.mp hf with rfl | hf
    · exact FieldLayout.noPointer (.inl rfl)
    · exact (htail f hf).1
  · rcases List.mem_cons.mp hf with rfl | hf
    · cases hsub
      exact h
    · rw [(htail f hf).2] at hsub
      cases hsub

def kleePciDevice : Declaration := ⟨{ name := "PCIDevice", versionId := 2 }, none, []⟩

/-- `g_dss[0]`, as `main` of the harness fills it in. -/
def kleeEntry (sizeofPci : U32) (macReg : U64) (preSave : Memory → U64 → Memory) : DevSnapshots :=
  ⟨"e1000", sizeofPci, 0, 0,
    (declaredE1000 kleePciDevice (sizeofPci.setWidth 64) macReg preSave).toVMState⟩

/-! ## Entries of the table -/

inductive Installer where
  | deviceSnapshot
  | kleeMain
  deriving DecidableEq, Repr

/--
Who has put the entry into the table, for the device at `base` whose state is a
structure of `size` bytes.  `malloc` hands out objects of their own.
-/
inductive Installed (objects : List (U64 × Nat)) :
    Installer → DevSnapshots → Declaration → (base : U64) → (size : Nat) → Prop
  | deviceSnapshot {dev : Device} {allocs : Allocs} {s : Machine} {d : Declaration} {entry : Entry}
      (vmsd : dev.spec.vmsd = d.toVMState) (listed : Listed d)
      (device : (dev.base, dev.spec.instanceSize.toNat) ∈ objects)
      (snapshot : ∀ p ∈ allocs.snapshot, (p, dev.spec.instanceSize.toNat) ∈ objects)
      (swapspace : ∀ p ∈ allocs.swapspace, (p, dev.spec.instanceSize.toNat) ∈ objects)
      (apart : ∀ p ∈ allocs.snapshot, ∀ q ∈ allocs.swapspace,
        Memory.Disjoint q dev.spec.instanceSize.toNat dev.base dev.spec.instanceSize.toNat ∧
          Memory.Disjoint p dev.spec.instanceSize.toNat q dev.spec.instanceSize.toNat)
      (added : (Disc.deviceSnapshot dev allocs s).dss = s.dss ++ [entry]) :
      Installed objects .deviceSnapshot entry.toDevSnapshots d dev.base
        dev.spec.instanceSize.toNat
  | kleeMain {base : U64} {size : Nat} {sizeofPci : U32} {macReg : U64}
      {preSave : Memory → U64 → Memory} (device : (base, size) ∈ objects)
      (pci : 0 < sizeofPci.toInt) :
      Installed objects .kleeMain (kleeEntry sizeofPci macReg preSave)
        (declaredE1000 kleePciDevice (sizeofPci.setWidth 64) macReg preSave) base size

structure FieldsInside (d : Declaration) (base : U64) (m : Memory) (size : Nat) : Prop where
  direct : AllFields FieldLayout.NoPointer d.toVMState
  inside : ∀ x ∈ accesses (liveState m base) (fun _ _ _ => true) d.toVMState 0#64, x.within size

theorem deviceSnapshot_entry {dev : Device} {allocs : Allocs} {s : Machine} {entry : Entry}
    (h : (deviceSnapshot dev allocs s).dss = s.dss ++ [entry]) :
    ∃ snapshot swapspace, allocs = ⟨some snapshot, some swapspace⟩ ∧
      entry.toDevSnapshots = ⟨dev.spec.vmsd.header.name, dev.spec.instanceSize, snapshot,
        swapspace, dev.spec.vmsd⟩ := by
  have hnone : s.dss ≠ s.dss ++ [entry] := fun heq => by
    have := congrArg List.length heq
    simp at this
  obtain ⟨snapshot, swapspace⟩ := allocs
  rw [deviceSnapshot] at h
  split_ifs at h
  · exact absurd h hnone
  · cases snapshot with
    | none => exact absurd h hnone
    | some snapshot =>
        cases swapspace with
        | none => exact absurd h hnone
        | some swapspace =>
            have hlast := List.append_cancel_left h
            obtain rfl := List.singleton_inj.mp hlast
            exact ⟨snapshot, swapspace, rfl, rfl⟩

theorem flipDeclared_eq {objects : List (U64 × Nat)} {e : DevSnapshots} {d : Declaration}
    {base : U64} {m : Memory} (hsmall : e.statesize.toNat < 2 ^ 31) (hlist : Listed d)
    (hdev : (base, e.statesize.toNat) ∈ objects) (hsnap : (e.snapshot, e.statesize.toNat) ∈ objects)
    (hswap : (e.swapspace, e.statesize.toNat) ∈ objects) (hapart : e.Apart base)
    (hfields : FieldsInside d base m e.statesize.toNat) (hd : e.vmsd = d.toVMState) :
    flipDeclared (e.inBuffers objects base) e d base m = some (flipDevice e base m) := by
  have hbytes := e.bytes_eq hsmall
  have hwhole : ∀ p, (p, e.statesize.toNat) ∈ objects → ∀ (δ : U64) (n : Nat),
      δ.toNat + n ≤ e.bytes → inBuffer objects p e.statesize.toNat (p + δ) n = true := by
    intro p hp δ n hle
    rw [inBuffer, Bool.and_eq_true, decide_eq_true_eq, Memory.offset, BitVec.add_comm,
      BitVec.add_sub_cancel, ← hbytes]
    refine ⟨List.any_eq_true.mpr ⟨_, hp, ?_⟩, hle⟩
    rw [Memory.offset, BitVec.sub_self]
    exact decide_eq_true (by rw [hbytes]; simp)
  have hstart : ∀ p, (p, e.statesize.toNat) ∈ objects →
      inBuffer objects p e.statesize.toNat p e.bytes = true := by
    intro p hp
    have := hwhole p hp 0#64 e.bytes (by simp)
    rwa [BitVec.add_zero] at this
  have hpermits : (e.walk hapart m).Permits (e.inBuffers objects base) := by
    intro δ n hle
    simp only [DevSnapshots.inBuffers, Bool.or_eq_true]
    exact ⟨.inl (.inl (hwhole base hdev δ n hle)), .inr (hwhole e.swapspace hswap δ n hle)⟩
  have hload : loadDeclared (e.inBuffers objects base) d base e.swapspace
      (e.overwritten base m) = some (flipDevice e base m) := by
    have heq := Walk.loadDeclared_eq (δ := 0#64) hlist hpermits
      (hfields.direct.mono fun l hl => ⟨hl, fun _ _ _ _ => rfl⟩)
      (fun x hx => (congrArg (Access.within · x) hbytes).mpr (hfields.inside x hx))
      ⟨∅, Memory.overlay_empty.symm, Set.empty_subset _⟩
    rw [BitVec.add_zero, BitVec.add_zero, ← hd] at heq
    exact heq
  rw [flipDeclared, hload]
  simp only [DevSnapshots.inBuffers, hstart _ hdev, hstart _ hsnap, hstart _ hswap, Bool.or_true,
    Bool.true_or, Bool.and_self, if_true]

theorem offset_le_add (a b c : U64) :
    Memory.offset a c ≤ Memory.offset a b + Memory.offset b c := by
  simp only [Memory.offset]
  bv_omega

theorem null_outside {objects : List (U64 × Nat)} (hnull : ∀ o ∈ objects, o.2 ≤ Memory.offset o.1 0)
    {p : U64} {size n : Nat} (hholds : holds objects p size = true)
    (hle : Memory.offset p 0 + n ≤ size) : n = 0 := by
  obtain ⟨o, ho, hobject⟩ := List.any_eq_true.mp hholds
  have hobject := of_decide_eq_true hobject
  have hzero := hnull o ho
  have hvia := offset_le_add o.1 p 0
  omega

theorem bytes_kleeEntry {sizeofPci : U32} {macReg : U64} {preSave : Memory → U64 → Memory}
    (h : 0 < sizeofPci.toInt) : 0 < (kleeEntry sizeofPci macReg preSave).bytes := by
  have hlt : sizeofPci.toInt < 2 ^ 31 := BitVec.toInt_lt
  change 0 < (BitVec.ofInt 64 sizeofPci.toInt).toNat
  rw [BitVec.toNat_ofInt]
  omega

theorem isSome_flipDeclared_bytes {objects : List (U64 × Nat)} {e : DevSnapshots} {d : Declaration}
    {base : U64} {m : Memory}
    (h : (flipDeclared (e.inBuffers objects base) e d base m).isSome = true) :
    ∃ p, holds objects p e.statesize.toNat = true ∧
      Memory.offset p e.swapspace + e.bytes ≤ e.statesize.toNat := by
  rw [flipDeclared] at h
  split_ifs at h with hok
  · rw [Bool.and_eq_true, Bool.and_eq_true] at hok
    exact DevSnapshots.exists_of_inBuffers hok.1.1
  · cases h

/-- The flip stays in its buffers just in case `device_snapshot` has made its entry. -/
theorem flip_stays_inside_iff {objects : List (U64 × Nat)} {who : Installer} {e : DevSnapshots}
    {d : Declaration} {base : U64} {size : Nat} {m : Memory}
    (hnull : ∀ o ∈ objects, o.2 ≤ Memory.offset o.1 0)
    (hentry : Installed objects who e d base size) (hfields : FieldsInside d base m size) :
    (flipDeclared (e.inBuffers objects base) e d base m).isSome = true ↔
      who = .deviceSnapshot ∧ e.statesize.toNat < 2 ^ 31 := by
  constructor
  · intro hsome
    obtain ⟨p, hholds, hle⟩ := isSome_flipDeclared_bytes hsome
    have hsmall := e.statesize_lt (by omega)
    refine ⟨?_, hsmall⟩
    cases hentry with
    | deviceSnapshot => rfl
    | kleeMain device pci =>
        -- the swap space would be at address 0
        exact absurd (null_outside hnull hholds hle) (bytes_kleeEntry pci).ne'
  · rintro ⟨rfl, hsmall⟩
    cases hentry with
    | deviceSnapshot vmsd listed device snapshot swapspace apart added =>
        obtain ⟨p, q, rfl, hentry⟩ := deviceSnapshot_entry added
        generalize Entry.toDevSnapshots _ = e at *
        subst hentry
        obtain ⟨hswap, hsnap⟩ := apart p rfl q rfl
        have hbytes := DevSnapshots.bytes_eq hsmall
        rw [flipDeclared_eq hsmall listed device (snapshot p rfl) (swapspace q rfl) ?_ hfields vmsd]
        · rfl
        · exact ⟨by rw [hbytes]; exact hswap, by rw [hbytes]; exact hsnap⟩

/-! ## The entry of QEMU and the entry of the harness -/

def e1000Declaration (pci : Declaration) : Declaration :=
  declaredE1000 pci 0x800 0x1000 fun m _ => m

def e1000Device : Device :=
  ⟨0, ⟨"e1000", true, 0x8086, 0x100e, 0x31220,
    (e1000Declaration (declaredPciDevice 0x100 0x110 0x304 0x301)).toVMState⟩, 0x400000⟩

def e1000Objects : List (U64 × Nat) :=
  [(0x400000, 0x31220), (0x100000, 0x31220), (0x200000, 0x31220)]

def e1000Entry : Entry :=
  ⟨⟨"e1000", 0x31220, 0x100000, 0x200000, e1000Device.spec.vmsd⟩, 0⟩

theorem installed_e1000Entry :
    Installed e1000Objects .deviceSnapshot e1000Entry.toDevSnapshots
      (e1000Declaration (declaredPciDevice 0x100 0x110 0x304 0x301)) 0x400000 0x31220 := by
  have hlisted : Listed (e1000Declaration (declaredPciDevice 0x100 0x110 0x304 0x301)) := by
    refine listed_declaredE1000 (.intro rfl fun l sub hmem => ?_) _ _ _
    simp at hmem
  refine @Installed.deviceSnapshot e1000Objects e1000Device ⟨some 0x100000, some 0x200000⟩
    (Machine.start Memory.blank) _ e1000Entry rfl hlisted (.head _) ?_ ?_ ?_ rfl
  · rintro p ⟨⟩
    exact .tail _ (.head _)
  · rintro p ⟨⟩
    exact .tail _ (.tail _ (.head _))
  · rintro p ⟨⟩ q ⟨⟩
    exact ⟨Memory.disjoint_of_le (by decide) (by decide) (by decide),
      Memory.disjoint_of_le (by decide) (by decide) (by decide)⟩

theorem flip_stays_inside_e1000 :
    (flipDeclared (e1000Entry.toDevSnapshots.inBuffers e1000Objects 0x400000)
      e1000Entry.toDevSnapshots (e1000Declaration (declaredPciDevice 0x100 0x110 0x304 0x301))
      0x400000 Memory.blank).isSome = true := by
  refine (flip_stays_inside_iff (by decide) installed_e1000Entry
    ⟨?_, by decide +kernel⟩).mpr ⟨rfl, by decide⟩
  rw [e1000Declaration, toVMState_declaredE1000, toVMState_declaredPciDevice]
  exact noPointer_vmstateE1000 (noPointer_vmstatePciDevice _ _ _) _ _ _

def kleeObjects : List (U64 × Nat) := [(0x400000, 0x31220)]

/--
The harness has neither a snapshot nor a swap space, and gives the size of the PCI
device for that of the whole.  With buffers and size put right, the walk would still
look for the fields of the PCI device.
-/
theorem flip_leaves_buffers :
    Installed kleeObjects .kleeMain (kleeEntry 0x800 0x1000 fun m _ => m)
        (e1000Declaration kleePciDevice) 0x400000 0x31220 ∧
      FieldsInside (e1000Declaration kleePciDevice) 0x400000 Memory.blank 0x31220 ∧
      flipDeclared ((kleeEntry 0x800 0x1000 fun m _ => m).inBuffers kleeObjects 0x400000)
        (kleeEntry 0x800 0x1000 fun m _ => m) (e1000Declaration kleePciDevice) 0x400000
        Memory.blank = none ∧
      flipDeclared (fun _ _ => true)
        { kleeEntry 0x800 0x1000 fun m _ => m with
          statesize := 0x31220, snapshot := 0x100000, swapspace := 0x200000 }
        (e1000Declaration kleePciDevice) 0x400000 Memory.blank = none := by
  have hpci : AllFields FieldLayout.NoPointer kleePciDevice.toVMState :=
    .intro (fun f hf => absurd hf List.not_mem_nil) fun f hf => absurd hf List.not_mem_nil
  exact ⟨.kleeMain (.head _) (by decide), ⟨noPointer_vmstateE1000 hpci _ _ _, by decide +kernel⟩,
    rfl, rfl⟩

end SE4VM.Disc
