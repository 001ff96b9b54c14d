import SE4VM.Disc.VMState

/-!
# The flip as a merge

Seen from the start of the device, the walk of `deviceLoadState` copies ranges of
offsets from the swap space to the same offsets of the device.  Its effect is the
overlay of the saved copy on the snapshot, at the offsets restored so far.
-/

namespace SE4VM.Disc

open SE4VM.Foundation
open SE4VM.Foundation.Memory (inside span overlay)

/-! ## What a description describes -/

def FieldLayout.cells (l : FieldLayout) : List (U64 × Nat) :=
  (if l.has vmsVbuffer then [(l.sizeOffset, 4)] else []) ++
    (if l.has vmsArray then []
    else if l.has vmsVarrayInt32 then [(l.numOffset, 4)]
    else if l.has vmsVarrayUint32 then [(l.numOffset, 4)]
    else if l.has vmsVarrayUint16 then [(l.numOffset, 2)]
    else if l.has vmsVarrayUint8 then [(l.numOffset, 1)]
    else [])

def FieldLayout.elemOffset (l : FieldLayout) (live : Memory) (δ : U64) (i : Nat) : U64 :=
  δ + l.offset + toSizeT (l.elemSize live δ * i)

/-- A block of the state that walking a description reads as a count or describes. -/
inductive Access where
  | cell (offset : U64) (n : Nat)
  | bytes (offset : U64) (n : Nat)
  deriving DecidableEq, Repr

def Access.within (k : Nat) : Access → Prop
  | cell o n => o.toNat + n ≤ k
  | bytes o n => o.toNat + n ≤ k

instance (k : Nat) : DecidablePred (Access.within k)
  | .cell _ _ => inferInstanceAs (Decidable (_ ≤ _))
  | .bytes _ _ => inferInstanceAs (Decidable (_ ≤ _))

abbrev Existence := FieldLayout → U64 → Int → Bool

section Accesses

variable (live : Memory) (ex : Existence)

mutual

def accesses : VMStateDescription → U64 → List Access
  | ⟨header, fields, _⟩, δ => fieldsAccesses fields header.versionId δ

def fieldsAccesses : List VMStateField → Int → U64 → List Access
  | [], _, _ => []
  | f :: fs, versionId, δ => fieldAccesses f versionId δ ++ fieldsAccesses fs versionId δ

def fieldAccesses : VMStateField → Int → U64 → List Access
  | ⟨l, vmsd⟩, versionId, δ =>
      if ex l δ versionId then
        l.cells.map (fun c => .cell (δ + c.1) c.2) ++
          (List.range (l.nElems live δ).toNat).flatMap fun i =>
            elemAccesses vmsd (l.elemOffset live δ i) (toSizeT (l.elemSize live δ)).toNat
      else []

def elemAccesses : Option VMStateDescription → U64 → Nat → List Access
  | some d, δ, _ => accesses d δ
  | none, δ, n => [.bytes δ n]

end

theorem accesses_eq (d : VMStateDescription) (δ : U64) :
    accesses live ex d δ =
      d.fields.flatMap fun f => fieldAccesses live ex f d.header.versionId δ := by
  have hfields : ∀ fs v, fieldsAccesses live ex fs v δ =
      fs.flatMap fun f => fieldAccesses live ex f v δ := by
    intro fs v
    induction fs with
    | nil => rfl
    | cons f fs ih => rw [fieldsAccesses, ih, List.flatMap_cons]
  cases d
  exact hfields _ _

end Accesses

def covered (xs : List Access) : Set U64 := {v | ∃ o n, Access.bytes o n ∈ xs ∧ v ∈ span o n}

theorem covered_append (xs ys : List Access) :
    covered (xs ++ ys) = covered xs ∪ covered ys := by
  ext v
  simp only [covered, List.mem_append, Set.mem_union, Set.mem_ofPred_eq, or_and_right,
    exists_or]

theorem foldl_covered {α : Type} {l : List α} {g : Set U64 → α → Set U64}
    {xs : α → List Access} (h : ∀ a ∈ l, ∀ V, g V a = V ∪ covered (xs a)) (V : Set U64) :
    l.foldl g V = V ∪ covered (l.flatMap xs) := by
  induction l generalizing V with
  | nil =>
      ext v
      simp [covered]
  | cons a l ih =>
      obtain ⟨ha, hl⟩ := List.forall_mem_cons.mp h
      rw [List.foldl_cons, ih hl, ha, List.flatMap_cons, covered_append, Set.union_assoc]

inductive AllFields (P : FieldLayout → Prop) : VMStateDescription → Prop
  | intro {d : VMStateDescription} (here : ∀ f ∈ d.fields, P f.layout)
      (nested : ∀ f ∈ d.fields, ∀ sub, f.vmsd = some sub → AllFields P sub) : AllFields P d

theorem AllFields.mono {P Q : FieldLayout → Prop} {d : VMStateDescription}
    (h : AllFields P d) (hPQ : ∀ l, P l → Q l) : AllFields Q d := by
  induction d using VMStateDescription.induction with
  | h d ih =>
      obtain ⟨here, nested⟩ := h
      exact .intro (fun f hf => hPQ _ (here f hf))
        fun f hf sub hsub => ih f hf sub hsub (nested f hf sub hsub)

def FieldLayout.NoPointer (l : FieldLayout) : Prop :=
  l.has vmsPointer = false ∧ l.has vmsArrayOfPointer = false

/-! ## Counts and sizes -/

section Congr

variable {l : FieldLayout} {m m' : Memory} {a a' : U64}
  (h : ∀ c ∈ l.cells, m.read (a + c.1) c.2 = m'.read (a' + c.1) c.2)

include h

theorem elemSize_congr : l.elemSize m a = l.elemSize m' a' := by
  simp only [FieldLayout.elemSize, readInt32, Memory.readWord]
  split_ifs with hbuf
  · rw [h (l.sizeOffset, 4) (by simp [FieldLayout.cells, hbuf])]
  · rw [h (l.sizeOffset, 4) (by simp [FieldLayout.cells, hbuf])]
  · rfl

theorem nElems_congr : l.nElems m a = l.nElems m' a' := by
  simp only [FieldLayout.nElems, readInt32, Memory.readWord]
  split_ifs with harr h32 hu32 h16 h8
  · rfl
  · rw [h (l.numOffset, 4) (by simp [FieldLayout.cells, harr, h32])]
  · rw [h (l.numOffset, 4) (by simp [FieldLayout.cells, harr, h32, hu32])]
  · rw [h (l.numOffset, 2) (by simp [FieldLayout.cells, harr, h32, hu32, h16])]
  · rw [h (l.numOffset, 1) (by simp [FieldLayout.cells, harr, h32, hu32, h16, h8])]
  · rfl

end Congr

/-! ## The walk on sets of offsets -/

structure Walk where
  mem : Memory
  dev : U64
  swap : U64
  live : Memory
  size : Nat
  size_le : size ≤ 2 ^ 64
  apart : Memory.Disjoint swap size dev size
  saved : ∀ v ∈ inside size, mem (swap + v) = live v

namespace Walk

variable (k : Walk)

noncomputable def view (V : Set U64) : Memory := overlay k.mem k.dev k.swap V

mutual

/-- The offsets restored after walking a description at offset `δ`, starting from `V`. -/
noncomputable def restored : VMStateDescription → U64 → Set U64 → Set U64
  | ⟨header, fields, _⟩, δ, V => restoredFields fields header.versionId δ V

noncomputable def restoredFields : List VMStateField → Int → U64 → Set U64 → Set U64
  | [], _, _, V => V
  | f :: fs, versionId, δ, V =>
      restoredFields fs versionId δ (restoredField f versionId δ V)

/-- A field is tested on the device as the walk has left it so far. -/
noncomputable def restoredField : VMStateField → Int → U64 → Set U64 → Set U64
  | ⟨l, vmsd⟩, versionId, δ, V =>
      if l.present (k.view V) (k.dev + δ) versionId then
        (List.range (l.nElems k.live δ).toNat).foldl (fun V i =>
          restoredElem vmsd (l.elemOffset k.live δ i)
            (toSizeT (l.elemSize k.live δ)).toNat V) V
      else V

noncomputable def restoredElem : Option VMStateDescription → U64 → Nat → Set U64 → Set U64
  | some d, δ, _, V => restored d δ V
  | none, δ, n, V => V ∪ span δ n

end

theorem restored_eq (d : VMStateDescription) (δ : U64) (V : Set U64) :
    k.restored d δ V =
      d.fields.foldl (fun V f => k.restoredField f d.header.versionId δ V) V := by
  have hfields : ∀ fs v V, k.restoredFields fs v δ V =
      fs.foldl (fun V f => k.restoredField f v δ V) V := by
    intro fs v V
    induction fs generalizing V with
    | nil => rfl
    | cons f fs ih => exact ih _
  cases d
  exact hfields _ _ _

def Shows (m : Memory) (V : Set U64) : Prop := m = k.view V ∧ V ⊆ inside k.size

theorem read_cell {V : Set U64} {o : U64} {n : Nat} (hV : V ⊆ inside k.size)
    (h : o.toNat + n ≤ k.size) : (k.view V).read (k.swap + o) n = k.live.read o n := by
  rw [view, Memory.read_overlay k.apart hV h k.size_le]
  refine Memory.read_congr fun i hi => ?_
  rw [BitVec.add_assoc]
  refine k.saved _ ?_
  show (o + BitVec.ofNat 64 i).toNat < k.size
  have := k.size_le
  rw [BitVec.toNat_add, BitVec.toNat_ofNat]
  omega

theorem read_cells {V : Set U64} {l : FieldLayout} {δ : U64} (hV : V ⊆ inside k.size)
    (hcells : ∀ c ∈ l.cells, (δ + c.1).toNat + c.2 ≤ k.size) :
    ∀ c ∈ l.cells, (k.view V).read (k.swap + δ + c.1) c.2 = k.live.read (δ + c.1) c.2 := by
  intro c hc
  rw [BitVec.add_assoc]
  exact k.read_cell hV (hcells c hc)

theorem loadElem_shows {vmsd : Option VMStateDescription} {δ : U64} {n : Nat} {m : Memory}
    {V : Set U64} (h : k.Shows m V) (hleaf : vmsd = none → δ.toNat + n ≤ k.size)
    (hsub : ∀ sub, vmsd = some sub → ∀ m V, k.Shows m V →
      k.Shows (deviceLoadState sub (k.dev + δ) (k.swap + δ) m) (k.restored sub δ V)) :
    k.Shows (loadElem vmsd (k.dev + δ) (k.swap + δ) n m) (k.restoredElem vmsd δ n V) := by
  cases vmsd with
  | some sub => exact hsub sub rfl m V h
  | none =>
      obtain ⟨rfl, hV⟩ := h
      have hfit := hleaf rfl
      exact ⟨Memory.copy_overlay_of_disjoint k.apart hV hfit k.size_le,
        Set.union_subset hV (Memory.span_subset_inside hfit k.size_le)⟩

theorem loadField_shows {ex : Existence} {f : VMStateField} {versionId : Int} {δ : U64}
    {m : Memory} {V : Set U64} (hptr : f.layout.NoPointer)
    (hex : ∀ V, f.layout.present (k.view V) (k.dev + δ) versionId = true →
      ex f.layout δ versionId = true)
    (hfit : ∀ x ∈ fieldAccesses k.live ex f versionId δ, x.within k.size)
    (hsub : ∀ sub, f.vmsd = some sub → ∀ δ',
      (∀ x ∈ accesses k.live ex sub δ', x.within k.size) → ∀ m V, k.Shows m V →
      k.Shows (deviceLoadState sub (k.dev + δ') (k.swap + δ') m) (k.restored sub δ' V))
    (h : k.Shows m V) :
    k.Shows (loadField f versionId (k.dev + δ) (k.swap + δ) m)
      (k.restoredField f versionId δ V) := by
  obtain ⟨l, vmsd⟩ := f
  obtain ⟨hpointer, harray⟩ : l.has vmsPointer = false ∧ l.has vmsArrayOfPointer = false := hptr
  obtain ⟨rfl, hV⟩ := h
  simp only [loadField, restoredField, hpointer, harray, Bool.false_eq_true, if_false]
  split_ifs with hpresent
  · have hin : ex l δ versionId = true := hex V hpresent
    simp only [fieldAccesses, hin, if_true, List.mem_append, List.mem_map, List.mem_flatMap,
      List.mem_range] at hfit
    have hcells := k.read_cells hV (l := l) fun c hc =>
      hfit (.cell (δ + c.1) c.2) (.inl ⟨c, hc, rfl⟩)
    rw [elemSize_congr hcells, nElems_congr hcells]
    refine List.foldl_rel ⟨rfl, hV⟩ fun i hi m V hmV => ?_
    have haddr : ∀ root : U64, root + δ + l.offset + toSizeT (l.elemSize k.live δ * i) =
        root + l.elemOffset k.live δ i := by
      intro root
      rw [FieldLayout.elemOffset, BitVec.add_assoc, BitVec.add_assoc, BitVec.add_assoc]
    simp only [haddr]
    have helem := fun x hx => hfit x (.inr ⟨i, List.mem_range.mp hi, hx⟩)
    refine k.loadElem_shows hmV ?_ fun sub hvmsd m V h => hsub sub hvmsd _ ?_ m V h
    · rintro rfl
      exact helem (.bytes _ _) (List.mem_singleton_self _)
    · subst hvmsd
      exact helem
  · exact ⟨rfl, hV⟩

theorem deviceLoadState_shows {ex : Existence} {d : VMStateDescription}
    (hall : AllFields (fun l => l.NoPointer ∧ ∀ V δ versionId,
      l.present (k.view V) (k.dev + δ) versionId = true → ex l δ versionId = true) d)
    {δ : U64} (hfit : ∀ x ∈ accesses k.live ex d δ, x.within k.size)
    {m : Memory} {V : Set U64} (h : k.Shows m V) :
    k.Shows (deviceLoadState d (k.dev + δ) (k.swap + δ) m) (k.restored d δ V) := by
  induction d using VMStateDescription.induction generalizing δ m V with
  | h d ih =>
      obtain ⟨here, nested⟩ := hall
      rw [deviceLoadState_eq, k.restored_eq]
      refine List.foldl_rel h fun f hf m V hmV => ?_
      refine k.loadField_shows (here f hf).1 (fun V => (here f hf).2 V δ _) ?_ ?_ hmV
      · exact fun x hx => hfit x (by
          rw [accesses_eq]
          exact List.mem_flatMap.mpr ⟨f, hf, hx⟩)
      · intro sub hvmsd δ' hfit' m V hmV
        exact ih f hf sub hvmsd (nested f hf sub hvmsd) hfit' hmV

theorem restoredField_eq {ex : Existence} {f : VMStateField} {versionId : Int} {δ : U64}
    (hex : ∀ V, f.layout.present (k.view V) (k.dev + δ) versionId =
      ex f.layout δ versionId)
    (hsub : ∀ sub, f.vmsd = some sub → ∀ δ' V,
      k.restored sub δ' V = V ∪ covered (accesses k.live ex sub δ'))
    (V : Set U64) :
    k.restoredField f versionId δ V = V ∪ covered (fieldAccesses k.live ex f versionId δ) := by
  obtain ⟨l, vmsd⟩ := f
  have helem : ∀ δ' n V, k.restoredElem vmsd δ' n V =
      V ∪ covered (elemAccesses k.live ex vmsd δ' n) := by
    intro δ' n V
    cases vmsd with
    | some sub => exact hsub sub rfl δ' V
    | none =>
        ext v
        simp [restoredElem, elemAccesses, covered]
  have hcells : covered (l.cells.map fun c => .cell (δ + c.1) c.2) = ∅ := by
    ext v
    simp [covered]
  have hpresent : l.present (k.view V) (k.dev + δ) versionId = ex l δ versionId := hex V
  simp only [restoredField, fieldAccesses, hpresent]
  split_ifs
  · rw [covered_append, hcells, Set.empty_union]
    exact foldl_covered (fun (i : Nat) _ V => helem (l.elemOffset k.live δ i) _ V) V
  · ext v
    simp [covered]

/-- With tests that do not look at the state, the walk restores what is described. -/
theorem restored_eq_covered {ex : Existence} {d : VMStateDescription}
    (hall : AllFields (fun l => ∀ V δ versionId,
      l.present (k.view V) (k.dev + δ) versionId = ex l δ versionId) d)
    (δ : U64) (V : Set U64) :
    k.restored d δ V = V ∪ covered (accesses k.live ex d δ) := by
  induction d using VMStateDescription.induction generalizing δ V with
  | h d ih =>
      obtain ⟨here, nested⟩ := hall
      rw [k.restored_eq, accesses_eq]
      refine foldl_covered (fun f hf V => ?_) V
      refine k.restoredField_eq (fun V => here f hf V δ _) ?_ V
      exact fun sub hvmsd δ' V => ih f hf sub hvmsd (nested f hf sub hvmsd) δ' V

end Walk

/-! ## The flip -/

def liveState (m : Memory) (base : U64) : Memory := fun v => m (base + v)

def existsOn (m : Memory) (base : U64) : Existence :=
  fun l δ versionId => l.present m (base + δ) versionId

def liveAccesses (d : VMStateDescription) (base : U64) (m : Memory) : List Access :=
  accesses (liveState m base) (existsOn m base) d 0#64

def describes (xs : List Access) (b : Nat) : Bool :=
  xs.any fun
    | .bytes o n => o.toNat ≤ b && b < o.toNat + n
    | .cell _ _ => false

theorem mem_covered_iff {xs : List Access} {k : Nat} (hk : k ≤ 2 ^ 64)
    (hfit : ∀ x ∈ xs, x.within k) {v : U64} :
    v ∈ covered xs ↔ describes xs v.toNat = true := by
  rw [describes, List.any_eq_true]
  constructor
  · rintro ⟨o, n, hx, hv⟩
    have hle : o.toNat + n ≤ k := hfit _ hx
    rw [Memory.mem_span_iff (by omega)] at hv
    exact ⟨_, hx, by simpa using hv⟩
  · rintro ⟨x, hx, hb⟩
    cases x with
    | cell o n => cases hb
    | bytes o n =>
        have hle : o.toNat + n ≤ k := hfit _ hx
        refine ⟨o, n, hx, ?_⟩
        rw [Memory.mem_span_iff (by omega)]
        simpa using hb

namespace DevSnapshots

variable (e : DevSnapshots) (base : U64) (m : Memory)

structure Apart : Prop where
  swap_dev : Memory.Disjoint e.swapspace e.bytes base e.bytes
  snap_swap : Memory.Disjoint e.snapshot e.bytes e.swapspace e.bytes

theorem bytes_lt : e.bytes < 2 ^ 64 := BitVec.isLt _

def overwritten : Memory :=
  (m.copy e.swapspace base e.bytes).copy base e.snapshot e.bytes

variable {e base m}

theorem overwritten_swap (h : e.Apart base) {v : U64} (hv : v ∈ inside e.bytes) :
    e.overwritten base m (e.swapspace + v) = m (base + v) := by
  have hout : e.bytes ≤ Memory.offset base (e.swapspace + v) := by
    have := h.swap_dev v.toNat hv
    rwa [BitVec.ofNat_toNat, BitVec.setWidth_eq] at this
  have hin : e.swapspace + v - e.swapspace = v := by
    rw [BitVec.add_comm, BitVec.add_sub_cancel]
  rw [overwritten, Memory.copy_apply_of_le _ hout,
    Memory.copy_apply_of_lt _ (by rw [Memory.offset, hin]; exact hv), hin]

theorem overwritten_dev (h : e.Apart base) {v : U64} (hv : v ∈ inside e.bytes) :
    e.overwritten base m (base + v) = m (e.snapshot + v) := by
  have hin : base + v - base = v := by
    rw [BitVec.add_comm, BitVec.add_sub_cancel]
  have hout : e.bytes ≤ Memory.offset e.swapspace (e.snapshot + v) := by
    have := h.snap_swap v.toNat hv
    rwa [BitVec.ofNat_toNat, BitVec.setWidth_eq] at this
  rw [overwritten, Memory.copy_apply_of_lt _ (by rw [Memory.offset, hin]; exact hv), hin,
    Memory.copy_apply_of_le _ hout]

def walk (h : e.Apart base) (m : Memory) : Walk where
  mem := e.overwritten base m
  dev := base
  swap := e.swapspace
  live := liveState m base
  size := e.bytes
  size_le := e.bytes_lt.le
  apart := h.swap_dev
  saved := fun _ hv => overwritten_swap h hv

theorem flipDevice_overlay (h : e.Apart base) (ex : Existence)
    (hall : AllFields (fun l => l.NoPointer ∧ ∀ V δ versionId,
      l.present ((e.walk h m).view V) (base + δ) versionId = true →
        ex l δ versionId = true) e.vmsd)
    (hfit : ∀ x ∈ accesses (liveState m base) ex e.vmsd 0#64, x.within e.bytes) :
    flipDevice e base m = overlay (e.overwritten base m) base e.swapspace
        ((e.walk h m).restored e.vmsd 0#64 ∅) ∧
      (e.walk h m).restored e.vmsd 0#64 ∅ ⊆ inside e.bytes := by
  have hstart : (e.walk h m).Shows (e.overwritten base m) ∅ :=
    ⟨Memory.overlay_empty.symm, Set.empty_subset _⟩
  have hshows := (e.walk h m).deviceLoadState_shows hall hfit hstart
  refine ⟨Eq.trans ?_ hshows.1, hshows.2⟩
  rw [BitVec.add_zero, BitVec.add_zero]
  rfl

/-- After the flip a byte is the live one if it was restored, and the snapshot's if not. -/
theorem flipDevice_apply (h : e.Apart base) (ex : Existence)
    (hall : AllFields (fun l => l.NoPointer ∧ ∀ V δ versionId,
      l.present ((e.walk h m).view V) (base + δ) versionId = true →
        ex l δ versionId = true) e.vmsd)
    (hfit : ∀ x ∈ accesses (liveState m base) ex e.vmsd 0#64, x.within e.bytes)
    {v : U64} (hv : v ∈ inside e.bytes) :
    (v ∈ (e.walk h m).restored e.vmsd 0#64 ∅ → flipDevice e base m (base + v) = m (base + v)) ∧
      (v ∉ (e.walk h m).restored e.vmsd 0#64 ∅ →
        flipDevice e base m (base + v) = m (e.snapshot + v)) := by
  have hin : base + v - base = v := by
    rw [BitVec.add_comm, BitVec.add_sub_cancel]
  rw [(flipDevice_overlay h ex hall hfit).1]
  constructor
  · intro hmem
    rw [Memory.overlay_of_mem (by rwa [hin]), hin]
    exact overwritten_swap h hv
  · intro hmem
    rw [Memory.overlay_of_notMem (by rwa [hin])]
    exact overwritten_dev h hv

end DevSnapshots

/-- The test is absent, or its answer depends on the version only. -/
def FieldLayout.VersionOnly (l : FieldLayout) : Prop :=
  ∀ m m' a a' versionId, l.present m a versionId = l.present m' a' versionId

theorem flipDevice_merge {e : DevSnapshots} {base : U64} {m : Memory}
    (hall : AllFields (fun l => l.NoPointer ∧ l.VersionOnly) e.vmsd) (hapart : e.Apart base)
    (hfit : ∀ x ∈ liveAccesses e.vmsd base m, x.within e.bytes) {v : U64}
    (hv : v ∈ inside e.bytes) :
    flipDevice e base m (base + v) =
      if describes (liveAccesses e.vmsd base m) v.toNat then m (base + v)
      else m (e.snapshot + v) := by
  have hkept : v ∈ (e.walk hapart m).restored e.vmsd 0#64 ∅ ↔
      describes (liveAccesses e.vmsd base m) v.toNat = true := by
    have hsame : AllFields (fun l => ∀ V δ versionId, l.present ((e.walk hapart m).view V)
        (base + δ) versionId = existsOn m base l δ versionId) e.vmsd :=
      hall.mono fun l hl V δ versionId => hl.2 _ _ _ _ _
    rw [(e.walk hapart m).restored_eq_covered hsame, Set.empty_union]
    exact mem_covered_iff e.bytes_lt.le hfit
  obtain ⟨hmem, hnot⟩ := DevSnapshots.flipDevice_apply hapart (existsOn m base)
    (hall.mono fun l hl => ⟨hl.1, fun V δ versionId h => (hl.2 _ _ _ _ _).trans h⟩) hfit hv
  split_ifs with hdesc
  · exact hmem (hkept.mpr hdesc)
  · exact hnot fun h => hdesc (hkept.mp h)

theorem DevSnapshots.toNat_ofNat {e : DevSnapshots} {b : Nat} (hb : b < e.bytes) :
    (BitVec.ofNat 64 b).toNat = b := by
  have hlt := e.bytes_lt
  rw [BitVec.toNat_ofNat, Nat.mod_eq_of_lt (by omega)]

theorem DevSnapshots.ofNat_mem_inside {e : DevSnapshots} {b : Nat} (hb : b < e.bytes) :
    BitVec.ofNat 64 b ∈ inside e.bytes :=
  lt_of_eq_of_lt (toNat_ofNat hb) hb

/-! ## A device with an array of structures -/

def pairDescription : VMStateDescription :=
  ⟨{ name := "pair", versionId := 1 }, [⟨{ offset := 0, size := 1 }, none⟩], []⟩

/-- A count, that many pairs from byte 2 on, and a byte that only version 1 had. -/
def pairsDescription : VMStateDescription :=
  ⟨{ name := "pairs", versionId := 2 },
    [⟨{ offset := 0, size := 1 }, none⟩,
     ⟨{ offset := 2, size := 2, flags := vmsVarrayUint8, numOffset := 0 },
       some pairDescription⟩,
     ⟨{ offset := 1, size := 1, fieldExists := some fun _ _ versionId => versionId == 1 },
       none⟩], []⟩

def pairsSnapshot : DevSnapshots := ⟨"pairs", 8, 16, 32, pairsDescription⟩

def pairsMemory : Memory := fun a => if a < 8 then 2 else 0

theorem pairsSnapshot_apart : pairsSnapshot.Apart 0 := ⟨by decide, by decide⟩

theorem pairsDescription_allFields :
    AllFields (fun l => l.NoPointer ∧ l.VersionOnly) pairsDescription := by
  have hpair : AllFields (fun l => l.NoPointer ∧ l.VersionOnly) pairDescription := by
    refine .intro (fun f hf => ?_) fun f hf sub hsub => ?_
    · obtain rfl := List.mem_singleton.mp hf
      exact ⟨⟨rfl, rfl⟩, fun _ _ _ _ _ => rfl⟩
    · obtain rfl := List.mem_singleton.mp hf
      cases hsub
  refine .intro (fun f hf => ?_) fun f hf sub hsub => ?_
  · simp only [pairsDescription, VMStateDescription.fields, List.mem_cons,
      List.not_mem_nil, or_false] at hf
    rcases hf with rfl | rfl | rfl <;> exact ⟨⟨rfl, rfl⟩, fun _ _ _ _ _ => rfl⟩
  · simp only [pairsDescription, VMStateDescription.fields, List.mem_cons,
      List.not_mem_nil, or_false] at hf
    rcases hf with rfl | rfl | rfl <;> cases hsub
    exact hpair

/-! ## The merge -/

/--
A flip merges the live device and its snapshot byte by byte: the described bytes
stay, all others are the snapshot's.
-/
theorem deviceNapReset_merge {dss : List DevSnapshots} {name : String} {e : DevSnapshots}
    {base : U64} {m : Memory} (hfind : (dss.find? fun e => e.devname = name) = some e)
    (hall : AllFields (fun l => l.NoPointer ∧ l.VersionOnly) e.vmsd) (hapart : e.Apart base)
    (hfit : ∀ x ∈ liveAccesses e.vmsd base m, x.within e.bytes) {b : Nat}
    (hb : b < e.bytes) :
    deviceNapReset dss name base m (base + BitVec.ofNat 64 b) =
      if describes (liveAccesses e.vmsd base m) b then m (base + BitVec.ofNat 64 b)
      else m (e.snapshot + BitVec.ofNat 64 b) := by
  rw [deviceNapReset, hfind]
  dsimp only
  rw [flipDevice_merge hall hapart hfit (DevSnapshots.ofNat_mem_inside hb),
    DevSnapshots.toNat_ofNat hb]

theorem deviceNapReset_merge_pairs :
    deviceNapReset [pairsSnapshot] "pairs" 0 pairsMemory (0 + BitVec.ofNat 64 4) =
      if describes (liveAccesses pairsDescription 0 pairsMemory) 4 then
        pairsMemory (0 + BitVec.ofNat 64 4)
      else pairsMemory (16 + BitVec.ofNat 64 4) :=
  deviceNapReset_merge (e := pairsSnapshot) rfl pairsDescription_allFields
    pairsSnapshot_apart (by decide) (by decide)

example : describes (liveAccesses pairsDescription 0 pairsMemory) 4 = true := by decide

example : describes (liveAccesses pairsDescription 0 pairsMemory) 5 = false := by decide

end SE4VM.Disc
