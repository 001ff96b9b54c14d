import SE4VM.Foundation.Copies
import SE4VM.Disc.LoadState

/-!
# Pointer fields under the flip

For a field behind a pointer `device_load_state` follows the pointer of the saved
copy only, and copies what it finds there over the device from the pointer's own
slot on.  The pointers survive if there is nothing to copy, or if it equals what
the snapshot has from the slot on.
-/

namespace SE4VM.Disc

open SE4VM.Foundation
open SE4VM.Foundation.Copy (replay)
open SE4VM.Foundation.Memory (inside span)

/-! ## The copies of a walk -/

/-- Where element `i` is copied from: `m` is the memory at the field, `m'` at the element. -/
def FieldLayout.swapAddr (l : FieldLayout) (m m' : Memory) (swapspace : U64) (size : Int)
    (i : Nat) : U64 :=
  let swapBaseAddr := swapspace + l.offset
  let swapBaseAddr :=
    if l.has vmsPointer then readPointer m swapBaseAddr + l.start else swapBaseAddr
  let swapAddr := swapBaseAddr + toSizeT (size * i)
  if l.has vmsArrayOfPointer then readPointer m' swapAddr else swapAddr

mutual

def loadCopies : VMStateDescription → U64 → U64 → Memory → List Copy
  | ⟨header, fields, _⟩, base, swapspace, m =>
      fieldsCopies fields header.versionId base swapspace m

def fieldsCopies : List VMStateField → Int → U64 → U64 → Memory → List Copy
  | [], _, _, _, _ => []
  | f :: fs, versionId, base, swapspace, m =>
      let cs := fieldCopies f versionId base swapspace m
      cs ++ fieldsCopies fs versionId base swapspace (replay cs m)

def fieldCopies : VMStateField → Int → U64 → U64 → Memory → List Copy
  | ⟨l, vmsd⟩, versionId, base, swapspace, m =>
      if l.present m base versionId then
        let size := l.elemSize m swapspace
        (List.range (l.nElems m swapspace).toNat).foldl (fun cs (i : Nat) =>
          cs ++ elemCopies vmsd (base + l.offset + toSizeT (size * i))
            (l.swapAddr m (replay cs m) swapspace size i) (toSizeT size).toNat
            (replay cs m)) []
      else []

def elemCopies : Option VMStateDescription → U64 → U64 → Nat → Memory → List Copy
  | some d, addr, swapAddr, _, m => loadCopies d addr swapAddr m
  | none, addr, swapAddr, size, _ => [⟨addr, swapAddr, size⟩]

end

theorem replay_fieldsCopies {fs : List VMStateField} {versionId : Int} {base swapspace : U64}
    (h : ∀ f ∈ fs, ∀ m, replay (fieldCopies f versionId base swapspace m) m =
      loadField f versionId base swapspace m) (m : Memory) :
    replay (fieldsCopies fs versionId base swapspace m) m =
      loadFields fs versionId base swapspace m := by
  induction fs generalizing m with
  | nil => rfl
  | cons f fs ih =>
      obtain ⟨hf, hfs⟩ := List.forall_mem_cons.mp h
      rw [fieldsCopies, Copy.replay_append, hf, ih hfs, loadFields]

theorem replay_fieldCopies {f : VMStateField}
    (hsub : ∀ sub, f.vmsd = some sub → ∀ base swapspace m,
      replay (loadCopies sub base swapspace m) m = deviceLoadState sub base swapspace m)
    (versionId : Int) (base swapspace : U64) (m : Memory) :
    replay (fieldCopies f versionId base swapspace m) m =
      loadField f versionId base swapspace m := by
  obtain ⟨l, vmsd⟩ := f
  have helem : ∀ addr swapAddr n m, replay (elemCopies vmsd addr swapAddr n m) m =
      loadElem vmsd addr swapAddr n m := by
    intro addr swapAddr n m
    cases vmsd with
    | some sub => exact hsub sub rfl addr swapAddr m
    | none => rfl
  simp only [fieldCopies, loadField]
  cases l.present m base versionId with
  | false => rfl
  | true =>
      -- the copies so far, replayed, are the memory so far
      refine List.foldl_rel (r := fun cs m' => replay cs m = m') rfl fun i _ cs m' hcs => ?_
      subst hcs
      rw [Copy.replay_append, helem]
      rfl

theorem replay_loadCopies (d : VMStateDescription) (base swapspace : U64) (m : Memory) :
    replay (loadCopies d base swapspace m) m = deviceLoadState d base swapspace m := by
  induction d using VMStateDescription.induction generalizing base swapspace m with
  | h d ih =>
      obtain ⟨header, fields, subs⟩ := d
      exact replay_fieldsCopies (fun f hf m => replay_fieldCopies
        (fun sub hsub base swapspace m => ih f hf sub hsub base swapspace m) _ _ _ m) m

/-! ## Visits of pointer fields -/

/-- A field, and the state in which the walk comes to it. -/
structure Visit where
  field : VMStateField
  versionId : Int
  base : U64
  swapspace : U64
  before : Memory

mutual

/-- The visits of pointer fields that lie in the device, nested structures included. -/
def pointerVisits : VMStateDescription → U64 → U64 → Memory → List Visit
  | ⟨header, fields, _⟩, base, swapspace, m =>
      fieldsVisits fields header.versionId base swapspace m

def fieldsVisits : List VMStateField → Int → U64 → U64 → Memory → List Visit
  | [], _, _, _, _ => []
  | f :: fs, versionId, base, swapspace, m =>
      fieldVisits f versionId base swapspace m ++
        fieldsVisits fs versionId base swapspace (loadField f versionId base swapspace m)

def fieldVisits : VMStateField → Int → U64 → U64 → Memory → List Visit
  | ⟨l, vmsd⟩, versionId, base, swapspace, m =>
      if l.present m base versionId then
        if l.has vmsPointer || l.has vmsArrayOfPointer then
          [⟨⟨l, vmsd⟩, versionId, base, swapspace, m⟩]
        else
          let size := l.elemSize m swapspace
          ((List.range (l.nElems m swapspace).toNat).foldl (fun st (i : Nat) =>
            let addr := base + l.offset + toSizeT (size * i)
            let swapAddr := swapspace + l.offset + toSizeT (size * i)
            (loadElem vmsd addr swapAddr (toSizeT size).toNat st.1,
              st.2 ++ elemVisits vmsd addr swapAddr st.1)) (m, [])).2
      else []

def elemVisits : Option VMStateDescription → U64 → U64 → Memory → List Visit
  | some d, addr, swapAddr, m => pointerVisits d addr swapAddr m
  | none, _, _, _ => []

end

namespace Visit

variable (v : Visit)

def after : Memory := loadField v.field v.versionId v.base v.swapspace v.before

def copies : List Copy := fieldCopies v.field v.versionId v.base v.swapspace v.before

def slots : List U64 :=
  let l := v.field.layout
  if l.has vmsPointer then [v.base + l.offset]
  else (List.range (l.nElems v.before v.swapspace).toNat).map fun (i : Nat) =>
    v.base + l.offset + toSizeT (l.elemSize v.before v.swapspace * i)

def OutsideSlots (x : U64) : Prop := ∀ p ∈ v.slots, 8 ≤ Memory.offset p x

theorem replay_copies : replay v.copies v.before = v.after :=
  replay_fieldCopies (fun sub _ base swapspace m => replay_loadCopies sub base swapspace m) _ _ _ _

end Visit

def DevSnapshots.pointerVisits (e : DevSnapshots) (base : U64) (m : Memory) : List Visit :=
  Disc.pointerVisits e.vmsd base e.swapspace (e.overwritten base m)

/-! ## Pointers that survive -/

/--
The field's pointers are the live or the snapshot's ones, what they point to is as it
was before the flip, and on the field's behalf nothing else of the device has changed.
-/
structure Visit.Kept (e : DevSnapshots) (base : U64) (m m' : Memory) (v : Visit) : Prop where
  slot : ∀ p ∈ v.slots, readPointer m' p = readPointer m p ∨
    readPointer m' p = readPointer m (e.snapshot + (p - base))
  pointee : ∀ c ∈ v.copies, ∀ j < c.n,
    m' (c.src + BitVec.ofNat 64 j) = m (c.src + BitVec.ofNat 64 j)
  outside : ∀ b < e.bytes, v.OutsideSlots (base + BitVec.ofNat 64 b) →
    v.after (base + BitVec.ofNat 64 b) = v.before (base + BitVec.ofNat 64 b)

def PointersKept (e : DevSnapshots) (base : U64) (m m' : Memory) : Prop :=
  ∀ v ∈ e.pointerVisits base m, v.Kept e base m m'

/-! ## The data of a pointer field -/

/-- A block that some plain field describes or reads, or a field behind pointers. -/
inductive Place where
  | plain (a : Access)
  | pointer (f : VMStateField) (δ : U64)

section Places

variable (live : Memory)

mutual

/-- The places of a device, with the counts and sizes that the live state has. -/
def places : VMStateDescription → U64 → List Place
  | ⟨_, fields, _⟩, δ => fieldsPlaces fields δ

def fieldsPlaces : List VMStateField → U64 → List Place
  | [], _ => []
  | f :: fs, δ => fieldPlaces f δ ++ fieldsPlaces fs δ

def fieldPlaces : VMStateField → U64 → List Place
  | ⟨l, vmsd⟩, δ =>
      if l.has vmsPointer || l.has vmsArrayOfPointer then [.pointer ⟨l, vmsd⟩ δ]
      else
        l.cells.map (fun c => .plain (.cell (δ + c.1) c.2)) ++
          (List.range (l.nElems live δ).toNat).flatMap fun i =>
            elemPlaces vmsd (l.elemOffset live δ i) (toSizeT (l.elemSize live δ)).toNat

def elemPlaces : Option VMStateDescription → U64 → Nat → List Place
  | some d, δ, _ => places d δ
  | none, δ, n => [.plain (.bytes δ n)]

end

theorem mem_fieldsPlaces {fs : List VMStateField} {f : VMStateField} {δ : U64} {p : Place}
    (hf : f ∈ fs) (hp : p ∈ fieldPlaces live f δ) : p ∈ fieldsPlaces live fs δ := by
  induction fs with
  | nil => simp at hf
  | cons g fs ih =>
      rcases List.mem_cons.mp hf with rfl | hf
      · exact List.mem_append_left _ hp
      · exact List.mem_append_right _ (ih hf)

end Places

namespace FieldLayout

variable (l : FieldLayout) (live : Memory) (δ : U64)

def slotOffsets : List U64 :=
  if l.has vmsPointer then [δ + l.offset]
  else (List.range (l.nElems live δ).toNat).map (l.elemOffset live δ)

/-- The array that a `VMS_POINTER` field points to, at element `i`. -/
def arrayAt (i : Nat) : U64 :=
  readPointer live (δ + l.offset) + l.start + toSizeT (l.elemSize live δ * i)

/-- Where element `i` is, in the memory `m` with the live device. -/
def target (m : Memory) (i : Nat) : U64 :=
  if l.has vmsPointer then
    if l.has vmsArrayOfPointer then readPointer m (l.arrayAt live δ i) else l.arrayAt live δ i
  else readPointer live (l.elemOffset live δ i)

end FieldLayout

section Spared

variable (e : DevSnapshots) (base : U64) (m : Memory)

def DevSnapshots.Outside (a : U64) (n : Nat) : Prop :=
  Memory.Disjoint a n base e.bytes ∧ Memory.Disjoint a n e.swapspace e.bytes

/-- The offsets that plain fields describe, tests or not. -/
def plainOffsets : Set U64 :=
  {v | ∃ o n, Place.plain (.bytes o n) ∈ places (liveState m base) e.vmsd 0#64 ∧ v ∈ span o n}

/--
An element of `n` bytes at `t` does no harm at offset `o` of the device: it lies
outside, and its bytes are those that the snapshot has from `o` on.
-/
structure ElemSpared (vmsd : Option VMStateDescription) (t o : U64) (n : Nat) : Prop where
  room : o.toNat + n ≤ e.bytes
  apart : e.Outside base t n
  hidden : ∀ v ∈ span o n, v ∉ plainOffsets e base m
  same : ∀ j < n,
    m (t + BitVec.ofNat 64 j) = m (e.snapshot + (o + BitVec.ofNat 64 j))
  inner : ∀ sub, vmsd = some sub → AllFields FieldLayout.NoPointer sub ∧
    ∀ x ∈ accesses (fun v => m (t + v)) (fun _ _ _ => true) sub 0#64, x.within n

theorem ElemSpared.size_le {e : DevSnapshots} {base : U64} {m : Memory}
    {vmsd : Option VMStateDescription} {t o : U64} {n : Nat}
    (h : ElemSpared e base m vmsd t o n) : n ≤ 2 ^ 64 := by
  have hroom := h.room
  have hlt := e.bytes_lt
  omega

/--
A pointer field does no harm: no plain field describes its slots, and each element
behind it is spared.  With a count of zero there is no element.
-/
structure FieldSpared (f : VMStateField) (δ : U64) : Prop where
  cells : ∀ c ∈ f.layout.cells, (δ + c.1).toNat + c.2 ≤ e.bytes
  slots : ∀ o ∈ f.layout.slotOffsets (liveState m base) δ,
    o.toNat + 8 ≤ e.bytes ∧ ∀ v ∈ span o 8, v ∉ plainOffsets e base m
  array : f.layout.has vmsPointer = true → f.layout.has vmsArrayOfPointer = true →
    ∀ i < (f.layout.nElems (liveState m base) δ).toNat,
      e.Outside base (f.layout.arrayAt (liveState m base) δ i) 8
  elems : ∀ i < (f.layout.nElems (liveState m base) δ).toNat,
    ElemSpared e base m f.vmsd (f.layout.target (liveState m base) δ m i)
      (f.layout.elemOffset (liveState m base) δ i)
      (toSizeT (f.layout.elemSize (liveState m base) δ)).toNat

def Place.Spared : Place → Prop
  | plain a => a.within e.bytes
  | pointer f δ => FieldSpared e base m f δ

def PointersSpared : Prop :=
  ∀ p ∈ places (liveState m base) e.vmsd 0#64, p.Spared e base m

end Spared

/-! ## Copies that bring equal bytes -/

theorem forall_mem_fieldsCopies {m : Memory} {P : Copy → Prop} (hP : ∀ c, P c → c.Still m)
    {fs : List VMStateField} {versionId : Int} {base swapspace : U64}
    (h : ∀ f ∈ fs, ∀ c ∈ fieldCopies f versionId base swapspace m, P c) :
    ∀ c ∈ fieldsCopies fs versionId base swapspace m, P c := by
  induction fs with
  | nil => simp [fieldsCopies]
  | cons f fs ih =>
      obtain ⟨hf, hfs⟩ := List.forall_mem_cons.mp h
      intro c hc
      rw [fieldsCopies, Copy.replay_of_still fun c hc => hP c (hf c hc)] at hc
      rcases List.mem_append.mp hc with hc | hc
      · exact hf c hc
      · exact ih hfs c hc

/-- The copy goes from one block to the same offsets of the other. -/
def Along (dst src : U64) (n : Nat) (c : Copy) : Prop :=
  ∃ o : U64, c.dst = dst + o ∧ c.src = src + o ∧ o.toNat + c.n ≤ n

section Along

variable {m : Memory} {dst src : U64} {n : Nat}
  (hsame : ∀ v ∈ inside n, m (dst + v) = m (src + v)) (hn : n ≤ 2 ^ 64)

theorem add_mem_inside {o : U64} {k j : Nat} (hle : o.toNat + k ≤ n) (hn : n ≤ 2 ^ 64)
    (hj : j < k) : o + BitVec.ofNat 64 j ∈ inside n := by
  show (o + BitVec.ofNat 64 j).toNat < n
  rw [BitVec.toNat_add, BitVec.toNat_ofNat]
  omega

include hsame hn

theorem Along.still {c : Copy} (h : Along dst src n c) : c.Still m := by
  obtain ⟨o, hdst, hsrc, hle⟩ := h
  intro j hj
  rw [hdst, hsrc, BitVec.add_assoc, BitVec.add_assoc]
  exact hsame _ (add_mem_inside hle hn hj)

variable {live : Memory} (hlive : ∀ v ∈ inside n, m (src + v) = live v)

include hlive

theorem fieldCopies_along {f : VMStateField} (hptr : f.layout.NoPointer) {δ : U64}
    {versionId : Int}
    (hfit : ∀ x ∈ fieldAccesses live (fun _ _ _ => true) f versionId δ, x.within n)
    (hsub : ∀ sub, f.vmsd = some sub → ∀ δ',
      (∀ x ∈ accesses live (fun _ _ _ => true) sub δ', x.within n) →
      ∀ c ∈ loadCopies sub (dst + δ') (src + δ') m, Along dst src n c) :
    ∀ c ∈ fieldCopies f versionId (dst + δ) (src + δ) m, Along dst src n c := by
  obtain ⟨l, vmsd⟩ := f
  obtain ⟨hpointer, harray⟩ : l.has vmsPointer = false ∧ l.has vmsArrayOfPointer = false := hptr
  simp only [fieldAccesses, if_true, List.mem_append, List.mem_map, List.mem_flatMap,
    List.mem_range] at hfit
  simp only [fieldCopies, FieldLayout.swapAddr, hpointer, harray, Bool.false_eq_true, if_false]
  split_ifs
  · have hcells : ∀ c ∈ l.cells, m.read (src + δ + c.1) c.2 = live.read (δ + c.1) c.2 := by
      intro c hc
      have hcell : (δ + c.1).toNat + c.2 ≤ n := hfit (.cell _ _) (.inl ⟨c, hc, rfl⟩)
      refine Memory.read_congr fun j hj => ?_
      rw [BitVec.add_assoc, BitVec.add_assoc, ← BitVec.add_assoc δ]
      exact hlive _ (add_mem_inside hcell hn hj)
    rw [elemSize_congr hcells, nElems_congr hcells]
    have haddr : ∀ (root : U64) (i : Nat), root + δ + l.offset +
        toSizeT (l.elemSize live δ * i) = root + l.elemOffset live δ i := by
      intro root i
      rw [FieldLayout.elemOffset, BitVec.add_assoc, BitVec.add_assoc, BitVec.add_assoc]
    simp only [haddr]
    refine Copy.forall_mem_foldl (P := Along dst src n) (fun c hc => hc.still hsame hn)
      (g := fun m' i => elemCopies vmsd (dst + l.elemOffset live δ i)
        (src + l.elemOffset live δ i) (toSizeT (l.elemSize live δ)).toNat m') fun i hi => ?_
    have helem := fun x hx => hfit x (.inr ⟨i, List.mem_range.mp hi, hx⟩)
    cases vmsd with
    | some sub => exact hsub sub rfl _ helem
    | none =>
        intro c hc
        obtain rfl := List.mem_singleton.mp hc
        exact ⟨_, rfl, rfl, helem (.bytes _ _) (List.mem_singleton_self _)⟩
  · simp

theorem loadCopies_along {d : VMStateDescription} (hall : AllFields FieldLayout.NoPointer d)
    {δ : U64} (hfit : ∀ x ∈ accesses live (fun _ _ _ => true) d δ, x.within n) :
    ∀ c ∈ loadCopies d (dst + δ) (src + δ) m, Along dst src n c := by
  induction d using VMStateDescription.induction generalizing δ with
  | h d ih =>
      obtain ⟨here, nested⟩ := hall
      obtain ⟨header, fields, subs⟩ := d
      refine forall_mem_fieldsCopies (fun c hc => hc.still hsame hn) fun f hf => ?_
      refine fieldCopies_along hsame hn hlive (here f hf) ?_ fun sub hsub δ' hfit' =>
        ih f hf sub hsub (nested f hf sub hsub) hfit'
      exact fun x hx => hfit x (by
        rw [accesses_eq]
        exact List.mem_flatMap.mpr ⟨f, hf, hx⟩)

end Along

/-! ## The walk around spared pointers -/

namespace DevSnapshots

variable {e : DevSnapshots} {base : U64} {m : Memory} (h : e.Apart base)

theorem view_walk (V : Set U64) :
    (e.walk h m).view V = Memory.overlay (e.overwritten base m) base e.swapspace V := rfl

theorem view_outside {V : Set U64} (hV : V ⊆ inside e.bytes) {a : U64} {n : Nat}
    (ha : e.Outside base a n) {j : Nat} (hj : j < n) :
    (e.walk h m).view V (a + BitVec.ofNat 64 j) = m (a + BitVec.ofNat 64 j) := by
  obtain ⟨hdev, hswap⟩ := ha
  have hnot : a + BitVec.ofNat 64 j - base ∉ V := fun hmem =>
    Nat.not_lt.mpr (hdev j hj) (hV hmem)
  rw [view_walk, Memory.overlay_of_notMem hnot, overwritten, Memory.copy_apply_of_le _ (hdev j hj),
    Memory.copy_apply_of_le _ (hswap j hj)]

theorem view_dev {V : Set U64} {v : U64} (hv : v ∈ inside e.bytes) (hnot : v ∉ V) :
    (e.walk h m).view V (base + v) = m (e.snapshot + v) := by
  have hin : base + v - base = v := by
    rw [BitVec.add_comm, BitVec.add_sub_cancel]
  rw [view_walk, Memory.overlay_of_notMem (show base + v - base ∉ V by rwa [hin])]
  exact overwritten_dev h hv

theorem readPointer_congr {m m' : Memory} {a a' : U64}
    (h : ∀ j < 8, m (a + BitVec.ofNat 64 j) = m' (a' + BitVec.ofNat 64 j)) :
    readPointer m a = readPointer m' a' := by
  rw [readPointer, readPointer, Memory.readWord, Memory.readWord, Memory.read_congr h]

theorem add_mem_span {o : U64} {n j : Nat} (hn : n ≤ 2 ^ 64) (hj : j < n) :
    o + BitVec.ofNat 64 j ∈ span o n := by
  show Memory.offset o (o + BitVec.ofNat 64 j) < n
  rw [Memory.offset_self_add, Nat.mod_eq_of_lt (by omega)]
  exact hj

section Field

variable {l : FieldLayout} {vmsd : Option VMStateDescription} {δ : U64}
  (hf : FieldSpared e base m ⟨l, vmsd⟩ δ)
  (hptr : (l.has vmsPointer || l.has vmsArrayOfPointer) = true)
  {V : Set U64} (hV : V ⊆ inside e.bytes)

include hV

theorem readPointer_swap {o : U64} (ho : o.toNat + 8 ≤ e.bytes) :
    readPointer ((e.walk h m).view V) (e.swapspace + o) =
      readPointer (liveState m base) o := by
  rw [readPointer, readPointer, Memory.readWord, Memory.readWord]
  exact congrArg _ (congrArg _ ((e.walk h m).read_cell hV ho))

include hf hptr

theorem target_view {i : Nat} (hi : i < (l.nElems (liveState m base) δ).toNat) :
    l.swapAddr ((e.walk h m).view V) ((e.walk h m).view V) (e.swapspace + δ)
      (l.elemSize (liveState m base) δ) i = l.target (liveState m base) δ m i := by
  rw [FieldLayout.swapAddr]
  cases hp : l.has vmsPointer with
  | true =>
      have hslot : (δ + l.offset).toNat + 8 ≤ e.bytes :=
        (hf.slots (δ + l.offset) (by simp [FieldLayout.slotOffsets, VMStateField.layout, hp])).1
      simp only [if_true, FieldLayout.target, hp]
      rw [BitVec.add_assoc e.swapspace, readPointer_swap h hV hslot]
      split_ifs with ha
      · exact readPointer_congr fun j hj => view_outside h hV (hf.array hp ha i hi) hj
      · rfl
  | false =>
      have ha : l.has vmsArrayOfPointer = true := by
        rwa [hp, Bool.false_or] at hptr
      have hmem : l.elemOffset (liveState m base) δ i ∈
          l.slotOffsets (liveState m base) δ := by
        rw [FieldLayout.slotOffsets, if_neg (by rw [hp]; decide)]
        exact List.mem_map_of_mem (List.mem_range.mpr hi)
      have hoffset : e.swapspace + δ + l.offset + toSizeT (l.elemSize (liveState m base) δ * i) =
          e.swapspace + l.elemOffset (liveState m base) δ i := by
        rw [FieldLayout.elemOffset, BitVec.add_assoc, BitVec.add_assoc, BitVec.add_assoc]
      simp only [FieldLayout.target, hp, ha, if_true, Bool.false_eq_true, if_false]
      rw [hoffset]
      exact readPointer_swap h hV (hf.slots _ hmem).1

end Field

section Elem

variable {vmsd : Option VMStateDescription} {t o : U64} {n : Nat}
  (hx : ElemSpared e base m vmsd t o n) {V : Set U64} (hV : V ⊆ inside e.bytes)
  (hplain : V ⊆ plainOffsets e base m)

include hx hV hplain

theorem elem_same : ∀ v ∈ inside n, (e.walk h m).view V (base + o + v) =
    (e.walk h m).view V (t + v) := by
  intro v hv
  have hlt : v.toNat < n := hv
  have hn := hx.size_le
  have hsrc := view_outside (m := m) h hV hx.apart hlt
  have hsame := hx.same v.toNat hlt
  have hin := add_mem_inside hx.room e.bytes_lt.le hlt
  have hspan := add_mem_span (o := o) hn hlt
  rw [BitVec.ofNat_toNat, BitVec.setWidth_eq] at hsrc hsame hin hspan
  rw [hsrc, hsame, BitVec.add_assoc]
  exact view_dev h hin fun hmem => hx.hidden _ hspan (hplain hmem)

theorem elemCopies_along :
    ∀ c ∈ elemCopies vmsd (base + o) t n ((e.walk h m).view V), Along (base + o) t n c := by
  have hn := hx.size_le
  cases vmsd with
  | none =>
      intro c hc
      obtain rfl := List.mem_singleton.mp hc
      exact ⟨0#64, (BitVec.add_zero _).symm, (BitVec.add_zero _).symm, by simp⟩
  | some sub =>
      obtain ⟨hall, hfit⟩ := hx.inner sub rfl
      have hlive : ∀ v ∈ inside n, (e.walk h m).view V (t + v) = m (t + v) := by
        intro v hv
        have hsrc := view_outside (m := m) h hV hx.apart (show v.toNat < n from hv)
        rwa [BitVec.ofNat_toNat, BitVec.setWidth_eq] at hsrc
      have hcopies := loadCopies_along (elem_same h hx hV hplain) hn hlive hall hfit
      rwa [BitVec.add_zero, BitVec.add_zero] at hcopies

end Elem

section Field

variable {l : FieldLayout} {vmsd : Option VMStateDescription} {δ : U64}
  (hf : FieldSpared e base m ⟨l, vmsd⟩ δ)
  (hptr : (l.has vmsPointer || l.has vmsArrayOfPointer) = true)
  {V : Set U64} (hV : V ⊆ inside e.bytes) (hplain : V ⊆ plainOffsets e base m)

include hf hV

theorem counts_view :
    l.elemSize ((e.walk h m).view V) (e.swapspace + δ) = l.elemSize (liveState m base) δ ∧
      l.nElems ((e.walk h m).view V) (e.swapspace + δ) = l.nElems (liveState m base) δ :=
  ⟨elemSize_congr ((e.walk h m).read_cells hV hf.cells),
    nElems_congr ((e.walk h m).read_cells hV hf.cells)⟩

theorem slots_view (versionId : Int) :
    Visit.slots ⟨⟨l, vmsd⟩, versionId, base + δ, e.swapspace + δ, (e.walk h m).view V⟩ =
      (l.slotOffsets (liveState m base) δ).map (base + ·) := by
  obtain ⟨hsize, hcount⟩ := counts_view h hf hV
  change (if l.has vmsPointer then [base + δ + l.offset] else
    (List.range (l.nElems ((e.walk h m).view V) (e.swapspace + δ)).toNat).map fun (i : Nat) =>
      base + δ + l.offset +
        toSizeT (l.elemSize ((e.walk h m).view V) (e.swapspace + δ) * i)) = _
  rw [hsize, hcount, FieldLayout.slotOffsets]
  split_ifs
  · rw [List.map_singleton, BitVec.add_assoc]
  · rw [List.map_map]
    refine List.map_congr_left fun i _ => ?_
    rw [Function.comp, FieldLayout.elemOffset, BitVec.add_assoc, BitVec.add_assoc,
      BitVec.add_assoc]

include hptr hplain

theorem fieldCopies_spared (versionId : Int) :
    ∀ c ∈ fieldCopies ⟨l, vmsd⟩ versionId (base + δ) (e.swapspace + δ) ((e.walk h m).view V),
      ∃ i < (l.nElems (liveState m base) δ).toNat,
        Along (base + l.elemOffset (liveState m base) δ i)
          (l.target (liveState m base) δ m i)
          (toSizeT (l.elemSize (liveState m base) δ)).toNat c := by
  obtain ⟨hsize, hcount⟩ := counts_view h hf hV
  simp only [fieldCopies, hsize, hcount]
  split_ifs
  · have haddr : ∀ i : Nat, base + δ + l.offset + toSizeT (l.elemSize (liveState m base) δ * i) =
        base + l.elemOffset (liveState m base) δ i := by
      intro i
      rw [FieldLayout.elemOffset, BitVec.add_assoc, BitVec.add_assoc, BitVec.add_assoc]
    simp only [haddr]
    refine Copy.forall_mem_foldl (P := fun c => ∃ i < (l.nElems (liveState m base) δ).toNat,
        Along (base + l.elemOffset (liveState m base) δ i)
          (l.target (liveState m base) δ m i)
          (toSizeT (l.elemSize (liveState m base) δ)).toNat c)
      ?_ (g := fun m' (i : Nat) => elemCopies vmsd
        (base + l.elemOffset (liveState m base) δ i)
        (l.swapAddr ((e.walk h m).view V) m' (e.swapspace + δ)
          (l.elemSize (liveState m base) δ) i)
        (toSizeT (l.elemSize (liveState m base) δ)).toNat m') ?_
    · rintro c ⟨i, hi, hc⟩
      exact hc.still (elem_same h (hf.elems i hi) hV hplain) (hf.elems i hi).size_le
    · intro i hi c hc
      have hlt := List.mem_range.mp hi
      rw [target_view h hf hptr hV hlt] at hc
      exact ⟨i, hlt, elemCopies_along h (hf.elems i hlt) hV hplain c hc⟩
  · simp

theorem loadField_spared (versionId : Int) :
    loadField ⟨l, vmsd⟩ versionId (base + δ) (e.swapspace + δ) ((e.walk h m).view V) =
      (e.walk h m).view V := by
  rw [← replay_fieldCopies fun sub _ => replay_loadCopies sub]
  refine Copy.replay_of_still fun c hc => ?_
  obtain ⟨i, hi, hc⟩ := fieldCopies_spared h hf hptr hV hplain versionId c hc
  exact hc.still (elem_same h (hf.elems i hi) hV hplain) (hf.elems i hi).size_le

end Field

/-- The walk has so far restored offsets of plain fields, and nothing else. -/
def Between (m m' : Memory) : Prop :=
  ∃ V, V ⊆ plainOffsets e base m ∧ V ⊆ inside e.bytes ∧ m' = (e.walk h m).view V

/-- The walk has come to a spared field in such a state. -/
def Passes (m : Memory) (v : Visit) : Prop :=
  Between h m v.before ∧ ∃ δ, v.base = base + δ ∧ v.swapspace = e.swapspace + δ ∧
    FieldSpared e base m v.field δ ∧
    (v.field.layout.has vmsPointer || v.field.layout.has vmsArrayOfPointer) = true

theorem fields_between {fs : List VMStateField} {versionId : Int} {δ : U64}
    (hfield : ∀ f ∈ fs, ∀ m', Between h m m' →
      Between h m (loadField f versionId (base + δ) (e.swapspace + δ) m') ∧
        ∀ v ∈ fieldVisits f versionId (base + δ) (e.swapspace + δ) m', Passes h m v)
    {m' : Memory} (hm : Between h m m') :
    Between h m (loadFields fs versionId (base + δ) (e.swapspace + δ) m') ∧
      ∀ v ∈ fieldsVisits fs versionId (base + δ) (e.swapspace + δ) m', Passes h m v := by
  induction fs generalizing m' with
  | nil => exact ⟨hm, by simp [fieldsVisits]⟩
  | cons f fs ih =>
      obtain ⟨hf, hfs⟩ := List.forall_mem_cons.mp hfield
      obtain ⟨hload, hvisits⟩ := hf m' hm
      obtain ⟨hrest, hvisits'⟩ := ih hfs hload
      refine ⟨hrest, fun v hv => ?_⟩
      rcases List.mem_append.mp hv with hv | hv
      · exact hvisits v hv
      · exact hvisits' v hv

theorem pointer_between {l : FieldLayout} {vmsd : Option VMStateDescription} {δ : U64}
    {versionId : Int} (hf : FieldSpared e base m ⟨l, vmsd⟩ δ)
    (hptr : (l.has vmsPointer || l.has vmsArrayOfPointer) = true) {m' : Memory}
    (hm : Between h m m') :
    Between h m (loadField ⟨l, vmsd⟩ versionId (base + δ) (e.swapspace + δ) m') ∧
      ∀ v ∈ fieldVisits ⟨l, vmsd⟩ versionId (base + δ) (e.swapspace + δ) m', Passes h m v := by
  have hm' := hm
  obtain ⟨V, hplain, hV, rfl⟩ := hm
  refine ⟨?_, fun v hv => ?_⟩
  · rw [loadField_spared h hf hptr hV hplain]
    exact hm'
  · simp only [fieldVisits, hptr, if_true] at hv
    split_ifs at hv
    · obtain rfl := List.mem_singleton.mp hv
      exact ⟨hm', δ, rfl, rfl, hf, hptr⟩
    · simp at hv

section Steps

variable (hall : PointersSpared e base m)

include hall

theorem elem_between {vmsd : Option VMStateDescription} {o : U64} {n : Nat}
    (hsub : elemPlaces (liveState m base) vmsd o n ⊆ places (liveState m base) e.vmsd 0#64)
    (hrec : ∀ d, vmsd = some d → ∀ δ,
      places (liveState m base) d δ ⊆ places (liveState m base) e.vmsd 0#64 →
      ∀ m', Between h m m' →
        Between h m (deviceLoadState d (base + δ) (e.swapspace + δ) m') ∧
          ∀ v ∈ Disc.pointerVisits d (base + δ) (e.swapspace + δ) m', Passes h m v)
    {m' : Memory} (hm : Between h m m') :
    Between h m (loadElem vmsd (base + o) (e.swapspace + o) n m') ∧
      ∀ v ∈ elemVisits vmsd (base + o) (e.swapspace + o) m', Passes h m v := by
  cases vmsd with
  | some d => exact hrec d rfl o hsub m' hm
  | none =>
      obtain ⟨V, hplain, hV, rfl⟩ := hm
      have hmem : Place.plain (.bytes o n) ∈ places (liveState m base) e.vmsd 0#64 :=
        hsub (List.mem_singleton_self _)
      have hfit : o.toNat + n ≤ e.bytes := hall _ hmem
      refine ⟨⟨V ∪ span o n, Set.union_subset hplain fun v hv => ⟨o, n, hmem, hv⟩,
        Set.union_subset hV (Memory.span_subset_inside hfit e.bytes_lt.le), ?_⟩, by
          simp [elemVisits]⟩
      exact Memory.copy_overlay_of_disjoint h.swap_dev hV hfit e.bytes_lt.le

theorem field_between {f : VMStateField} {δ : U64} {versionId : Int}
    (hsub : fieldPlaces (liveState m base) f δ ⊆ places (liveState m base) e.vmsd 0#64)
    (hrec : ∀ d, f.vmsd = some d → ∀ δ,
      places (liveState m base) d δ ⊆ places (liveState m base) e.vmsd 0#64 →
      ∀ m', Between h m m' →
        Between h m (deviceLoadState d (base + δ) (e.swapspace + δ) m') ∧
          ∀ v ∈ Disc.pointerVisits d (base + δ) (e.swapspace + δ) m', Passes h m v)
    {m' : Memory} (hm : Between h m m') :
    Between h m (loadField f versionId (base + δ) (e.swapspace + δ) m') ∧
      ∀ v ∈ fieldVisits f versionId (base + δ) (e.swapspace + δ) m', Passes h m v := by
  obtain ⟨l, vmsd⟩ := f
  cases hptr : l.has vmsPointer || l.has vmsArrayOfPointer with
  | true =>
      -- The pointer field is passed with nothing done.
      refine pointer_between h (hall (.pointer _ δ) (hsub ?_)) hptr hm
      simp [fieldPlaces, hptr]
  | false =>
      simp only [fieldPlaces, hptr, Bool.false_eq_true, if_false] at hsub
      obtain ⟨hpointer, harray⟩ := Bool.or_eq_false_iff.mp hptr
      have hcells : ∀ c ∈ l.cells, (δ + c.1).toNat + c.2 ≤ e.bytes := fun c hc =>
        hall (.plain (.cell (δ + c.1) c.2)) (hsub (List.mem_append_left _
          (List.mem_map.mpr ⟨c, hc, rfl⟩)))
      have helems : ∀ i < (l.nElems (liveState m base) δ).toNat,
          elemPlaces (liveState m base) vmsd (l.elemOffset (liveState m base) δ i)
            (toSizeT (l.elemSize (liveState m base) δ)).toNat ⊆
              places (liveState m base) e.vmsd 0#64 := fun i hi p hp =>
        hsub (List.mem_append_right _ (List.mem_flatMap.mpr ⟨i, List.mem_range.mpr hi, hp⟩))
      have hstep := fun (i : Nat) hi {m' : Memory} (hm : Between h m m') =>
        elem_between h hall (helems i hi) hrec hm
      have haddr : ∀ (root : U64) (i : Nat), root + δ + l.offset +
          toSizeT (l.elemSize (liveState m base) δ * i) =
            root + l.elemOffset (liveState m base) δ i := by
        intro root i
        rw [FieldLayout.elemOffset, BitVec.add_assoc, BitVec.add_assoc, BitVec.add_assoc]
      have hcounts : l.elemSize m' (e.swapspace + δ) = l.elemSize (liveState m base) δ ∧
          l.nElems m' (e.swapspace + δ) = l.nElems (liveState m base) δ := by
        obtain ⟨V, -, hV, rfl⟩ := hm
        exact ⟨elemSize_congr ((e.walk h m).read_cells hV hcells),
          nElems_congr ((e.walk h m).read_cells hV hcells)⟩
      cases hpresent : l.present m' (base + δ) versionId with
      | false =>
          simp only [loadField, fieldVisits, hpresent, Bool.false_eq_true, if_false]
          exact ⟨hm, by simp⟩
      | true =>
          simp only [loadField, fieldVisits, hpresent, hpointer, harray, hcounts, haddr,
            Bool.or_self, Bool.false_eq_true, if_false, if_true]
          constructor
          · exact List.foldlRecOn (motive := Between h m) _ _ hm fun m' hm i hi =>
              (hstep i (List.mem_range.mp hi) hm).1
          · refine (List.foldlRecOn (motive := fun st : Memory × List Visit =>
              Between h m st.1 ∧ ∀ v ∈ st.2, Passes h m v) _ _ ?_ ?_).2
            · exact ⟨hm, by simp⟩
            · rintro ⟨m', vs⟩ ⟨hm, hvs⟩ i hi
              obtain ⟨hload, hvisits⟩ := hstep i (List.mem_range.mp hi) hm
              exact ⟨hload, fun v hv =>
                (List.mem_append.mp hv).elim (hvs v) (hvisits v)⟩

theorem walk_between {d : VMStateDescription} {δ : U64}
    (hsub : places (liveState m base) d δ ⊆ places (liveState m base) e.vmsd 0#64)
    {m' : Memory} (hm : Between h m m') :
    Between h m (deviceLoadState d (base + δ) (e.swapspace + δ) m') ∧
      ∀ v ∈ Disc.pointerVisits d (base + δ) (e.swapspace + δ) m', Passes h m v := by
  induction d using VMStateDescription.induction generalizing δ m' with
  | h d ih =>
      obtain ⟨header, fields, subs⟩ := d
      refine fields_between h (fun f hf m' hm => ?_) hm
      refine field_between h hall ?_ (fun d hd δ hsub m' hm => ih f hf d hd hsub hm) hm
      intro p hp
      exact hsub (mem_fieldsPlaces _ hf hp)

end Steps

/-- A spared field keeps its pointers, whatever plain fields the walk restores. -/
theorem Passes.kept {v : Visit} (hv : Passes h m v) {m' : Memory} (hend : Between h m m') :
    v.Kept e base m m' := by
  obtain ⟨hbetween, δ, hbase, hswap, hf, hptr⟩ := hv
  obtain ⟨W, hplain', hW, rfl⟩ := hend
  obtain ⟨V, hplain, hV, hbefore⟩ := hbetween
  obtain ⟨⟨l, vmsd⟩, versionId, vbase, swapspace, before⟩ := v
  obtain rfl := hbase
  obtain rfl := hswap
  obtain rfl := hbefore
  have hslots := slots_view h hf hV versionId
  have hcopies := fieldCopies_spared h hf hptr hV hplain versionId
  refine ⟨fun p hp => .inr ?_, fun c hc j hj => ?_, fun b hb _ => ?_⟩
  · rw [hslots] at hp
    obtain ⟨o, ho, rfl⟩ := List.mem_map.mp hp
    obtain ⟨hroom, hhidden⟩ := hf.slots o ho
    have hin : base + o - base = o := by
      rw [BitVec.add_comm, BitVec.add_sub_cancel]
    rw [hin]
    refine readPointer_congr fun j hj => ?_
    rw [BitVec.add_assoc, BitVec.add_assoc]
    exact view_dev h (add_mem_inside hroom e.bytes_lt.le hj) fun hmem =>
      hhidden _ (add_mem_span (by decide) hj) (hplain' hmem)
  · obtain ⟨i, hi, o, -, hsrc, hle⟩ := hcopies c hc
    have hx : ElemSpared e base m vmsd (l.target (liveState m base) δ m i)
        (l.elemOffset (liveState m base) δ i)
        (toSizeT (l.elemSize (liveState m base) δ)).toNat := hf.elems i hi
    have hlt : (o + BitVec.ofNat 64 j).toNat < _ := add_mem_inside hle hx.size_le hj
    have houtside := view_outside (m := m) h hW hx.apart hlt
    rw [BitVec.ofNat_toNat, BitVec.setWidth_eq, ← BitVec.add_assoc, ← hsrc] at houtside
    exact houtside
  · exact congrFun (loadField_spared h hf hptr hV hplain versionId) _

end DevSnapshots

def bufferField : VMStateField :=
  ⟨{ offset := 0, size := 0, flags := vmsVbuffer ||| vmsPointer, sizeOffset := 8 }, none⟩

/-- A pointer, the length of the buffer behind it, and four bytes that are not described. -/
def bufferSnapshot : DevSnapshots := ⟨"buffer", 16, 0x100, 0x200,
  ⟨{ name := "buffer", versionId := 1 },
    [bufferField, ⟨{ offset := 8, size := 4 }, none⟩], []⟩⟩

/-- The buffer is at 0x1000; the snapshot was taken when it was empty. -/
def bufferMemory (buffer : List U8) : Memory := fun a =>
  if a = 0x1 ∨ a = 0x101 then 0x10 else if a = 0x8 then BitVec.ofNat 8 buffer.length
  else if a = 0xc then 7 else buffer.getD (a - 0x1000).toNat 0

theorem places_bufferSnapshot {buffer : List U8} :
    places (liveState (bufferMemory buffer) 0) bufferSnapshot.vmsd 0#64 =
      [.pointer bufferField 0, .plain (.bytes 8 4)] := rfl

theorem plainOffsets_bufferSnapshot {buffer : List U8} :
    plainOffsets bufferSnapshot 0 (bufferMemory buffer) = span 8 4 := by
  ext v
  constructor
  · rintro ⟨o, n, hmem, hv⟩
    rw [places_bufferSnapshot] at hmem
    rcases List.mem_cons.mp hmem with hmem | hmem
    · cases hmem
    · cases List.mem_singleton.mp hmem
      exact hv
  · exact fun hv => ⟨8, 4, .tail _ (.head _), hv⟩

def wordsSnapshot : DevSnapshots := ⟨"words", 16, 0x100, 0x200,
  ⟨{ name := "words", versionId := 1 },
    [⟨{ offset := 0, size := 8, flags := vmsArray ||| vmsArrayOfPointer, num := 2 }, none⟩], []⟩⟩

def wordsMemory : Memory := fun a =>
  if a = 0x1 ∨ a = 0x9 ∨ a = 0x101 ∨ a = 0x109 then 0x10 else if a = 0x1000 then 0xaa else 0

end SE4VM.Disc
