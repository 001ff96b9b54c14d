import SE4VM.Disc.LoadState

/-!
# A second flip

Which bytes a flip keeps is read off the device itself: the counts and sizes in it
say how far the fields extend.  When those counts and sizes are among the bytes that
are kept, the flipped device describes the same bytes as before, and flipping it
again changes nothing.
-/

namespace SE4VM.Disc

open SE4VM.Foundation
open SE4VM.Foundation.Memory (inside)

/-! ## The bytes described -/

section Congr

variable {live live' : Memory} {ex ex' : Existence}

/-- The counts and sizes that the walk meets are the same in both states. -/
def SameCells (live live' : Memory) (xs : List Access) : Prop :=
  ∀ o n, Access.cell o n ∈ xs → live'.read o n = live.read o n

theorem fieldAccesses_congr {f : VMStateField} {versionId : Int} {δ : U64}
    (hex : ex' f.layout δ versionId = ex f.layout δ versionId)
    (hcells : SameCells live live' (fieldAccesses live ex f versionId δ))
    (hsub : ∀ sub, f.vmsd = some sub → ∀ δ', SameCells live live' (accesses live ex sub δ') →
      accesses live' ex' sub δ' = accesses live ex sub δ') :
    fieldAccesses live' ex' f versionId δ = fieldAccesses live ex f versionId δ := by
  obtain ⟨l, vmsd⟩ := f
  have hpresent : ex' l δ versionId = ex l δ versionId := hex
  simp only [fieldAccesses, hpresent] at hcells ⊢
  split_ifs at hcells ⊢
  · have hread : ∀ c ∈ l.cells, live'.read (δ + c.1) c.2 = live.read (δ + c.1) c.2 := fun c hc =>
      hcells _ _ (List.mem_append_left _ (List.mem_map_of_mem hc))
    have hsize := elemSize_congr hread
    have hcount := nElems_congr hread
    simp only [FieldLayout.elemOffset, hsize, hcount]
    refine congrArg _ (List.flatMap_congr fun i hi => ?_)
    cases vmsd with
    | none => rfl
    | some sub =>
        refine hsub sub rfl _ fun o n hcell => hcells o n (List.mem_append_right _ ?_)
        exact List.mem_flatMap.mpr ⟨i, hi, hcell⟩
  · rfl

/-- States that agree on the counts and sizes met by a walk describe the same bytes. -/
theorem accesses_congr {d : VMStateDescription} {δ : U64}
    (hex : AllFields (fun l => ∀ δ versionId, ex' l δ versionId = ex l δ versionId) d)
    (hcells : SameCells live live' (accesses live ex d δ)) :
    accesses live' ex' d δ = accesses live ex d δ := by
  induction d using VMStateDescription.induction generalizing δ with
  | h d ih =>
      obtain ⟨here, nested⟩ := hex
      rw [accesses_eq] at hcells
      rw [accesses_eq, accesses_eq]
      refine List.flatMap_congr fun f hf => fieldAccesses_congr (here f hf _ _) ?_ ?_
      · exact fun o n hcell => hcells o n (List.mem_flatMap.mpr ⟨f, hf, hcell⟩)
      · exact fun sub hvmsd δ' hsame => ih f hf sub hvmsd (nested f hf sub hvmsd) hsame

end Congr

/-! ## Outside the device -/

/-- The flip writes the device and the swap space only. -/
theorem flipDevice_outside {e : DevSnapshots} {base : U64} {m : Memory}
    (hall : AllFields (fun l => l.NoPointer ∧ l.VersionOnly) e.vmsd) (hapart : e.Apart base)
    (hfit : ∀ x ∈ liveAccesses e.vmsd base m, x.within e.bytes) {x : U64}
    (hdev : e.bytes ≤ Memory.offset base x) (hswap : e.bytes ≤ Memory.offset e.swapspace x) :
    flipDevice e base m x = m x := by
  obtain ⟨hflip, hinside⟩ := DevSnapshots.flipDevice_overlay hapart (existsOn m base)
    (hall.mono fun l hl => ⟨hl.1, fun V δ versionId h => (hl.2 _ _ _ _ _).trans h⟩) hfit
  have hnot : x - base ∉ (e.walk hapart m).restored e.vmsd 0#64 ∅ := fun hmem =>
    Nat.not_lt.mpr hdev (hinside hmem)
  rw [hflip, Memory.overlay_of_notMem hnot, DevSnapshots.overwritten,
    Memory.copy_apply_of_le _ hdev, Memory.copy_apply_of_le _ hswap]

/-! ## Counts and sizes that are kept -/

def Access.coveredBy (xs : List Access) : Access → Prop
  | cell o n => ∀ i < n, describes xs (o.toNat + i) = true
  | bytes _ _ => True

instance (xs : List Access) : DecidablePred (Access.coveredBy xs)
  | .cell o n => inferInstanceAs (Decidable (∀ i < n, describes xs (o.toNat + i) = true))
  | .bytes _ _ => inferInstanceAs (Decidable True)

/-- Every byte of a count or size that the walk reads is described by a field. -/
def CellsCovered (d : VMStateDescription) (base : U64) (m : Memory) : Prop :=
  ∀ x ∈ liveAccesses d base m, x.coveredBy (liveAccesses d base m)

instance (d : VMStateDescription) (base : U64) (m : Memory) :
    Decidable (CellsCovered d base m) :=
  inferInstanceAs (Decidable (∀ x ∈ liveAccesses d base m, _))

section Twice

variable {e : DevSnapshots} {base : U64} {m : Memory}
  (hall : AllFields (fun l => l.NoPointer ∧ l.VersionOnly) e.vmsd) (hapart : e.Apart base)
  (hfit : ∀ x ∈ liveAccesses e.vmsd base m, x.within e.bytes)
  (hcovered : CellsCovered e.vmsd base m)
include hall hapart hfit hcovered

theorem liveAccesses_flipDevice :
    liveAccesses e.vmsd base (flipDevice e base m) = liveAccesses e.vmsd base m := by
  refine accesses_congr (hall.mono fun l hl δ versionId => hl.2 _ _ _ _ _) fun o n hcell => ?_
  have hle : o.toNat + n ≤ e.bytes := hfit _ hcell
  have hlt := e.bytes_lt
  refine Memory.read_congr fun i hi => ?_
  have hoff : (o + BitVec.ofNat 64 i).toNat = o.toNat + i := by
    rw [BitVec.toNat_add, BitVec.toNat_ofNat]
    omega
  have hv : o + BitVec.ofNat 64 i ∈ inside e.bytes := by
    show (o + BitVec.ofNat 64 i).toNat < e.bytes
    omega
  rw [liveState, flipDevice_merge hall hapart hfit hv, hoff, if_pos (hcovered _ hcell i hi)]
  rfl

theorem flipDevice_flipDevice (hsnap : Memory.Disjoint e.snapshot e.bytes base e.bytes)
    {v : U64} (hv : v ∈ inside e.bytes) :
    flipDevice e base (flipDevice e base m) (base + v) = flipDevice e base m (base + v) := by
  have hsame := liveAccesses_flipDevice hall hapart hfit hcovered
  rw [flipDevice_merge hall hapart (by rwa [hsame]) hv, hsame]
  split_ifs with hdesc
  · rfl
  · -- A byte that is not described was the snapshot's already after the first flip.
    have hdev := hsnap v.toNat hv
    have hswap := hapart.snap_swap v.toNat hv
    rw [BitVec.ofNat_toNat, BitVec.setWidth_eq] at hdev hswap
    rw [flipDevice_outside hall hapart hfit hdev hswap, flipDevice_merge hall hapart hfit hv,
      if_neg hdesc]

end Twice

/-- The second flip of a device leaves it as the first one did. -/
theorem deviceNapReset_idempotent {dss : List DevSnapshots} {name : String} {e : DevSnapshots}
    {base : U64} {m : Memory} (hfind : (dss.find? fun e => e.devname = name) = some e)
    (hall : AllFields (fun l => l.NoPointer ∧ l.VersionOnly) e.vmsd) (hapart : e.Apart base)
    (hsnap : Memory.Disjoint e.snapshot e.bytes base e.bytes)
    (hfit : ∀ x ∈ liveAccesses e.vmsd base m, x.within e.bytes)
    (hcovered : CellsCovered e.vmsd base m) {b : Nat} (hb : b < e.bytes) :
    deviceNapReset dss name base (deviceNapReset dss name base m) (base + BitVec.ofNat 64 b) =
      deviceNapReset dss name base m (base + BitVec.ofNat 64 b) := by
  simp only [deviceNapReset, hfind]
  exact flipDevice_flipDevice hall hapart hfit hcovered hsnap (DevSnapshots.ofNat_mem_inside hb)

theorem deviceNapReset_idempotent_pairs :
    deviceNapReset [pairsSnapshot] "pairs" 0 (deviceNapReset [pairsSnapshot] "pairs" 0 pairsMemory)
        (0 + BitVec.ofNat 64 3) =
      deviceNapReset [pairsSnapshot] "pairs" 0 pairsMemory (0 + BitVec.ofNat 64 3) :=
  @deviceNapReset_idempotent _ _ pairsSnapshot _ _ rfl pairsDescription_allFields
    pairsSnapshot_apart (by decide) (by decide) (by decide) 3 (by decide)

end SE4VM.Disc
