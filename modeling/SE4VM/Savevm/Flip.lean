import SE4VM.Disc.Idempotent
import SE4VM.Disc.SaveState
import SE4VM.Savevm.RoundTrip

/-!
# The flip stands for a migration

`device_nap_reset` is there to show what a migration would lose: it takes a device back
to its snapshot and brings the described fields back from a copy, in place, without a
stream.  A migration saves the device, starts from a fresh one and loads.  The two leave
the same device, if the description is one that the flip reads in the same way.
-/

namespace SE4VM.Savevm

open SE4VM.Foundation
open SE4VM.Disc (FieldLayout toSizeT)

/-! ## One description for both -/

def CString.text (s : CString) : String := String.ofList (s.bytes.map fun b => Char.ofNat b.toNat)

mutual

/-- The description as the flip sees it, which knows neither handlers nor field versions. -/
def erase : VMStateDescription → Disc.VMStateDescription
  | ⟨header, fields, subsections⟩ =>
      ⟨⟨header.name.text, header.versionId, header.preSave⟩, eraseFields fields,
        eraseSubsections subsections⟩

def eraseFields : List VMStateField → List Disc.VMStateField
  | [] => []
  | f :: fs => eraseField f :: eraseFields fs

def eraseField : VMStateField → Disc.VMStateField
  | ⟨l, _, .inl _⟩ => ⟨l, none⟩
  | ⟨l, _, .inr d⟩ => ⟨l, some (erase d)⟩

def eraseSubsections : List VMStateSubsection → List Disc.VMStateSubsection
  | [] => []
  | ⟨d, needed⟩ :: subs => ⟨erase d, needed⟩ :: eraseSubsections subs

end

/-- Every handler moves just the bytes of its field. -/
def Whole (m : Memory) (items : List Item) : Prop :=
  ∀ info a n calls, .put info a n calls ∈ items → info.foot m a n = [(a, n)]

theorem Whole.append {m : Memory} {is js : List Item} :
    Whole m (is ++ js) ↔ Whole m is ∧ Whole m js := by
  simp only [Whole, List.mem_append]
  exact ⟨fun h => ⟨fun i a n c hi => h i a n c (.inl hi), fun i a n c hi => h i a n c (.inr hi)⟩,
    fun h i a n c hi => hi.elim (h.1 i a n c) (h.2 i a n c)⟩

/-- The walk of the flip's model notes the blocks that the walk with handlers moves. -/
def SamePuts (m : Memory) (saved : Memory × List Item)
    (noted : Memory × List Disc.Put → Memory × List Disc.Put) : Prop :=
  saved.1 = m ∧ (Whole m saved.2 → ∀ ps, noted (m, ps) = (m, ps ++ moved m saved.2))

theorem samePuts_elems {l : FieldLayout} {m : Memory} {elem : U64 → Nat → Saver}
    {vmsd : Option Disc.VMStateDescription}
    (h : ∀ a n, SamePuts m (elem a n m) (Disc.saveElem vmsd a n)) (start : U64) (size : Int)
    (is : List Nat) :
    SamePuts m (saveElems l elem start size is m) fun st =>
      is.foldl (fun st (i : Nat) =>
        let addr := start + toSizeT (size * i)
        let addr := if l.has Disc.vmsArrayOfPointer then Disc.readPointer st.1 addr else addr
        Disc.saveElem vmsd addr (toSizeT size).toNat st) st := by
  induction is with
  | nil => exact ⟨rfl, fun _ ps => by rw [saveElems, moved, List.flatMap_nil, List.append_nil]; rfl⟩
  | cons i is ih =>
      obtain ⟨hmem, hputs⟩ := h (FieldLayout.elemAddr l m start size i) (toSizeT size).toNat
      have hsave : saveElems l elem start size (i :: is) m =
          ((saveElems l elem start size is m).1,
            (elem (FieldLayout.elemAddr l m start size i) (toSizeT size).toNat m).2 ++
              (saveElems l elem start size is m).2) := by
        simp only [saveElems, hmem]
      rw [hsave]
      refine ⟨ih.1, fun hwhole ps => ?_⟩
      obtain ⟨hfirst, hrest⟩ := Whole.append.mp hwhole
      have hstep := hputs hfirst ps
      rw [FieldLayout.elemAddr] at hstep
      dsimp only
      rw [List.foldl_cons, hstep, moved_append, ← List.append_assoc]
      exact ih.2 hrest _

theorem samePuts_each {l : FieldLayout} {m : Memory} {elem : U64 → Nat → Saver}
    {vmsd : Option Disc.VMStateDescription}
    (h : ∀ a n, SamePuts m (elem a n m) (Disc.saveElem vmsd a n)) (versionId : Int) (base : U64) :
    SamePuts m (saveEach l elem versionId base m) (Disc.saveField ⟨l, vmsd⟩ versionId base) := by
  obtain ⟨hmem, hputs⟩ := samePuts_elems h (FieldLayout.baseAddr l m base) (l.elemSize m base)
    (List.range (l.nElems m base).toNat) (l := l)
  by_cases hpresent : l.present m base versionId = true
  · have hsave : saveEach l elem versionId base m = (m, cellItems l base ++
        (saveElems l elem (FieldLayout.baseAddr l m base) (l.elemSize m base)
          (List.range (l.nElems m base).toNat) m).2) := by
      simp only [saveEach, hpresent, if_true, hmem, cellItems]
    rw [hsave]
    refine ⟨rfl, fun hwhole ps => ?_⟩
    obtain ⟨-, hwhole⟩ := Whole.append.mp hwhole
    rw [moved_append, (cellItems_puts_nothing l base).2, List.nil_append, ← hputs hwhole ps]
    simp only [Disc.saveField, hpresent, if_true, FieldLayout.baseAddr]
  · have hsave : saveEach l elem versionId base m = (m, []) := by
      rw [saveEach, if_neg hpresent]
    rw [hsave]
    refine ⟨rfl, fun _ ps => ?_⟩
    simp only [Disc.saveField, if_neg hpresent, moved, List.flatMap_nil, List.append_nil]

theorem samePuts_fields {m : Memory} {versionId : Int} {base : U64} {fs : List VMStateField}
    (h : ∀ f ∈ fs, SamePuts m (saveField f versionId base m)
      (Disc.saveField (eraseField f) versionId base)) :
    SamePuts m (saveFields fs versionId base m)
      (Disc.saveFields (eraseFields fs) versionId base) := by
  induction fs with
  | nil =>
      refine ⟨rfl, fun _ ps => ?_⟩
      rw [eraseFields, Disc.saveFields, saveFields, moved, List.flatMap_nil, List.append_nil]
  | cons f fs ih =>
      obtain ⟨⟨hmem, hputs⟩, hfs⟩ := List.forall_mem_cons.mp h
      obtain ⟨hmem', hputs'⟩ := ih hfs
      have hsave : saveFields (f :: fs) versionId base m =
          (m, (saveField f versionId base m).2 ++ (saveFields fs versionId base m).2) := by
        simp only [saveFields, hmem, hmem']
      rw [hsave]
      refine ⟨rfl, fun hwhole ps => ?_⟩
      obtain ⟨hfirst, hrest⟩ := Whole.append.mp hwhole
      rw [eraseFields, Disc.saveFields, hputs hfirst, hputs' hrest, moved_append,
        List.append_assoc]

theorem samePuts_subsections {m : Memory} {base : U64} {subs : List VMStateSubsection}
    (h : ∀ s ∈ subs, SamePuts m (vmstateSaveState s.vmsd base m)
      (Disc.vmstateSaveState (erase s.vmsd) base)) :
    SamePuts m (vmstateSubsectionSave subs base m)
      (Disc.saveSubsections (eraseSubsections subs) base) := by
  induction subs with
  | nil =>
      refine ⟨rfl, fun _ ps => ?_⟩
      rw [eraseSubsections, Disc.saveSubsections, vmstateSubsectionSave, moved, List.flatMap_nil,
        List.append_nil]
  | cons s subs ih =>
      obtain ⟨⟨hmem, hputs⟩, hsubs⟩ := List.forall_mem_cons.mp h
      obtain ⟨hmem', hputs'⟩ := ih hsubs
      obtain ⟨d, needed⟩ := s
      by_cases hneeded : needed m base = true
      · have hsave : vmstateSubsectionSave (⟨d, needed⟩ :: subs) base m =
            (m, [.header (subsectionHeader d.header)] ++ ((vmstateSaveState d base m).2 ++
              (vmstateSubsectionSave subs base m).2)) := by
          simp only [VMStateSubsection.vmsd] at hmem
          simp only [vmstateSubsectionSave, hneeded, if_true, hmem, hmem', List.cons_append,
            List.nil_append]
        rw [hsave]
        refine ⟨rfl, fun hwhole ps => ?_⟩
        obtain ⟨-, hwhole⟩ := Whole.append.mp hwhole
        obtain ⟨hfirst, hrest⟩ := Whole.append.mp hwhole
        have hput := hputs hfirst ps
        dsimp only [VMStateSubsection.vmsd] at hput
        rw [eraseSubsections, Disc.saveSubsections, if_pos hneeded, hput, hputs' hrest,
          moved_append, moved_append, List.append_assoc]
        rfl
      · have hsave : vmstateSubsectionSave (⟨d, needed⟩ :: subs) base m =
            vmstateSubsectionSave subs base m := by
          rw [vmstateSubsectionSave, if_neg hneeded]
        rw [hsave]
        refine ⟨hmem', fun hwhole ps => ?_⟩
        rw [eraseSubsections, Disc.saveSubsections, if_neg hneeded, hputs' hwhole]

/-- The two models of `vmstate_save_state` agree on what is saved. -/
theorem samePuts_state {d : VMStateDescription} (hd : WellFormed d) (m : Memory) (base : U64) :
    SamePuts m (vmstateSaveState d base m) (Disc.vmstateSaveState (erase d) base) := by
  induction hd generalizing base with
  | @intro d preSave _ _ _ _ _ _ _ _ _ nested below =>
      have hfields : SamePuts m (saveFields d.fields d.header.versionId base m)
          (Disc.saveFields (eraseFields d.fields) d.header.versionId base) := by
        refine samePuts_fields fun f hf => ?_
        have hsub := nested f hf
        obtain ⟨l, v, info | sub⟩ := f
        · refine samePuts_each (fun a n => ⟨rfl, fun hwhole ps => ?_⟩) _ _
          have hfoot := hwhole info a n _ List.mem_cons_self
          simp only [Disc.saveElem, moved, List.flatMap_cons, List.flatMap_nil, Item.moved, hfoot,
            List.append_nil]
        · exact samePuts_each (fun a _ => hsub sub rfl a) _ _
      obtain ⟨hmem', hputs'⟩ := samePuts_subsections fun s hs => below s hs base
      obtain ⟨hmem, hputs⟩ := hfields
      obtain ⟨header, fields, subs⟩ := d
      dsimp only [VMStateDescription.header, VMStateDescription.fields,
        VMStateDescription.subsections] at *
      have hsave : vmstateSaveState ⟨header, fields, subs⟩ base m =
          (m, (saveFields fields header.versionId base m).2 ++
            ((vmstateSubsectionSave subs base m).2 ++ [.finish header.name])) := by
        simp only [vmstateSaveState, preSave, hmem, hmem', List.append_assoc]
      rw [hsave]
      refine ⟨rfl, fun hwhole ps => ?_⟩
      obtain ⟨hfirst, hwhole⟩ := Whole.append.mp hwhole
      obtain ⟨hrest, -⟩ := Whole.append.mp hwhole
      simp only [erase, Disc.vmstateSaveState, preSave]
      rw [hputs hfirst, hputs' hrest, moved_append, moved_append, List.append_assoc]
      show _ = (m, ps ++ (_ ++ (_ ++ [])))
      rw [List.append_nil]

/-! ## The flip and the migration -/

theorem transfer_in_place (S : List Block) (m m' : Memory) (x : U64) :
    transfer (.shift 0) S m m' x = if covers S x then m x else m' x := by
  rw [transfer_of_some (show Relocation.origin (.shift 0) x = some x from
    congrArg some (BitVec.sub_zero x))]

/-- The bytes that are moved are those that the description covers. -/
theorem covers_moved_iff {d : VMStateDescription} (hd : WellFormed d)
    (hplain : Disc.Plain (erase d)) (hptr : Disc.AllFields FieldLayout.NoPointer (erase d))
    {base : U64} {m : Memory} {k : Nat} (hk : k ≤ 2 ^ 64)
    (hinside : ∀ x ∈ Disc.liveAccesses (erase d) base m, x.within k)
    (hwhole : Whole m (vmstateSaveState d base m).2) (v : U64) :
    covers (moved m (vmstateSaveState d base m).2) (base + v) = true ↔
      Disc.describes (Disc.liveAccesses (erase d) base m) v.toNat = true := by
  rw [← Disc.savedByte_iff_describes hplain hptr hk hinside v.isLt, Disc.savedByte,
    (samePuts_state hd m base).2 hwhole, List.nil_append, BitVec.ofNat_toNat, BitVec.setWidth_eq]
  rfl

/--
Saved, and loaded into a device that is as it was when the snapshot was taken, a state
is what the flip makes of it in place; the flip has only used the swap space besides.
-/
theorem deviceNapReset_migration (ops : GetOps) (hops : ops.Prompt 257)
    (dss : List Disc.DevSnapshots) (name : String) (e : Disc.DevSnapshots)
    (hfind : (dss.find? fun e => e.devname = name) = some e) (d : VMStateDescription)
    (hd : WellFormed d) (hvmsd : e.vmsd = erase d) (hplain : Disc.Plain e.vmsd)
    (hall : Disc.AllFields (fun l => l.NoPointer ∧ l.VersionOnly) e.vmsd) (base : U64)
    (hapart : e.Apart base) (m : Memory)
    (hinside : ∀ x ∈ Disc.liveAccesses e.vmsd base m, x.within e.bytes)
    (hwhole : Whole m (vmstateSaveState d base m).2) (rest : List U8)
    (hfits : Fits (.shift 0) 0 m (m.copy base e.snapshot e.bytes) (vmstateSaveState d base m).2 []
      rest) :
    ∃ mem g, vmstateLoadState ops d base d.header.versionId (m.copy base e.snapshot e.bytes)
        { source := wire (vmstateSaveState d base m).2 ++ rest } = .ok ((0, mem), g) ∧
      g.content = rest ∧
      ∀ x, e.bytes ≤ Memory.offset e.swapspace x →
        Disc.deviceNapReset dss name base m x = mem x := by
  obtain ⟨-, hload⟩ : Carried (.shift 0) 0 m (m.copy base e.snapshot e.bytes)
    (vmstateSaveState d base m) _ := carried_state hops hd base
  have hstart : GetFile.Sound { source := wire (vmstateSaveState d base m).2 ++ rest } :=
    ⟨⟨le_rfl, show 0 ≤ ioBufSize by decide⟩, rfl⟩
  obtain ⟨g, hrun, -, hcontent⟩ := hload [] rest hfits _ hstart rfl
  have hself : transfer (.shift 0) [] m (m.copy base e.snapshot e.bytes) =
      m.copy base e.snapshot e.bytes := transfer_eq_self fun x y _ h => nomatch h
  rw [hself, show base + 0 = base from BitVec.add_zero base, List.nil_append] at hrun
  refine ⟨_, g, hrun, hcontent, fun x hswap => ?_⟩
  rw [Disc.deviceNapReset, hfind, transfer_in_place]
  dsimp only
  by_cases hdev : Memory.offset base x < e.bytes
  · have hx : base + (x - base) = x := by rw [BitVec.add_comm, BitVec.sub_add_cancel]
    have hcovers := covers_moved_iff hd (hvmsd ▸ hplain) (hvmsd ▸ hall.mono fun _ h => h.1)
      e.bytes_lt.le (hvmsd ▸ hinside) hwhole (x - base)
    have hmerge := Disc.flipDevice_merge hall hapart hinside hdev
    rw [hx] at hcovers hmerge
    rw [hmerge, Memory.copy_apply_of_lt m hdev, hvmsd]
    exact if_congr hcovers.symm rfl rfl
  · have hout := Nat.not_lt.mp hdev
    rw [Disc.flipDevice_outside hall hapart hinside hout hswap, Memory.copy_apply_of_le m hout,
      ite_self]

def pairState : VMStateDescription :=
  ⟨{ name := ⟨[0x70], by decide⟩, versionId := 1, minimumVersionId := 1, minimumVersionIdOld := 1 },
    [⟨{ offset := 0, size := 1 }, 0, .inl vmstateInfoUint8⟩], []⟩

/-- A count, and that many pairs from byte 2 on. -/
def pairsState : VMStateDescription :=
  ⟨{ name := ⟨[0x71], by decide⟩, versionId := 2, minimumVersionId := 1, minimumVersionIdOld := 1 },
    [⟨{ offset := 0, size := 1 }, 0, .inl vmstateInfoUint8⟩,
      ⟨{ offset := 2, size := 2, flags := Disc.vmsVarrayUint8, numOffset := 0 }, 0,
        .inr pairState⟩], []⟩

theorem pairState_wellFormed : WellFormed pairState := by
  refine .intro rfl rfl rfl (by decide) (by decide) (fun f hf => ?_) (fun f hf sub hsub => ?_)
    (by decide) (fun s hs => absurd hs List.not_mem_nil) (fun s hs => absurd hs List.not_mem_nil)
  · rcases List.mem_singleton.mp hf with rfl
    exact settled_plain rfl rfl rfl (by decide)
  · rcases List.mem_singleton.mp hf with rfl
    cases hsub

theorem pairsState_wellFormed : WellFormed pairsState := by
  refine .intro rfl rfl rfl (by decide) (by decide) (fun f hf => ?_) (fun f hf sub hsub => ?_)
    (by decide) (fun s hs => absurd hs List.not_mem_nil) (fun s hs => absurd hs List.not_mem_nil)
  · rcases List.mem_cons.mp hf with rfl | hf
    · exact settled_plain rfl rfl rfl (by decide)
    · rcases List.mem_singleton.mp hf with rfl
      exact settled_plain rfl rfl rfl (by decide)
  · rcases List.mem_cons.mp hf with rfl | hf
    · cases hsub
    · rcases List.mem_singleton.mp hf with rfl
      cases hsub
      exact pairState_wellFormed

def pairsEntry : Disc.DevSnapshots := ⟨"pairs", 8, 16, 32, erase pairsState⟩

theorem pairsEntry_plain : Disc.Plain pairsEntry.vmsd := by
  refine .intro rfl rfl fun f hf sub hsub => ?_
  rcases List.mem_cons.mp hf with rfl | hf
  · cases hsub
  · rcases List.mem_singleton.mp hf with rfl
    cases hsub
    refine .intro rfl rfl fun f hf sub hsub => ?_
    rcases List.mem_singleton.mp hf with rfl
    cases hsub

theorem pairsEntry_allFields :
    Disc.AllFields (fun l => l.NoPointer ∧ l.VersionOnly) pairsEntry.vmsd := by
  refine .intro (fun f hf => ?_) fun f hf sub hsub => ?_
  · rcases List.mem_cons.mp hf with rfl | hf
    · exact ⟨⟨rfl, rfl⟩, fun _ _ _ _ _ => rfl⟩
    · rcases List.mem_singleton.mp hf with rfl
      exact ⟨⟨rfl, rfl⟩, fun _ _ _ _ _ => rfl⟩
  · rcases List.mem_cons.mp hf with rfl | hf
    · cases hsub
    · rcases List.mem_singleton.mp hf with rfl
      cases hsub
      refine .intro (fun f hf => ?_) fun f hf sub hsub => ?_
      · rcases List.mem_singleton.mp hf with rfl
        exact ⟨⟨rfl, rfl⟩, fun _ _ _ _ _ => rfl⟩
      · rcases List.mem_singleton.mp hf with rfl
        cases hsub

/-- Two pairs: their first bytes are moved, their second ones are the snapshot's. -/
theorem deviceNapReset_migration_pairs :
    ∃ mem g, vmstateLoadState (fun _ => .bytes 300) pairsState 0 2
        (Disc.pairsMemory.copy 0 16 8) { source := [2, 2, 2, 0] } = .ok ((0, mem), g) ∧
      (Disc.deviceNapReset [pairsEntry] "pairs" 0 Disc.pairsMemory).read 0 8 = mem.read 0 8 := by
  have hplaces := Relocation.places_shift 0
  obtain ⟨mem, g, hrun, -, hsame⟩ := deviceNapReset_migration (fun _ => .bytes 300)
    (fun _ => ⟨300, rfl, by decide⟩) [pairsEntry] "pairs" pairsEntry rfl pairsState
    pairsState_wellFormed rfl pairsEntry_plain pairsEntry_allFields 0 ⟨by decide, by decide⟩
    Disc.pairsMemory (by decide)
    (by
      have hitems : (vmstateSaveState pairsState 0 Disc.pairsMemory).2 =
        [.put vmstateInfoUint8 0 1 [.byte 2], .cell 0 1, .put vmstateInfoUint8 2 1 [.byte 2],
          .finish pairState.header.name, .put vmstateInfoUint8 4 1 [.byte 2],
          .finish pairState.header.name, .finish pairsState.header.name] := rfl
      rw [hitems]
      intro info a n calls h
      simp only [List.mem_cons, List.not_mem_nil, or_false, reduceCtorEq, false_or,
        Item.put.injEq] at h
      rcases h with ⟨rfl, rfl, rfl, -⟩ | ⟨rfl, rfl, rfl, -⟩ | ⟨rfl, rfl, rfl, -⟩ <;> rfl)
    [0]
    ⟨hplaces _ _, ⟨hplaces _ _, by decide⟩, hplaces _ _, by decide, hplaces _ _, by decide,
      by decide, trivial⟩
  have hout : ∀ i < 8, pairsEntry.bytes ≤
      Memory.offset pairsEntry.swapspace (0 + BitVec.ofNat 64 i) := by decide
  exact ⟨mem, g, hrun, Memory.read_congr fun i hi => hsame _ (hout i hi)⟩

end SE4VM.Savevm
