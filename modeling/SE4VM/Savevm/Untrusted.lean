import SE4VM.Savevm.Confinement
import SE4VM.Savevm.Sections

/-!
# Whole streams that cannot be trusted

What holds for one state holds for a machine: any bytes at all, from a backend that may
fail at any time, make `qemu_loadvm_state` end, and change nothing but the states that
have been registered.
-/

namespace SE4VM.Savevm

open SE4VM.Foundation
open SE4VM.Disc (vmsArray)

/-- An entry whose states are loaded without leaving their blocks. -/
structure SaveStateEntry.Bounded (se : SaveStateEntry) (R : List Block) : Prop where
  described : ∀ a d, se.vmsd = some (a, d) →
    Fixed d ∧ ∀ x, covers (reachState d se.device) x = true → covers R x = true
  handled : se.vmsd = none → ∃ h, se.ops = some h ∧ ∀ ops v, Tame R (h.loadState ops se.device v)

theorem SaveStateEntry.Bounded.tame {se : SaveStateEntry} {R : List Block} (h : se.Bounded R)
    (ops : GetOps) (versionId : Int) : Tame R (vmstateLoad ops se versionId) := by
  intro m f
  cases hvmsd : se.vmsd with
  | none =>
      obtain ⟨handlers, hops, htame⟩ := h.handled hvmsd
      rw [vmstateLoad, hvmsd, hops]
      exact htame ops versionId m f
  | some v =>
      obtain ⟨a, d⟩ := v
      obtain ⟨hfixed, hreach⟩ := h.described a d hvmsd
      rw [vmstateLoad, hvmsd]
      exact (tame_state hfixed ops se.device versionId).mono hreach m f

theorem qemuGetByte_consumes (ops : GetOps) {f : GetFile} (h : (qemuGetByte ops f).1 ≠ 0) :
    (qemuGetByte ops f).2.content.length < f.content.length := by
  have hlook := (onward_lookFor ops f 1).length_le
  have hbyte : (lookFor ops 1 f).buf.getD (lookFor ops 1 f).bufIndex 0 ≠ 0 := h
  have hfit : (lookFor ops 1 f).bufIndex + 1 ≤ (lookFor ops 1 f).buf.length := by
    by_contra hlt
    rw [List.getD_eq_getElem?_getD, List.getElem?_eq_none (by omega)] at hbyte
    exact hbyte rfl
  have hskip : (qemuGetByte ops f).2.content = (lookFor ops 1 f).content.drop 1 :=
    content_qemuFileSkip hfit
  have hpos : 0 < (lookFor ops 1 f).content.length := by
    rw [GetFile.content, List.length_append, List.length_drop]
    omega
  rw [hskip, List.length_drop]
  omega

/-- What one round may do: stop, or go on with fewer bytes to read. -/
def Progress (R : List Block) (m : Memory) (f : GetFile)
    (r : Run (Step (Memory × List LoadStateEntry) (Int × Memory) × GetFile)) (bound : Nat) :
    Prop :=
  ∃ step f', r = .ok (step, f') ∧ Onward f f' ∧
    ((∃ ret m', step = .done (ret, m') ∧ SameOutside R m m') ∨
      ∃ m' les, step = .next (m', les) ∧ SameOutside R m m' ∧ f'.content.length < bound ∧
        ∀ le ∈ les, le.se.Bounded R)

section Load

variable {ops : GetOps} {R : List Block} {m : Memory}

theorem loadSection_progress {le : LoadStateEntry} {les : List LoadStateEntry}
    (hle : le.se.Bounded R) (hles : ∀ le ∈ les, le.se.Bounded R) {f : GetFile} {bound : Nat}
    (hbound : f.content.length < bound) :
    Progress R m f (loadSection ops le les m f) bound := by
  obtain ⟨ret, m', f', hrun, hon, hout⟩ := hle.tame ops le.versionId m f
  have hload : loadSection ops le les m f =
      .ok (if ret < 0 then .done (ret, m') else .next (m', les), f') := by
    show (vmstateLoad ops le.se le.versionId m f >>= _) = _
    rw [hrun]
    rfl
  refine ⟨_, f', hload, hon, ?_⟩
  split_ifs
  · exact .inl ⟨ret, m', rfl, hout⟩
  · exact .inr ⟨m', les, rfl, hout, lt_of_le_of_lt hon.length_le hbound, hles⟩

theorem Progress.trans {f g : GetFile} (hfg : Onward f g)
    {r : Run (Step (Memory × List LoadStateEntry) (Int × Memory) × GetFile)} {bound : Nat}
    (h : Progress R m g r bound) : Progress R m f r bound := by
  obtain ⟨step, f', hrun, hon, hcase⟩ := h
  exact ⟨step, f', hrun, hfg.trans hon, hcase⟩

theorem Progress.stop (ret : Int) (f : GetFile) (bound : Nat) :
    Progress R m f (.ok (.done (ret, m), f)) bound :=
  ⟨_, f, rfl, .refl f, .inl ⟨ret, m, rfl, fun _ _ => rfl⟩⟩

theorem Progress.read {α : Type} {g : GetFile → α × GetFile} (hon : ∀ f, Onward f (g f).2)
    {k : α → StateT GetFile Run (Step (Memory × List LoadStateEntry) (Int × Memory))}
    {f : GetFile} {bound : Nat} (hbound : f.content.length < bound)
    (h : ∀ a f', f'.content.length < bound → Progress R m f' (k a f') bound) :
    Progress R m f ((act g >>= k) f) bound := by
  rw [act_bind]
  exact (h _ _ (lt_of_le_of_lt (hon f).length_le hbound)).trans (hon f)

theorem loadRound_progress (junk : List U8) {handlers : List SaveStateEntry}
    (hhandlers : ∀ se ∈ handlers, se.Bounded R) {les : List LoadStateEntry}
    (hles : ∀ le ∈ les, le.se.Bounded R) (f : GetFile) :
    Progress R m f (loadRound ops junk handlers (m, les) f) f.content.length := by
  rw [loadRound, act_bind]
  refine Progress.trans (onward_qemuGetByte ops f) ?_
  by_cases heof : (qemuGetByte ops f).1 = qemuVmEof
  · rw [if_pos heof]
    exact .stop 0 _ _
  have hless := qemuGetByte_consumes ops heof
  rw [if_neg heof]
  generalize (qemuGetByte ops f).2 = f₁ at hless ⊢
  split_ifs with hopens hcontinues
  · refine .read (fun f => onward_getBe ops f 4) hless fun sectionId f₂ h₂ =>
      .read (onward_qemuGetByte ops) h₂ fun len f₃ h₃ =>
      .read (fun f => onward_qemuGetBuffer ops f len.toNat) h₃ fun got f₄ h₄ =>
      .read (fun f => onward_getBe ops f 4) h₄ fun instanceId f₅ h₅ =>
      .read (fun f => onward_getBe ops f 4) h₅ fun versionId f₆ h₆ => ?_
    dsimp only
    cases hfind : findSe handlers _ (asInt instanceId) with
    | none => exact .stop _ _ _
    | some se =>
      have hbounded := hhandlers se (List.mem_of_find?_eq_some hfind)
      dsimp only
      split_ifs
      · exact .stop _ _ _
      · exact loadSection_progress hbounded (List.forall_mem_cons.mpr ⟨hbounded, hles⟩) h₆
  · refine .read (fun f => onward_getBe ops f 4) hless fun sectionId f₂ h₂ => ?_
    cases hfind : les.find? fun le => le.sectionId = BitVec.ofNat 32 sectionId with
    | none => exact .stop _ _ _
    | some le => exact loadSection_progress (hles le (List.mem_of_find?_eq_some hfind)) hles h₂
  · exact .stop _ _ _

end Load

theorem loadSections_ends (ops : GetOps) (junk : List U8) {R : List Block} (m : Memory)
    {handlers : List SaveStateEntry} (hhandlers : ∀ se ∈ handlers, se.Bounded R)
    {les : List LoadStateEntry}
    (hles : ∀ le ∈ les, le.se.Bounded R) {f : GetFile} {fuel : Nat}
    (hfuel : f.content.length < fuel) :
    ∃ ret m' f', readLoop (loadRound ops junk handlers) fuel (m, les) f = .ok ((ret, m'), f') ∧
      Onward f f' ∧ SameOutside R m m' := by
  induction fuel generalizing m les f with
  | zero => exact absurd hfuel (Nat.not_lt_zero _)
  | succ fuel ih =>
      obtain ⟨step, f₁, hrun, hon, hstep⟩ := loadRound_progress junk hhandlers hles f
      rcases hstep with ⟨ret, m', rfl, hout⟩ | ⟨m₁, les₁, rfl, hout, hless, hles₁⟩
      · exact ⟨ret, m', f₁, readLoop_done hrun fuel, hon, hout⟩
      · obtain ⟨ret, m', f', hloop, hon', hout'⟩ := ih m₁ hles₁
          (hless.trans_le (Nat.le_of_lt_succ hfuel))
        rw [readLoop_next hrun]
        exact ⟨ret, m', f', hloop, hon.trans hon', hout.trans hout'⟩

theorem Tame.read {α : Type} {R : List Block} {g : GetFile → α × GetFile}
    (hon : ∀ f, Onward f (g f).2) {k : α → Loader} (h : ∀ a, Tame R (k a)) :
    Tame R fun m => act g >>= fun a => k a m := by
  intro m f
  obtain ⟨ret, m', f', hrun, hon', hout⟩ := h (g f).1 m (g f).2
  exact ⟨ret, m', f', (act_bind g _ f).trans hrun, (hon f).trans hon', hout⟩

/-- Whatever is sent, and whatever the backend does with it: the load ends, and all that
it has changed are the states registered. -/
theorem qemuLoadvmState_confined (ops : GetOps) (junk : List U8) (handlers : List SaveStateEntry)
    (R : List Block) (hhandlers : ∀ se ∈ handlers, se.Bounded R) (m : Memory) (f : GetFile) :
    ∃ ret m' f', qemuLoadvmState ops junk handlers m f = .ok ((ret, m'), f') ∧
      f'.content <:+ f.content ∧ ∀ x, covers R x = false → m' x = m x := by
  have htame : Tame R (qemuLoadvmState ops junk handlers) := by
    unfold qemuLoadvmState
    split_ifs
    · exact .pure _
    · refine .read (fun f => onward_getBe ops f 4) fun magic => ?_
      split_ifs
      · exact .pure _
      · refine .read (fun f => onward_getBe ops f 4) fun version => ?_
        split_ifs
        · exact .pure _
        · exact .pure _
        · intro m f
          obtain ⟨ret, m', f', hrun, hon, hout⟩ := loadSections_ends ops junk m
            hhandlers (fun _ h => absurd h List.not_mem_nil) (Nat.lt_succ_self f.content.length)
          refine ⟨if ret = 0 then f'.lastError else ret, m', f', ?_, hon, hout⟩
          show (loadSections ops junk handlers m f >>= _) = _
          rw [loadSections, hrun]
          rfl
  obtain ⟨ret, m', f', hrun, hon, hout⟩ := htame m f
  exact ⟨ret, m', f', hrun, hon.rest, hout⟩

def fixedState : VMStateDescription :=
  ⟨{ name := countedState.header.name, versionId := 1, minimumVersionId := 1,
      minimumVersionIdOld := 1 },
    [⟨{ offset := 0, size := 1, num := 3, flags := vmsArray }, 0, .inl vmstateInfoUint8⟩],
    [⟨⟨{ name := countedState.header.name.append .slash, versionId := 1, minimumVersionId := 1,
          minimumVersionIdOld := 1 },
        [⟨{ offset := 8, size := 1 }, 0, .inl vmstateInfoUint8⟩], []⟩, fun _ _ => true⟩]⟩

theorem fixed_plain {header : VMStateHeader} {fields : List VMStateField}
    {subsections : List VMStateSubsection} (hpre : header.preLoad = none)
    (hpost : header.postLoad = none) (hold : header.minimumVersionId ≤ header.minimumVersionIdOld)
    (hfields : ∀ f ∈ fields, FixedLayout f.layout ∧ f.what = .inl vmstateInfoUint8)
    (hbelow : ∀ s ∈ subsections, Fixed s.vmsd) : Fixed ⟨header, fields, subsections⟩ := by
  refine .intro (fun hook h => ?_) (fun hook h => ?_) (.inl hold) (fun f hf => (hfields f hf).1)
    (fun f hf info h m => ?_) (fun f hf sub h => ?_) hbelow
  · cases hpre.symm.trans h
  · cases hpost.symm.trans h
  · cases (hfields f hf).2.symm.trans h
    rfl
  · cases (hfields f hf).2.symm.trans h

theorem fixedState_fixed : Fixed fixedState := by
  refine fixed_plain rfl rfl (by decide) (fun f hf => ?_) (fun s hs => ?_)
  · obtain rfl := List.mem_singleton.mp hf
    exact ⟨fixedLayout_plain (by decide) (by decide), rfl⟩
  · obtain rfl := List.mem_singleton.mp hs
    refine fixed_plain rfl rfl (by decide) (fun f hf => ?_) (fun s hs => absurd hs List.not_mem_nil)
    obtain rfl := List.mem_singleton.mp hf
    exact ⟨fixedLayout_plain (by decide) (by decide), rfl⟩

def fixedEntry : SaveStateEntry := { twin 0 0x1000 with vmsd := some (0x40, fixedState) }

/-- A section with a second subsection that is cut off. -/
def brokenFile : GetFile :=
  { source := [0x51, 0x45, 0x56, 0x4d, 0, 0, 0, 3, 4, 0, 0, 0, 7, 1, 0x63, 0, 0, 0, 0, 0, 0, 0, 1,
      9, 9, 9, 5, 2, 0x63, 0x2f, 0, 0, 0, 1, 6, 5, 2, 0x63] }

theorem qemuLoadvmState_confined_broken :
    ∃ ret m' f', qemuLoadvmState (fun n => if n = 0 then .bytes 40 else .error 5) [] [fixedEntry]
        Memory.blank brokenFile = .ok ((ret, m'), f') ∧
      m' 0x1003 = 0 ∧ m' 0x1007 = 0 ∧ m' 0x1009 = 0 := by
  obtain ⟨ret, m', f', hrun, -, hout⟩ := qemuLoadvmState_confined
    (fun n => if n = 0 then .bytes 40 else .error 5) [] [fixedEntry] (reachState fixedState 0x1000)
    (fun se hse => by
      obtain rfl := List.mem_singleton.mp hse
      refine ⟨fun a d h => ?_, fun h => nomatch h⟩
      obtain ⟨-, rfl⟩ := Prod.mk.inj (Option.some.inj h)
      exact ⟨fixedState_fixed, fun _ hx => hx⟩) Memory.blank brokenFile
  exact ⟨ret, m', f', hrun, hout _ (by decide), hout _ (by decide), hout _ (by decide)⟩

end SE4VM.Savevm
