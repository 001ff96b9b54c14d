import Mathlib.Data.List.Nodup
import SE4VM.Savevm.Sections

/-!
# Saving a machine that runs

States that are too large to be sent at once are announced, then sent in parts while the
machine goes on running and the file is held back to a rate, and completed when it has
stopped.  A part carries nothing but a section number, so the stream is of use only if
the announcement came before; this is what the sender's three functions have to ensure
between them, in whatever order their callers interleave them with the machine.
-/

namespace SE4VM.Savevm

open SE4VM.Foundation

/-! ## Sending -/

/-- `sections` lists what has been sent so far. -/
structure Sender where
  mem : Memory
  file : PutFile
  sections : List Section := []

def putAll (ops : PutOps) (calls : List PutCall) (f : PutFile) : PutFile :=
  execAll ops (calls.map PutCall.op) f

/-- `limit` is `f->xfer_limit`. -/
def qemuFileRateLimit (limit : Int) (f : PutFile) : Bool :=
  f.lastError ≠ 0 || (0 < limit && limit < f.bytesXfer)

def SaveStateEntry.isActive (se : SaveStateEntry) (m : Memory) : Bool :=
  match se.ops.bind SaveVMHandlers.isActive with
  | some isActive => isActive m se.device
  | none => true

def SaveStateEntry.liveStep (se : SaveStateEntry) (pick : SaveVMHandlers → Option LiveStep)
    (m : Memory) : Option LiveStep :=
  match se.ops.bind pick with
  | some step => if se.isActive m then some step else none
  | none => none

def liveSection (ops : PutOps) (kind : SectionKind) (se : SaveStateEntry) (step : LiveStep)
    (s : Sender) : Int × Sender :=
  let f := putAll ops (sectionHeader kind se) s.file
  let (ret, m, calls) := step s.mem f se.device
  let f := putAll ops calls f
  (ret,
    { mem := m
      file := if ret < 0 then f.setError ret else f
      sections := s.sections ++ [⟨kind, se, calls⟩] })

def beginSections (ops : PutOps) : List SaveStateEntry → Sender → Sender
  | [], s => s
  | se :: ses, s =>
      match se.liveStep SaveVMHandlers.saveLiveSetup s.mem with
      | none => beginSections ops ses s
      | some setup =>
          let (ret, s) := liveSection ops .start se setup s
          if ret < 0 then s else beginSections ops ses s

def setAllParams (params : MigrationParams) (handlers : List SaveStateEntry) (m : Memory) :
    Memory :=
  handlers.foldl (fun m se =>
    match se.ops.bind SaveVMHandlers.setParams with
    | some setParams => setParams params m se.device
    | none => m) m

def qemuSavevmStateBegin (ops : PutOps) (params : MigrationParams)
    (handlers : List SaveStateEntry) (s : Sender) : Sender :=
  beginSections ops handlers
    { s with mem := setAllParams params handlers s.mem, file := putAll ops fileHeader s.file }

/-- `ret` is what the handler before has returned. -/
def iterateSections (ops : PutOps) (limit : Int) : List SaveStateEntry → Int → Sender →
    Int × Sender
  | [], ret, s => (ret, s)
  | se :: ses, ret, s =>
      match se.liveStep SaveVMHandlers.saveLiveIterate s.mem with
      | none => iterateSections ops limit ses ret s
      | some iterate =>
          if qemuFileRateLimit limit s.file then (0, s)
          else
            let (ret, s) := liveSection ops .part se iterate s
            if ret ≤ 0 then (ret, s) else iterateSections ops limit ses ret s

def qemuSavevmStateIterate (ops : PutOps) (limit : Int) (handlers : List SaveStateEntry)
    (s : Sender) : Int × Sender :=
  iterateSections ops limit handlers 1 s

/-- Whether all handlers have come to their end. -/
def completeSections (ops : PutOps) : List SaveStateEntry → Sender → Bool × Sender
  | [], s => (true, s)
  | se :: ses, s =>
      match se.liveStep SaveVMHandlers.saveLiveComplete s.mem with
      | none => completeSections ops ses s
      | some complete =>
          let (ret, s) := liveSection ops .finish se complete s
          if ret < 0 then (false, s) else completeSections ops ses s

def qemuSavevmStateComplete (ops : PutOps) (handlers : List SaveStateEntry) (s : Sender) :
    Sender :=
  match completeSections ops handlers s with
  | (false, s) => s
  | (true, s) =>
      let (m, sections) := fullSections handlers s.mem
      { mem := m
        file := qemuFflush ops
          (putAll ops (sections.flatMap Section.calls ++ [.byte qemuVmEof]) s.file)
        sections := s.sections ++ sections }

inductive LiveOp where
  | iterate (limit : Int)
  | resetRateLimit
  | guest (change : Memory → Memory)

def LiveOp.exec (ops : PutOps) (handlers : List SaveStateEntry) : LiveOp → Sender → Sender
  | iterate limit, s => (qemuSavevmStateIterate ops limit handlers s).2
  | resetRateLimit, s => { s with file := { s.file with bytesXfer := 0 } }
  | guest change, s => { s with mem := change s.mem }

def migrate (ops : PutOps) (params : MigrationParams) (handlers : List SaveStateEntry)
    (run : List LiveOp) (s : Sender) : Sender :=
  qemuSavevmStateComplete ops handlers
    (run.foldl (fun s op => op.exec ops handlers s) (qemuSavevmStateBegin ops params handlers s))

/-! ## The stream -/

theorem putAll_spec {ops : PutOps} (hops : ops.Honest) (calls : List PutCall) {f : PutFile}
    (hf : Ready f) :
    Appends ops.total Broken (putBytes calls) f (putAll ops calls f) ∧
      Ready (putAll ops calls f) := by
  obtain ⟨hallowed, hgiven⟩ := calls_spec ops calls f
  have hspec := execAll_spec hops hf hallowed
  rwa [hgiven] at hspec

def sentBytes (sections : List Section) : List U8 :=
  putBytes (fileHeader ++ sections.flatMap Section.calls)

theorem sentBytes_append (xs ys : List Section) :
    sentBytes (xs ++ ys) = sentBytes xs ++ putBytes (ys.flatMap Section.calls) := by
  rw [sentBytes, sentBytes, List.flatMap_append, ← List.append_assoc, putBytes_append]

/-- The file holds the sections listed, unless it is broken; `I` is what the machine keeps. -/
structure Sender.Good (ops : PutOps) (I : Memory → Prop) (s : Sender) : Prop where
  ready : Ready s.file
  stream : ¬ Broken s.file → ops.total s.file = sentBytes s.sections
  keeps : I s.mem

def Sends (ops : PutOps) (I : Memory → Prop) (P : Section → Prop) (s s' : Sender) : Prop :=
  s.Good ops I → s'.Good ops I ∧ (Broken s.file → Broken s'.file) ∧
    ∃ new, s'.sections = s.sections ++ new ∧ ∀ x ∈ new, P x

namespace Sends

variable {ops : PutOps} {I : Memory → Prop} {P : Section → Prop} {s s' s'' : Sender}

theorem refl (s : Sender) : Sends ops I P s s :=
  fun h => ⟨h, id, [], (List.append_nil _).symm, fun _ hx => absurd hx List.not_mem_nil⟩

theorem trans (h : Sends ops I P s s') (h' : Sends ops I P s' s'') : Sends ops I P s s'' := by
  intro hs
  obtain ⟨hs', hstuck, new, hnew, hP⟩ := h hs
  obtain ⟨hs'', hstuck', new', hnew', hP'⟩ := h' hs'
  refine ⟨hs'', hstuck' ∘ hstuck, new ++ new', ?_, List.forall_mem_append.mpr ⟨hP, hP'⟩⟩
  rw [hnew', hnew, List.append_assoc]

end Sends

theorem setError_spec {ops : PutOps} (hops : ops.Honest) {f : PutFile} (hf : Ready f) {ret : Int}
    (hret : ret < 0) : Broken (f.setError ret) ∧ Ready (f.setError ret) := by
  refine ⟨?_, (@PutOp.exec_spec ops hops (.setError ret) f hf hret).2⟩
  rw [PutFile.setError]
  split_ifs with hok
  · exact hret.ne
  · exact hok

section Sections

variable {ops : PutOps} (hops : ops.Honest) {I : Memory → Prop} {P : Section → Prop}

include hops

theorem liveSection_sends (kind : SectionKind) {se : SaveStateEntry} {step : LiveStep}
    (hstep : ∀ m f, I m → I (step m f se.device).2.1) (hP : ∀ calls, P ⟨kind, se, calls⟩)
    (s : Sender) :
    Sends ops I P s (liveSection ops kind se step s).2 ∧
      (s.Good ops I → (liveSection ops kind se step s).1 < 0 →
        Broken (liveSection ops kind se step s).2.file) := by
  generalize hcall : step s.mem (putAll ops (sectionHeader kind se) s.file) se.device = r
  obtain ⟨ret, m, calls⟩ := r
  have hresult : liveSection ops kind se step s = (ret,
      { mem := m
        file := if ret < 0 then (putAll ops calls (putAll ops (sectionHeader kind se)
          s.file)).setError ret else putAll ops calls (putAll ops (sectionHeader kind se) s.file)
        sections := s.sections ++ [⟨kind, se, calls⟩] }) := by
    rw [liveSection, hcall]
  rw [hresult]
  have hput : s.Good ops I → Appends ops.total Broken
      (putBytes (Section.calls ⟨kind, se, calls⟩)) s.file
        (putAll ops calls (putAll ops (sectionHeader kind se) s.file)) ∧
      Ready (putAll ops calls (putAll ops (sectionHeader kind se) s.file)) := by
    intro hs
    obtain ⟨hhead, hready⟩ := putAll_spec hops (sectionHeader kind se) hs.ready
    obtain ⟨hbody, hready'⟩ := putAll_spec hops calls hready
    rw [Section.calls, putBytes_append]
    exact ⟨hhead.trans hbody, hready'⟩
  have hm : s.Good ops I → I m := by
    intro hs
    have hkeeps := hstep s.mem (putAll ops (sectionHeader kind se) s.file) hs.keeps
    rwa [hcall] at hkeeps
  have hnew : ∀ x ∈ [(⟨kind, se, calls⟩ : Section)], P x := by
    intro x hx
    rw [List.mem_singleton.mp hx]
    exact hP calls
  generalize putAll ops calls (putAll ops (sectionHeader kind se) s.file) = f at hput
  dsimp only
  split_ifs with hneg
  · have herror := fun hs => setError_spec hops (hput hs).2 hneg
    exact ⟨fun hs => ⟨⟨(herror hs).2, fun h => absurd (herror hs).1 h, hm hs⟩,
      fun _ => (herror hs).1, _, rfl, hnew⟩, fun hs _ => (herror hs).1⟩
  · refine ⟨fun hs => ⟨⟨(hput hs).2, fun h => ?_, hm hs⟩, fun hbroken => ?_, _, rfl, hnew⟩,
      fun _ h => absurd h hneg⟩
    · obtain ⟨hwhole, htotal⟩ := (hput hs).1.whole h
      rw [htotal, hs.stream hwhole, sentBytes_append, List.flatMap_singleton]
    · by_contra h
      exact ((hput hs).1.whole h).1 hbroken

end Sections

/-! ## The protocol -/

/-- What handlers and machine agree on: whatever is completed or sent in parts is set up
first, and a state does not become active in between. -/
structure Disciplined (handlers : List SaveStateEntry) (I : Memory → Prop) : Prop where
  setup : ∀ se ∈ handlers, ∀ h, se.ops = some h →
    (h.saveLiveIterate.isSome ∨ h.saveLiveComplete.isSome) → h.saveLiveSetup.isSome
  active : ∀ se ∈ handlers, ∀ m m', I m → I m' → se.isActive m = se.isActive m'
  steps : ∀ se ∈ handlers, ∀ h step, se.ops = some h →
    (h.saveLiveSetup = some step ∨ h.saveLiveIterate = some step ∨
      h.saveLiveComplete = some step) → ∀ m f, I m → I (step m f se.device).2.1

def SaveStateEntry.Live (I : Memory → Prop) (se : SaveStateEntry) : Prop :=
  (se.ops.bind SaveVMHandlers.saveLiveSetup).isSome ∧ ∀ m, I m → se.isActive m = true

theorem liveStep_eq_some {se : SaveStateEntry} {pick : SaveVMHandlers → Option LiveStep}
    {m : Memory} {step : LiveStep} :
    se.liveStep pick m = some step ↔
      (∃ h, se.ops = some h ∧ pick h = some step) ∧ se.isActive m = true := by
  rw [SaveStateEntry.liveStep]
  cases hops : se.ops with
  | none => simp
  | some h =>
      cases hpick : pick h with
      | none => simp [hpick]
      | some step' => by_cases hactive : se.isActive m <;> simp [hpick, hactive]

/-- Of every state that is sent in parts or completed, the setup has been sent before. -/
def Announced (sections : List Section) : Prop :=
  ∀ before s after, sections = before ++ s :: after → s.kind.opens = false →
    ∃ x ∈ before, x.kind = .start ∧ x.se = s.se

theorem Announced.append {xs ys : List Section} (hxs : Announced xs)
    (hys : ∀ y ∈ ys, y.kind.opens = true ∨ ∃ x ∈ xs, x.kind = .start ∧ x.se = y.se) :
    Announced (xs ++ ys) := by
  intro before s after hsplit hopens
  rcases List.append_eq_append_iff.mp hsplit with ⟨mid, rfl, hmid⟩ | ⟨mid, rfl, hmid⟩
  · have hs : s ∈ ys := hmid ▸ List.mem_append_right _ List.mem_cons_self
    rcases hys s hs with h | ⟨x, hx, hstart⟩
    · exact absurd (h.symm.trans hopens) (by decide)
    · exact ⟨x, List.mem_append_left _ hx, hstart⟩
  · cases mid with
    | nil =>
        obtain rfl : ys = s :: after := hmid.symm
        rcases hys s List.mem_cons_self with h | ⟨x, hx, hstart⟩
        · exact absurd (h.symm.trans hopens) (by decide)
        · rw [List.append_nil] at hx
          exact ⟨x, hx, hstart⟩
    | cons y mid =>
        obtain ⟨rfl, -⟩ := List.cons.inj hmid
        exact hxs before s mid rfl hopens

section Loops

variable {ops : PutOps} (hops : ops.Honest) {handlers : List SaveStateEntry} {I : Memory → Prop}
  (hd : Disciplined handlers I) {s : Sender} {ses : List SaveStateEntry}
  (hses : ∀ se ∈ ses, se ∈ handlers)

include hd

theorem Disciplined.live {se : SaveStateEntry} (hse : se ∈ handlers) {m : Memory} (hm : I m)
    {pick : SaveVMHandlers → Option LiveStep} {step : LiveStep}
    (hstep : se.liveStep pick m = some step)
    (hpick : pick = SaveVMHandlers.saveLiveIterate ∨ pick = SaveVMHandlers.saveLiveComplete) :
    se.Live I ∧ ∀ m f, I m → I (step m f se.device).2.1 := by
  obtain ⟨⟨h, hh, hpicked⟩, hactive⟩ := liveStep_eq_some.mp hstep
  refine ⟨⟨?_, fun m' hm' => (hd.active se hse m' m hm' hm).trans hactive⟩, ?_⟩
  · rw [hh, Option.bind_some]
    refine hd.setup se hse h hh ?_
    rcases hpick with rfl | rfl
    · exact .inl (by rw [hpicked]; rfl)
    · exact .inr (by rw [hpicked]; rfl)
  · refine hd.steps se hse h step hh ?_
    rcases hpick with rfl | rfl
    · exact .inr (.inl hpicked)
    · exact .inr (.inr hpicked)

include hops hses

theorem beginSections_sends :
    Sends ops I (fun x => x.kind = .start ∧ x.se ∈ handlers) s (beginSections ops ses s) ∧
      (s.Good ops I → ¬ Broken (beginSections ops ses s).file → ∀ se ∈ ses, se.Live I →
        ∃ x ∈ (beginSections ops ses s).sections, x.kind = .start ∧ x.se = se) := by
  induction ses generalizing s with
  | nil => exact ⟨.refl s, fun _ _ se hse => absurd hse List.not_mem_nil⟩
  | cons se ses ih =>
      obtain ⟨hse, hrest⟩ := List.forall_mem_cons.mp hses
      cases hstep : se.liveStep SaveVMHandlers.saveLiveSetup s.mem with
      | none =>
          obtain ⟨hsends, hall⟩ := ih (s := s) hrest
          have hskip : beginSections ops (se :: ses) s = beginSections ops ses s := by
            rw [beginSections, hstep]
          rw [hskip]
          refine ⟨hsends, fun hs hwhole =>
            List.forall_mem_cons.mpr ⟨fun hlive => ?_, hall hs hwhole⟩⟩
          obtain ⟨⟨setup, hsetup⟩, hactive⟩ := hlive.imp_left Option.isSome_iff_exists.mp
          obtain ⟨h, hh, hpick⟩ := Option.bind_eq_some_iff.mp hsetup
          exact absurd (liveStep_eq_some.mpr ⟨⟨h, hh, hpick⟩, hactive s.mem hs.keeps⟩)
            (by rw [hstep]; exact Option.some_ne_none _ ∘ Eq.symm)
      | some setup =>
          obtain ⟨⟨h, hh, hpick⟩, -⟩ := liveStep_eq_some.mp hstep
          obtain ⟨hsend, hfail⟩ := liveSection_sends hops .start
            (P := fun x => x.kind = .start ∧ x.se ∈ handlers)
            (hd.steps se hse h setup hh (.inl hpick)) (fun _ => ⟨rfl, hse⟩) s
          obtain ⟨calls, hsections⟩ : ∃ calls, (liveSection ops .start se setup s).2.sections =
            s.sections ++ [⟨.start, se, calls⟩] := ⟨_, rfl⟩
          have hgo : beginSections ops (se :: ses) s =
              if (liveSection ops .start se setup s).1 < 0 then
                (liveSection ops .start se setup s).2
              else beginSections ops ses (liveSection ops .start se setup s).2 := by
            rw [beginSections, hstep]
          rw [hgo]
          split_ifs with hneg
          · exact ⟨hsend, fun hs hwhole => absurd (hfail hs hneg) hwhole⟩
          · obtain ⟨hsends, hall⟩ := ih (s := (liveSection ops .start se setup s).2) hrest
            refine ⟨hsend.trans hsends, fun hs hwhole => ?_⟩
            have hs₁ := (hsend hs).1
            refine List.forall_mem_cons.mpr ⟨fun _ => ?_, hall hs₁ hwhole⟩
            obtain ⟨-, -, new, hnew, -⟩ := hsends hs₁
            refine ⟨⟨.start, se, calls⟩, ?_, rfl, rfl⟩
            rw [hnew, hsections]
            exact List.mem_append_left _ (List.mem_append_right _ List.mem_cons_self)

theorem iterateSections_sends (limit ret : Int) :
    Sends ops I (fun x => x.kind = .part ∧ x.se ∈ handlers ∧ x.se.Live I) s
      (iterateSections ops limit ses ret s).2 := by
  induction ses generalizing s ret with
  | nil => exact .refl s
  | cons se ses ih =>
      obtain ⟨hse, hrest⟩ := List.forall_mem_cons.mp hses
      intro hs
      rw [iterateSections]
      cases hstep : se.liveStep SaveVMHandlers.saveLiveIterate s.mem with
      | none => exact ih hrest ret hs
      | some iterate =>
          obtain ⟨hlive, hkeeps⟩ := hd.live hse hs.keeps hstep (.inl rfl)
          obtain ⟨hsend, -⟩ := liveSection_sends hops .part
            (P := fun x => x.kind = .part ∧ x.se ∈ handlers ∧ x.se.Live I) hkeeps
            (fun _ => ⟨rfl, hse, hlive⟩) s
          dsimp only
          split_ifs
          · exact Sends.refl s hs
          · exact hsend hs
          · exact hsend.trans (ih hrest _) hs

theorem completeSections_sends :
    Sends ops I (fun x => x.kind = .finish ∧ x.se ∈ handlers ∧ x.se.Live I) s
        (completeSections ops ses s).2 ∧
      (s.Good ops I → (completeSections ops ses s).1 = false →
        Broken (completeSections ops ses s).2.file) := by
  suffices hboth : s.Good ops I → Sends ops I
        (fun x => x.kind = .finish ∧ x.se ∈ handlers ∧ x.se.Live I) s
        (completeSections ops ses s).2 ∧ ((completeSections ops ses s).1 = false →
        Broken (completeSections ops ses s).2.file) from
    ⟨fun hs => (hboth hs).1 hs, fun hs => (hboth hs).2⟩
  induction ses generalizing s with
  | nil => exact fun _ => ⟨.refl s, fun h => nomatch h⟩
  | cons se ses ih =>
      obtain ⟨hse, hrest⟩ := List.forall_mem_cons.mp hses
      intro hs
      rw [completeSections]
      cases hstep : se.liveStep SaveVMHandlers.saveLiveComplete s.mem with
      | none => exact ih hrest hs
      | some complete =>
          obtain ⟨hlive, hkeeps⟩ := hd.live hse hs.keeps hstep (.inr rfl)
          obtain ⟨hsend, hfail⟩ := liveSection_sends hops .finish
            (P := fun x => x.kind = .finish ∧ x.se ∈ handlers ∧ x.se.Live I) hkeeps
            (fun _ => ⟨rfl, hse, hlive⟩) s
          dsimp only
          split_ifs with hneg
          · exact ⟨hsend, fun _ => hfail hs hneg⟩
          · obtain ⟨hsends, hfails⟩ := ih hrest (hsend hs).1
            exact ⟨hsend.trans hsends, hfails⟩

end Loops

/-! ## Whole migrations -/

theorem mem_fullSections {ses : List SaveStateEntry} {m : Memory} {x : Section}
    (hx : x ∈ (fullSections ses m).2) : x.kind = .full ∧ x.se ∈ ses := by
  induction ses generalizing m with
  | nil => exact absurd hx List.not_mem_nil
  | cons se ses ih =>
      simp only [fullSections] at hx
      split_ifs at hx
      · rcases List.mem_cons.mp hx with rfl | hx
        · exact ⟨rfl, List.mem_cons_self⟩
        · exact (ih hx).imp_right (List.mem_cons_of_mem _)
      · exact (ih hx).imp_right (List.mem_cons_of_mem _)

structure Legible (handlers : List SaveStateEntry) (I : Memory → Prop) (sections : List Section) :
    Prop where
  announced : Announced sections
  known : ∀ x ∈ sections, x.se ∈ handlers
  begun : ∀ se ∈ handlers, se.Live I → ∃ x ∈ sections, x.kind = .start ∧ x.se = se

theorem Legible.append {handlers : List SaveStateEntry} {I : Memory → Prop}
    {sections new : List Section} (h : Legible handlers I sections)
    (hnew : ∀ x ∈ new, x.se ∈ handlers ∧ (x.kind.opens = true ∨ x.se.Live I)) :
    Legible handlers I (sections ++ new) where
  announced := h.announced.append fun x hx => (hnew x hx).2.imp_right (h.begun x.se (hnew x hx).1)
  known := List.forall_mem_append.mpr ⟨h.known, fun x hx => (hnew x hx).1⟩
  begun se hse hlive :=
    let ⟨x, hx, hstart⟩ := h.begun se hse hlive
    ⟨x, List.mem_append_left _ hx, hstart⟩

section Whole

variable {ops : PutOps} (hops : ops.Honest) {handlers : List SaveStateEntry} {I : Memory → Prop}
  (hd : Disciplined handlers I)

include hops hd

theorem begin_legible {params : MigrationParams} {m : Memory}
    (hm : I (setAllParams params handlers m)) {f : PutFile} (hf : Ready f)
    (hempty : ops.total f = []) :
    let s := qemuSavevmStateBegin ops params handlers { mem := m, file := f }
    s.Good ops I ∧ (¬ Broken s.file → Legible handlers I s.sections) := by
  intro s
  obtain ⟨hput, hready⟩ := putAll_spec hops fileHeader hf
  have hstart : Sender.Good ops I
      { mem := setAllParams params handlers m, file := putAll ops fileHeader f } := by
    refine ⟨hready, fun hwhole => ?_, hm⟩
    rw [(hput.whole hwhole).2, hempty, List.nil_append, sentBytes, List.flatMap_nil,
      List.append_nil]
  obtain ⟨hsends, hall⟩ := beginSections_sends hops hd (fun _ h => h)
    (s := { mem := setAllParams params handlers m, file := putAll ops fileHeader f })
  obtain ⟨hgood, -, new, hnew, hP⟩ := hsends hstart
  rw [List.nil_append] at hnew
  refine ⟨hgood, fun hwhole => ⟨?_, ?_, hall hstart hwhole⟩⟩
  · intro before x after hsplit hopens
    have hx := (hP x (hnew ▸ hsplit ▸ List.mem_append_right _ List.mem_cons_self)).1
    rw [hx] at hopens
    cases hopens
  · intro x hx
    exact (hP x (hnew ▸ hx)).2

theorem run_legible {run : List LiveOp}
    (hguest : ∀ change, .guest change ∈ run → ∀ m, I m → I (change m)) {s : Sender}
    (hs : s.Good ops I) (hlegible : ¬ Broken s.file → Legible handlers I s.sections) :
    let s' := run.foldl (fun s op => op.exec ops handlers s) s
    s'.Good ops I ∧ (¬ Broken s'.file → Legible handlers I s'.sections) := by
  induction run generalizing s with
  | nil => exact ⟨hs, hlegible⟩
  | cons op run ih =>
      have hrest : ∀ change, .guest change ∈ run → ∀ m, I m → I (change m) :=
        fun change h => hguest change (List.mem_cons_of_mem _ h)
      cases op with
      | iterate limit =>
          obtain ⟨hgood, hstuck, new, hnew, hP⟩ :=
            iterateSections_sends hops hd (fun _ h => h) limit 1 hs
          refine ih hrest hgood fun hwhole => ?_
          show Legible handlers I (iterateSections ops limit handlers 1 s).2.sections
          rw [hnew]
          exact (hlegible fun h => hwhole (hstuck h)).append
            fun x hx => ⟨(hP x hx).2.1, .inr (hP x hx).2.2⟩
      | resetRateLimit =>
          have hready := hs.ready
          exact ih hrest ⟨⟨hready.index, hready.slots, hready.free, hready.error, hready.pos⟩,
            hs.stream, hs.keeps⟩ hlegible
      | guest change =>
          exact ih hrest ⟨hs.ready, hs.stream, hguest change List.mem_cons_self s.mem hs.keeps⟩
            hlegible

theorem complete_legible {s : Sender} (hs : s.Good ops I)
    (hlegible : ¬ Broken s.file → Legible handlers I s.sections) :
    let s' := qemuSavevmStateComplete ops handlers s
    Ready s'.file ∧ (¬ Broken s'.file → ops.total s'.file = putBytes (fileCalls s'.sections) ∧
      Legible handlers I s'.sections) := by
  obtain ⟨hsends, hfails⟩ := completeSections_sends hops hd (fun _ h => h) (s := s)
  obtain ⟨hgood, hstuck, new, hnew, hP⟩ := hsends hs
  have hfail := hfails hs
  rw [qemuSavevmStateComplete]
  generalize completeSections ops handlers s = r at hgood hstuck hnew hfail
  obtain ⟨done, s₁⟩ := r
  cases done with
  | false => exact ⟨hgood.ready, fun hwhole => absurd (hfail rfl) hwhole⟩
  | true =>
      dsimp only at hgood hstuck hnew ⊢
      obtain ⟨hput, hready⟩ := putAll_spec hops
        ((fullSections handlers s₁.mem).2.flatMap Section.calls ++ [.byte qemuVmEof]) hgood.ready
      obtain ⟨hflush, hready'⟩ := qemuFflush_spec hops hready.error hready.pos
      refine ⟨hready', fun hwhole => ?_⟩
      obtain ⟨hwhole₁, htotal⟩ := (hput.trans hflush).whole hwhole
      constructor
      · rw [htotal, hgood.stream hwhole₁, List.append_nil, putBytes_append, ← List.append_assoc,
          ← sentBytes_append, fileCalls, putBytes_append, sentBytes]
      · rw [hnew]
        refine ((hlegible fun h => hwhole₁ (hstuck h)).append fun x hx =>
          ⟨(hP x hx).2.1, .inr (hP x hx).2.2⟩).append fun x hx => ?_
        obtain ⟨hkind, hse⟩ := mem_fullSections hx
        exact ⟨hse, .inl (by rw [hkind]; rfl)⟩

end Whole

/-! ## The receiver -/

/-- What the receiver enters for a section that names its state. -/
def entered (counterpart : SaveStateEntry → SaveStateEntry) (s : Section) : LoadStateEntry :=
  ⟨counterpart s.se, s.se.sectionId, s.se.versionId⟩

theorem tailBytes_head (sections : List Section) (rest : List U8) :
    (tailBytes sections ++ rest).head? ≠ some qemuVmSubsection := by
  cases sections with
  | nil => exact fun h => absurd (Option.some.inj h) (by decide)
  | cons s ss =>
      intro h
      have hcode : some s.kind.code = some qemuVmSubsection := h
      cases hk : s.kind <;> rw [hk] at hcode <;> exact absurd (Option.some.inj hcode) (by decide)

theorem find_entered {handlers : List SaveStateEntry}
    (hids : (handlers.map SaveStateEntry.sectionId).Nodup)
    (counterpart : SaveStateEntry → SaveStateEntry) {before : List Section} {s : Section}
    (hbefore : ∀ x ∈ before, x.se ∈ handlers) (hs : s.se ∈ handlers)
    (hstart : ∃ x ∈ before, x.kind = .start ∧ x.se = s.se) :
    (((before.filter fun x => x.kind.opens).reverse.map (entered counterpart)).find?
      fun le => le.sectionId = s.se.sectionId) = some (entered counterpart s) := by
  obtain ⟨x, hx, hkind, hxs⟩ := hstart
  have hmem : entered counterpart x ∈
      (before.filter fun x => x.kind.opens).reverse.map (entered counterpart) := by
    refine List.mem_map_of_mem (List.mem_reverse.mpr (List.mem_filter.mpr ⟨hx, ?_⟩))
    rw [hkind]
    rfl
  cases hfind : ((before.filter fun x => x.kind.opens).reverse.map (entered counterpart)).find?
      fun le => le.sectionId = s.se.sectionId with
  | none =>
      have hnone := List.find?_eq_none.mp hfind _ hmem
      simp only [entered, hxs, decide_true, not_true_eq_false] at hnone
  | some le =>
      obtain ⟨y, hy, rfl⟩ := List.mem_map.mp (List.mem_of_find?_eq_some hfind)
      have hid : y.se.sectionId = s.se.sectionId := by
        have hmatch := List.find?_some hfind
        rwa [decide_eq_true_eq] at hmatch
      have hy' := hbefore y (List.mem_of_mem_filter (List.mem_reverse.mp hy))
      rw [entered, List.inj_on_of_nodup_map hids hy' hs hid]
      rfl

/-- Sections that are announced are followed, each to the counterpart of its sender. -/
theorem follows_of_announced {ops : GetOps} {handlers receivers : List SaveStateEntry}
    {counterpart : SaveStateEntry → SaveStateEntry} {effect : Section → Memory → Memory}
    (hids : (handlers.map SaveStateEntry.sectionId).Nodup)
    (hsendable : ∀ se ∈ handlers, se.Sendable)
    (hfound : ∀ se ∈ handlers, findSe receivers se.idstr se.instanceId = some (counterpart se) ∧
      (counterpart se).versionId = se.versionId) {rest : List U8}
    (before : List Section) {after : List Section} (hannounced : Announced (before ++ after))
    (hknown : ∀ x ∈ before ++ after, x.se ∈ handlers)
    (hload : ∀ x ∈ after, ∀ m rest, rest.head? ≠ some qemuVmSubsection →
      Gets (vmstateLoad ops (counterpart x.se) x.se.versionId m) (putBytes x.payload) rest
        (0, effect x m)) (m : Memory) :
    Follows ops receivers rest after
      ((before.filter fun x => x.kind.opens).reverse.map (entered counterpart)) m
      (after.foldl (fun m x => effect x m) m) := by
  induction after generalizing before m with
  | nil => rfl
  | cons s after ih =>
      obtain ⟨hs, hafter⟩ := List.forall_mem_cons.mp hload
      have hse : s.se ∈ handlers := hknown s (List.mem_append_right _ List.mem_cons_self)
      have hassoc : before ++ s :: after = before ++ [s] ++ after := by
        rw [List.append_assoc, List.singleton_append]
      have hrest := ih (before ++ [s]) (hassoc ▸ hannounced) (hassoc ▸ hknown) hafter (effect s m)
      refine ⟨entered counterpart s, effect s m, ?_, hs m _ (tailBytes_head after rest), ?_⟩
      · rw [Section.Meets]
        split_ifs with hopens
        · exact ⟨hsendable s.se hse, (hfound s.se hse).1, (hfound s.se hse).2, rfl, rfl⟩
        · exact find_entered hids counterpart
            (fun x hx => hknown x (List.mem_append_left _ hx)) hse
            (hannounced before s after rfl (Bool.eq_false_iff.mpr hopens))
      · rw [List.filter_append, List.filter_cons] at hrest
        split_ifs with hopens
        · rw [if_pos hopens] at hrest
          simpa using hrest
        · rw [if_neg hopens] at hrest
          simpa using hrest

/--
However the parts are interleaved with the running machine and the limits on the file:
once the file is closed without an error the receiver follows the stream to its end, and
hands every section to the counterpart of the state that it was sent for.
-/
theorem migrate_loaded (putOps : PutOps) (hput : putOps.Honest) (mem : Memory) (buf : U64)
    (close : Option Int) (handlers : List SaveStateEntry)
    (hids : (handlers.map SaveStateEntry.sectionId).Nodup)
    (hsendable : ∀ se ∈ handlers, se.Sendable) (I : Memory → Prop) (hd : Disciplined handlers I)
    (params : MigrationParams) (m : Memory) (hm : I (setAllParams params handlers m))
    (run : List LiveOp) (hguest : ∀ change, .guest change ∈ run → ∀ m, I m → I (change m))
    (ops : GetOps) (hops : ops.Steady) (junk : List U8) (receivers : List SaveStateEntry)
    (hmigrate : receivers.any SaveStateEntry.noMigrate = false)
    (counterpart : SaveStateEntry → SaveStateEntry)
    (hfound : ∀ se ∈ handlers, findSe receivers se.idstr se.instanceId = some (counterpart se) ∧
      (counterpart se).versionId = se.versionId)
    (effect : Section → Memory → Memory) (m' : Memory) :
    let s := migrate putOps params handlers run { mem := m, file := qemuFopenOps mem buf }
    (∀ x ∈ s.sections, ∀ m rest, rest.head? ≠ some qemuVmSubsection →
      Gets (vmstateLoad ops (counterpart x.se) x.se.versionId m) (putBytes x.payload) rest
        (0, effect x m)) →
    0 ≤ (qemuFclose putOps close s.file).1 →
      ∃ g, qemuLoadvmState ops junk receivers m'
          { source := (qemuFclose putOps close s.file).2.sent } =
            .ok ((0, s.sections.foldl (fun m x => effect x m) m'), g) ∧
        g.lastError = 0 ∧ g.content = [] := by
  intro s hload hclose
  obtain ⟨hgood, hbegun⟩ := begin_legible hput hd hm (qemuFopenOps_ready mem buf) total_start
  obtain ⟨hgood', hsent⟩ := run_legible hput hd hguest hgood hbegun
  obtain ⟨hready, hall⟩ := complete_legible hput hd hgood' hsent
  obtain ⟨hwhole, hclosed, -⟩ := total_of_close hput hready hclose
  obtain ⟨hstream, hlegible⟩ := hall hwhole
  have hfollows : Follows ops receivers [] s.sections [] m'
      (s.sections.foldl (fun m x => effect x m) m') :=
    follows_of_announced hids hsendable hfound [] hlegible.announced hlegible.known hload m'
  have hstart : GetFile.Sound { source := (qemuFclose putOps close s.file).2.sent } :=
    ⟨⟨le_rfl, show 0 ≤ ioBufSize by decide⟩, rfl⟩
  have hsource : (qemuFclose putOps close s.file).2.sent =
      putBytes (fileCalls s.sections) ++ [] := by
    rw [List.append_nil]
    exact hclosed.trans hstream
  obtain ⟨g, hrun, hg, hcontent⟩ := gets_loadvm hops junk hmigrate hfollows _ hstart hsource
  exact ⟨g, hrun, hg.noError, hcontent⟩

/-- A handler that sends the byte at the device, and has done its work then. -/
def sendByte : LiveStep := fun m _ device => (1, m, [.byte (m device)])

def byteHandlers : SaveVMHandlers where
  saveLiveSetup := some sendByte
  saveLiveIterate := some sendByte
  saveLiveComplete := some sendByte
  loadState := fun ops device _ m => do
    let b ← act (qemuGetByte ops)
    pure (0, m.write device [b])

def byteEntry (device : U64) : SaveStateEntry where
  idstr := .slash
  instanceId := 0
  versionId := 1
  sectionId := 7
  ops := some byteHandlers
  device := device

def byteMemory : Memory := Memory.blank.write 0x10 [3]

def byteRun : List LiveOp :=
  [.iterate 0, .guest fun m => m.write 0x10 [4], .resetRateLimit, .iterate 0,
    .guest fun m => m.write 0x10 [5]]

def byteMigration : Sender :=
  migrate openBackend ⟨false, false⟩ [byteEntry 0x10] byteRun
    { mem := byteMemory, file := qemuFopenOps Memory.blank 0x20000 }

theorem byteMigration_sections : byteMigration.sections =
    [⟨.start, byteEntry 0x10, [.byte 3]⟩, ⟨.part, byteEntry 0x10, [.byte 3]⟩,
      ⟨.part, byteEntry 0x10, [.byte 4]⟩, ⟨.finish, byteEntry 0x10, [.byte 5]⟩] := by
  rfl

theorem byteHandlers_disciplined (device : U64) :
    Disciplined [byteEntry device] fun _ => True where
  setup se hse h hh _ := by
    obtain rfl := List.mem_singleton.mp hse
    obtain rfl := Option.some.inj hh
    rfl
  active se hse m m' _ _ := by
    obtain rfl := List.mem_singleton.mp hse
    rfl
  steps _ _ _ _ _ _ _ _ _ := trivial

theorem migrate_loaded_byte :
    ∃ mem g, qemuLoadvmState (fun _ => .bytes 2) [] [byteEntry 0x50] Memory.blank
      { source := (qemuFclose openBackend (some 0) byteMigration.file).2.sent } =
        .ok ((0, mem), g) ∧ mem.read 0x4f 3 = [0, 5, 0] := by
  have hload : ∀ x ∈ byteMigration.sections, ∀ m rest, rest.head? ≠ some qemuVmSubsection →
      Gets (vmstateLoad (fun _ => .bytes 2) (byteEntry 0x50) x.se.versionId m)
        (putBytes x.payload) rest (0, m.write 0x50 (putBytes x.payload)) := by
    have hbyte : ∀ b m rest, Gets (vmstateLoad (fun _ => .bytes 2) (byteEntry 0x50) 1 m)
        ([b] ++ []) rest (0, m.write 0x50 [b]) :=
      fun b m rest => (gets_byte (fun _ => ⟨2, rfl⟩) b _).bind (.pure rest _)
    rw [byteMigration_sections]
    simp only [List.forall_mem_cons]
    exact ⟨fun m rest _ => hbyte 3 m rest, fun m rest _ => hbyte 3 m rest,
      fun m rest _ => hbyte 4 m rest, fun m rest _ => hbyte 5 m rest, fun _ h => nomatch h⟩
  obtain ⟨g, hrun, -, -⟩ := migrate_loaded openBackend openBackend_honest Memory.blank 0x20000
    (some 0) [byteEntry 0x10] (by decide)
    (fun se hse => by
      obtain rfl := List.mem_singleton.mp hse
      exact ⟨by decide, by decide, by decide, by decide, by decide⟩)
    (fun _ => True) (byteHandlers_disciplined 0x10)
    ⟨false, false⟩ byteMemory trivial byteRun (fun _ _ _ _ => trivial) (fun _ => .bytes 2)
    (fun _ => ⟨2, rfl⟩) [] [byteEntry 0x50] rfl (fun _ => byteEntry 0x50)
    (fun se hse => by
      obtain rfl := List.mem_singleton.mp hse
      exact ⟨rfl, rfl⟩)
    (fun x m => m.write 0x50 (putBytes x.payload)) Memory.blank hload (by decide +kernel)
  exact ⟨_, g, hrun, by decide⟩

end SE4VM.Savevm
