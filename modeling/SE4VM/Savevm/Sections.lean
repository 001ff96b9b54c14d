import SE4VM.Savevm.Registry
import SE4VM.Savevm.RoundTrip

/-!
# Sections

A whole machine is saved in sections, one for each state and more for those that are
sent while the machine runs.  The first section of a state names it; later ones repeat
only the section number, which the receiver has to remember.
-/

namespace SE4VM.Savevm

open SE4VM.Foundation

def qemuVmFileMagic : Nat := 0x5145564d
def qemuVmFileVersionCompat : Nat := 0x00000002
def qemuVmFileVersion : Nat := 0x00000003

def qemuVmEof : U8 := 0x00
def qemuVmSectionStart : U8 := 0x01
def qemuVmSectionPart : U8 := 0x02
def qemuVmSectionEnd : U8 := 0x03
def qemuVmSectionFull : U8 := 0x04

/-! ## Sending -/

inductive SectionKind where
  | start
  | part
  | finish
  | full
  deriving DecidableEq

def SectionKind.code : SectionKind → U8
  | start => qemuVmSectionStart
  | part => qemuVmSectionPart
  | finish => qemuVmSectionEnd
  | full => qemuVmSectionFull

/-- Whether the section tells which state it belongs to. -/
def SectionKind.opens : SectionKind → Bool
  | start => true
  | full => true
  | part => false
  | finish => false

structure Section where
  kind : SectionKind
  se : SaveStateEntry
  payload : List PutCall

def idCalls (se : SaveStateEntry) : List PutCall :=
  let len := BitVec.ofNat 8 se.idstr.bytes.length
  .byte len :: .buffer se.idstr.bytes :: qemuPutBe32 (BitVec.ofInt 32 se.instanceId).toNat ++
    qemuPutBe32 (BitVec.ofInt 32 se.versionId).toNat

def sectionHeader (kind : SectionKind) (se : SaveStateEntry) : List PutCall :=
  .byte kind.code :: qemuPutBe32 se.sectionId.toNat ++ if kind.opens then idCalls se else []

def Section.calls (s : Section) : List PutCall := sectionHeader s.kind s.se ++ s.payload

def fileHeader : List PutCall := qemuPutBe32 qemuVmFileMagic ++ qemuPutBe32 qemuVmFileVersion

def fileCalls (sections : List Section) : List PutCall :=
  fileHeader ++ sections.flatMap Section.calls ++ [.byte qemuVmEof]

def vmstateSave (se : SaveStateEntry) (m : Memory) : Memory × List PutCall :=
  match se.vmsd with
  | none =>
      match se.ops.bind SaveVMHandlers.saveState with
      | some save => (m, save m se.device)
      | none => (m, [])
  | some (_, d) =>
      let (m, items) := vmstateSaveState d se.device m
      (m, items.flatMap Item.calls)

/-- `(!se->ops || !se->ops->save_state) && !se->vmsd` is false. -/
def SaveStateEntry.hasState (se : SaveStateEntry) : Bool :=
  (se.ops.bind SaveVMHandlers.saveState).isSome || se.vmsd.isSome

def fullSections : List SaveStateEntry → Memory → Memory × List Section
  | [], m => (m, [])
  | se :: ses, m =>
      if se.hasState then
        let (m, calls) := vmstateSave se m
        let (m, sections) := fullSections ses m
        (m, ⟨.full, se, calls⟩ :: sections)
      else fullSections ses m

def qemuSaveDeviceState (handlers : List SaveStateEntry) (m : Memory) : Memory × List PutCall :=
  let (m, sections) := fullSections (handlers.filter fun se => !se.isRam) m
  (m, fileCalls sections)

/-! ## Receiving -/

structure LoadStateEntry where
  se : SaveStateEntry
  sectionId : U32
  versionId : Int

def vmstateLoad (ops : GetOps) (se : SaveStateEntry) (versionId : Int) : Loader :=
  match se.vmsd with
  | none =>
      match se.ops with
      | some h => h.loadState ops se.device versionId
      | none => fun _ _ => .fault
  | some (_, d) => vmstateLoadState ops d se.device versionId

def CString.ofBytes (bs : List U8) : CString :=
  ⟨cstr bs, fun h => by simpa using List.mem_takeWhile_imp h⟩

/-- The conversion of a `uint32_t` to an `int`. -/
def asInt (v : Nat) : Int := (BitVec.ofNat 32 v).toInt

/-- The end of a round: the state of the section is loaded. -/
def loadSection (ops : GetOps) (le : LoadStateEntry) (les : List LoadStateEntry) (m : Memory) :
    StateT GetFile Run (Step (Memory × List LoadStateEntry) (Int × Memory)) := do
  let (ret, m) ← vmstateLoad ops le.se le.versionId m
  pure (if ret < 0 then .done (ret, m) else .next (m, les))

/-- `junk` is what the array `idstr` happens to hold when a string is read into it. -/
def loadRound (ops : GetOps) (junk : List U8) (handlers : List SaveStateEntry)
    (st : Memory × List LoadStateEntry) :
    StateT GetFile Run (Step (Memory × List LoadStateEntry) (Int × Memory)) := do
  let (m, les) := st
  let t ← act (qemuGetByte ops)
  if t = qemuVmEof then pure (.done (0, m))
  else if t = qemuVmSectionStart ∨ t = qemuVmSectionFull then
    let sectionId ← act (qemuGetBe32 ops)
    let len ← act (qemuGetByte ops)
    let got ← act (qemuGetBuffer ops len.toNat)
    let instanceId ← act (qemuGetBe32 ops)
    let versionId ← act (qemuGetBe32 ops)
    let idstr := CString.ofBytes ((got ++ junk.drop got.length).take len.toNat)
    match findSe handlers idstr (asInt instanceId) with
    | none => pure (.done (-einval, m))
    | some se =>
        if (BitVec.ofInt 32 se.versionId).toNat < versionId then pure (.done (-einval, m))
        else
          let le := ⟨se, BitVec.ofNat 32 sectionId, asInt versionId⟩
          loadSection ops le (le :: les) m
  else if t = qemuVmSectionPart ∨ t = qemuVmSectionEnd then
    let sectionId ← act (qemuGetBe32 ops)
    match les.find? fun le => le.sectionId = BitVec.ofNat 32 sectionId with
    | none => pure (.done (-einval, m))
    | some le => loadSection ops le les m
  else pure (.done (-einval, m))

/-- Every round but the last one reads a byte at least, so that there are rounds enough. -/
def loadSections (ops : GetOps) (junk : List U8) (handlers : List SaveStateEntry) : Loader :=
  fun m f => readLoop (loadRound ops junk handlers) (f.content.length + 1) (m, []) f

def qemuLoadvmState (ops : GetOps) (junk : List U8) (handlers : List SaveStateEntry) : Loader :=
  fun m =>
    if handlers.any SaveStateEntry.noMigrate then pure (-einval, m)
    else do
      let v ← act (qemuGetBe32 ops)
      if v ≠ qemuVmFileMagic then pure (-einval, m)
      else
        let v ← act (qemuGetBe32 ops)
        if v = qemuVmFileVersionCompat then pure (-enotsup, m)
        else if v ≠ qemuVmFileVersion then pure (-enotsup, m)
        else
          let (ret, m) ← loadSections ops junk handlers m
          let error ← act fun f => (f.lastError, f)
          pure (if ret = 0 then error else ret, m)

/-! ## One section after the other -/

/-- Numbers that keep their values on the stream. -/
structure SaveStateEntry.Sendable (se : SaveStateEntry) : Prop where
  idstr : se.idstr.bytes.length < 256
  nonneg : 0 ≤ se.instanceId
  instanceId : se.instanceId < 2 ^ 31
  version : 0 ≤ se.versionId
  versionId : se.versionId < 2 ^ 31

theorem asInt_ofInt {v : Int} (h : 0 ≤ v) (h' : v < 2 ^ 31) :
    asInt ((BitVec.ofInt 32 v).toNat % 256 ^ 4) = v := by
  have hmod : (BitVec.ofInt 32 v).toNat % 256 ^ 4 = (BitVec.ofInt 32 v).toNat :=
    Nat.mod_eq_of_lt (BitVec.ofInt 32 v).isLt
  rw [hmod, asInt, BitVec.ofNat_toNat, BitVec.setWidth_eq, BitVec.toInt_ofInt,
    Int.bmod_eq_of_le (by omega) (by omega)]

theorem ofNat_sectionId {id : U32} : BitVec.ofNat 32 (id.toNat % 256 ^ 4) = id := by
  rw [Nat.mod_eq_of_lt (show id.toNat < 256 ^ 4 from id.isLt), BitVec.ofNat_toNat,
    BitVec.setWidth_eq]

theorem CString.ofBytes_bytes (s : CString) : CString.ofBytes s.bytes = s := by
  obtain ⟨bs, hbs⟩ := s
  simp only [CString.ofBytes, CString.mk.injEq]
  exact CString.cstr_bytes ⟨bs, hbs⟩

theorem gets_loadSection {ops : GetOps} {le : LoadStateEntry} {les' : List LoadStateEntry}
    {m m' : Memory} {payload rest : List U8}
    (hload : Gets (vmstateLoad ops le.se le.versionId m) payload rest (0, m')) :
    Gets (loadSection ops le les' m) payload rest (.next (m', les')) := by
  rw [← List.append_nil payload]
  exact Reads.bind hload (.pure rest _)

theorem Section.putBytes_calls_of_opens {s : Section} (hkind : s.kind.opens = true) :
    putBytes s.calls = [s.kind.code] ++ (toBe 4 s.se.sectionId.toNat ++
      ([BitVec.ofNat 8 s.se.idstr.bytes.length] ++ (s.se.idstr.bytes ++
        (toBe 4 (BitVec.ofInt 32 s.se.instanceId).toNat ++
          (toBe 4 (BitVec.ofInt 32 s.se.versionId).toNat ++ putBytes s.payload))))) := by
  have hsplit : s.calls = [.byte s.kind.code] ++ (qemuPutBe32 s.se.sectionId.toNat ++
      ([.byte (BitVec.ofNat 8 s.se.idstr.bytes.length)] ++ ([.buffer s.se.idstr.bytes] ++
        (qemuPutBe32 (BitVec.ofInt 32 s.se.instanceId).toNat ++
          (qemuPutBe32 (BitVec.ofInt 32 s.se.versionId).toNat ++ s.payload))))) := by
    simp only [Section.calls, sectionHeader, hkind, if_true, idCalls, List.cons_append,
      List.nil_append, List.append_assoc]
  rw [hsplit]
  simp only [putBytes_append, qemuPutBe32, putBytes_putBe, putBytes_byte, putBytes_buffer]

section Rounds

variable {ops : GetOps} (hops : ops.Steady) {junk : List U8} {handlers : List SaveStateEntry}
  {m m' : Memory} {les : List LoadStateEntry} {rest : List U8}

include hops

/-- The receiver enters the section's number and goes on with the state it has found. -/
theorem gets_loadRound_opens {s : Section} (hkind : s.kind.opens = true) (hs : s.se.Sendable)
    {se : SaveStateEntry} (hfind : findSe handlers s.se.idstr s.se.instanceId = some se)
    (hversion : se.versionId = s.se.versionId)
    (hload : Gets (vmstateLoad ops se s.se.versionId m) (putBytes s.payload) rest (0, m')) :
    Gets (loadRound ops junk handlers (m, les)) (putBytes s.calls) rest
      (.next (m', ⟨se, s.se.sectionId, s.se.versionId⟩ :: les)) := by
  have hlen : (BitVec.ofNat 8 s.se.idstr.bytes.length).toNat = s.se.idstr.bytes.length := by
    rw [BitVec.toNat_ofNat]
    exact Nat.mod_eq_of_lt hs.idstr
  have hnotEof : ¬ s.kind.code = qemuVmEof := by
    cases hk : s.kind <;> decide
  have hopens : s.kind.code = qemuVmSectionStart ∨ s.kind.code = qemuVmSectionFull := by
    cases hk : s.kind with
    | start => exact .inl rfl
    | full => exact .inr rfl
    | part => rw [hk] at hkind; cases hkind
    | finish => rw [hk] at hkind; cases hkind
  have hidstr : CString.ofBytes ((s.se.idstr.bytes ++ junk.drop s.se.idstr.bytes.length).take
      (BitVec.ofNat 8 s.se.idstr.bytes.length).toNat) = s.se.idstr := by
    rw [hlen, List.take_left, CString.ofBytes_bytes]
  have hbuffer : Gets (act (qemuGetBuffer ops (BitVec.ofNat 8 s.se.idstr.bytes.length).toNat))
      s.se.idstr.bytes (toBe 4 (BitVec.ofInt 32 s.se.instanceId).toNat ++
        (toBe 4 (BitVec.ofInt 32 s.se.versionId).toNat ++ putBytes s.payload) ++ rest)
      s.se.idstr.bytes := by
    rw [hlen]
    exact gets_buffer hops (hs.idstr.le.trans (by decide)) _
  rw [Section.putBytes_calls_of_opens hkind]
  refine (gets_byte hops _ _).bind ?_
  rw [if_neg hnotEof, if_pos hopens]
  refine (gets_be hops 4 _ _).bind ((gets_byte hops _ _).bind (hbuffer.bind
    ((gets_be hops 4 _ _).bind ((gets_be hops 4 _ _).bind ?_))))
  dsimp only
  rw [hidstr, asInt_ofInt hs.nonneg hs.instanceId, hfind]
  dsimp only
  rw [hversion, if_neg (Nat.not_lt.mpr (Nat.mod_le _ _)), asInt_ofInt hs.version hs.versionId,
    ofNat_sectionId]
  exact gets_loadSection hload

/-- A later section goes to the state that its number was entered with. -/
theorem gets_loadRound_continues {s : Section} (hkind : s.kind.opens = false)
    {le : LoadStateEntry}
    (hfind : (les.find? fun le => le.sectionId = s.se.sectionId) = some le)
    (hload : Gets (vmstateLoad ops le.se le.versionId m) (putBytes s.payload) rest (0, m')) :
    Gets (loadRound ops junk handlers (m, les)) (putBytes s.calls) rest (.next (m', les)) := by
  have hcalls : putBytes s.calls =
      [s.kind.code] ++ (toBe 4 s.se.sectionId.toNat ++ putBytes s.payload) := by
    have hsplit : s.calls = [.byte s.kind.code] ++
        (qemuPutBe32 s.se.sectionId.toNat ++ s.payload) := by
      simp only [Section.calls, sectionHeader, hkind, Bool.false_eq_true, if_false,
        List.append_nil, List.cons_append, List.nil_append]
    rw [hsplit]
    simp only [putBytes_append, qemuPutBe32, putBytes_putBe, putBytes_byte]
  have hcode : ¬ s.kind.code = qemuVmEof ∧
      ¬ (s.kind.code = qemuVmSectionStart ∨ s.kind.code = qemuVmSectionFull) ∧
      (s.kind.code = qemuVmSectionPart ∨ s.kind.code = qemuVmSectionEnd) := by
    cases hk : s.kind with
    | start => rw [hk] at hkind; cases hkind
    | full => rw [hk] at hkind; cases hkind
    | part => decide
    | finish => decide
  rw [hcalls]
  refine (gets_byte hops _ _).bind ?_
  rw [if_neg hcode.1, if_neg hcode.2.1, if_pos hcode.2.2]
  refine (gets_be hops 4 _ _).bind ?_
  rw [ofNat_sectionId, hfind]
  exact gets_loadSection hload

end Rounds

/-! ## Whole streams -/

def tailBytes (sections : List Section) : List U8 :=
  putBytes (sections.flatMap Section.calls ++ [.byte qemuVmEof])

/-- The entry that the receiver takes a section for. -/
def Section.Meets (handlers : List SaveStateEntry) (les : List LoadStateEntry) (s : Section)
    (le : LoadStateEntry) : Prop :=
  if s.kind.opens then
    s.se.Sendable ∧ findSe handlers s.se.idstr s.se.instanceId = some le.se ∧
      le.se.versionId = s.se.versionId ∧ le.sectionId = s.se.sectionId ∧
      le.versionId = s.se.versionId
  else (les.find? fun le => le.sectionId = s.se.sectionId) = some le

/-- Section by section, the receiver finds an entry, which takes just the payload. -/
def Follows (ops : GetOps) (handlers : List SaveStateEntry) (rest : List U8) :
    List Section → List LoadStateEntry → Memory → Memory → Prop
  | [], _, m, m' => m = m'
  | s :: ss, les, m, m' => ∃ le m₁, s.Meets handlers les le ∧
      Gets (vmstateLoad ops le.se le.versionId m) (putBytes s.payload) (tailBytes ss ++ rest)
        (0, m₁) ∧
      Follows ops handlers rest ss (if s.kind.opens then le :: les else les) m₁ m'

theorem gets_sections {ops : GetOps} (hops : ops.Steady) {junk : List U8}
    {handlers : List SaveStateEntry} {rest : List U8} {sections : List Section}
    {les : List LoadStateEntry} {m m' : Memory} (h : Follows ops handlers rest sections les m m')
    {fuel : Nat} (hfuel : (tailBytes sections).length ≤ fuel) :
    Gets (readLoop (loadRound ops junk handlers) fuel (m, les)) (tailBytes sections) rest
      (0, m') := by
  induction sections generalizing les m fuel with
  | nil =>
      obtain rfl : m = m' := h
      obtain ⟨fuel, rfl⟩ := Nat.exists_eq_succ_of_ne_zero (Nat.ne_zero_of_lt hfuel)
      have heof : Gets (loadRound ops junk handlers (m, les)) ([qemuVmEof] ++ []) rest
          (.done (0, m)) := by
        refine (gets_byte hops qemuVmEof _).bind ?_
        rw [if_pos rfl]
        exact .pure rest _
      exact .loop_done heof fuel
  | cons s ss ih =>
      obtain ⟨le, m₁, hmeets, hload, hrest⟩ := h
      have htail : tailBytes (s :: ss) = putBytes s.calls ++ tailBytes ss := by
        rw [tailBytes, List.flatMap_cons, List.append_assoc, putBytes_append]
        rfl
      have hpos : 0 < (putBytes s.calls).length := by
        rw [Section.calls, sectionHeader, List.cons_append, List.cons_append, putBytes,
          List.flatMap_cons, List.length_append]
        exact Nat.lt_add_right _ Nat.zero_lt_one
      rw [htail, List.length_append] at hfuel
      obtain ⟨fuel, rfl⟩ := Nat.exists_eq_succ_of_ne_zero (show fuel ≠ 0 by omega)
      rw [htail]
      by_cases hkind : s.kind.opens = true
      · rw [Section.Meets, if_pos hkind] at hmeets
        rw [if_pos hkind] at hrest
        obtain ⟨hs, hfind, hversion, hid, hle⟩ := hmeets
        obtain ⟨se, sectionId, versionId⟩ := le
        dsimp only at hfind hversion hid hle hload
        rw [hid, hle] at hrest
        rw [hle] at hload
        exact .loop_next (gets_loadRound_opens hops hkind hs hfind hversion hload)
          (ih hrest (by omega))
      · rw [Section.Meets, if_neg hkind] at hmeets
        rw [if_neg hkind] at hrest
        exact .loop_next (gets_loadRound_continues hops (Bool.eq_false_iff.mpr hkind) hmeets
          hload) (ih hrest (by omega))

/-- A stream that the receiver can follow is loaded without an error. -/
theorem gets_loadvm {ops : GetOps} (hops : ops.Steady) (junk : List U8)
    {handlers : List SaveStateEntry} (hmigrate : handlers.any SaveStateEntry.noMigrate = false)
    {rest : List U8} {sections : List Section} {m m' : Memory}
    (h : Follows ops handlers rest sections [] m m') :
    Gets (qemuLoadvmState ops junk handlers m) (putBytes (fileCalls sections)) rest (0, m') := by
  have hfile : putBytes (fileCalls sections) = toBe 4 qemuVmFileMagic ++
      (toBe 4 qemuVmFileVersion ++ (tailBytes sections ++ ([] ++ []))) := by
    rw [fileCalls, fileHeader, List.append_assoc, List.append_assoc, putBytes_append,
      putBytes_append, qemuPutBe32, putBytes_putBe, putBytes_putBe, tailBytes, List.append_nil,
      List.append_nil]
  have hsections : Gets (loadSections ops junk handlers m) (tailBytes sections)
      ([] ++ [] ++ rest) (0, m') := by
    intro f hf hcontent
    refine gets_sections hops h ?_ f hf hcontent
    rw [hcontent, List.length_append]
    omega
  have herror : Gets (act fun f => (f.lastError, f)) [] ([] ++ rest) 0 :=
    fun f hf hcontent => ⟨f, by rw [act, hf.noError], hf, hcontent⟩
  rw [qemuLoadvmState, if_neg (by rw [hmigrate]; exact Bool.false_ne_true), hfile]
  refine (gets_be hops 4 _ _).bind ?_
  rw [if_neg (by decide)]
  refine (gets_be hops 4 _ _).bind ?_
  rw [if_neg (by decide), if_neg (by decide)]
  exact hsections.bind (herror.bind (.pure rest _))

/-! ## Whole machines -/

/-- The two machines describe the state in the same way, and the receiver finds its own. -/
structure Counterpart (handlers : List SaveStateEntry) (se : SaveStateEntry)
    (d : VMStateDescription) (se' : SaveStateEntry) : Prop where
  sendable : se.Sendable
  sends : ∃ a, se.vmsd = some (a, d)
  found : findSe handlers se.idstr se.instanceId = some se'
  receives : ∃ a, se'.vmsd = some (a, d)
  version : se.versionId = d.header.versionId
  version' : se'.versionId = d.header.versionId
  wellFormed : WellFormed d

def stateMoved (m : Memory) (se : SaveStateEntry) : List Block :=
  match se.vmsd with
  | some (_, d) => moved m (vmstateSaveState d se.device m).2
  | none => []

/-- The receiver can follow, with the blocks of the states before in their places. -/
def MachineFits (ρ : Relocation) (m m' : Memory) (handlers : List SaveStateEntry) :
    List SaveStateEntry → List Block → Prop
  | [], _ => True
  | se :: ses, S =>
      (se.hasState = true → ∃ d se', Counterpart handlers se d se' ∧
        Fits ρ (se'.device - se.device) m m' (vmstateSaveState d se.device m).2 S
          (tailBytes (fullSections ses m).2)) ∧
      MachineFits ρ m m' handlers ses (S ++ stateMoved m se)

theorem machine_follows {ops : GetOps} (hops : ops.Prompt 257) {ρ : Relocation} {m m' : Memory}
    {handlers : List SaveStateEntry} {ses : List SaveStateEntry} {S : List Block}
    (h : MachineFits ρ m m' handlers ses S) (les : List LoadStateEntry) :
    (fullSections ses m).1 = m ∧
      Follows ops handlers [] (fullSections ses m).2 les (transfer ρ S m m')
        (transfer ρ (S ++ ses.flatMap (stateMoved m)) m m') := by
  induction ses generalizing S les with
  | nil => exact ⟨rfl, by rw [List.flatMap_nil, List.append_nil]; rfl⟩
  | cons se ses ih =>
      obtain ⟨hstate, hrest⟩ := h
      rw [List.flatMap_cons, ← List.append_assoc]
      by_cases hhas : se.hasState = true
      · obtain ⟨d, se', hpart, hfits⟩ := hstate hhas
        obtain ⟨a, hsends⟩ := hpart.sends
        obtain ⟨a', hreceives⟩ := hpart.receives
        obtain ⟨hsame, hload⟩ : Carried ρ (se'.device - se.device) m m' _ _ :=
          carried_state hops hpart.wellFormed se.device
        have hmoved : stateMoved m se = moved m (vmstateSaveState d se.device m).2 := by
          rw [stateMoved, hsends]
        have haddr : se.device + (se'.device - se.device) = se'.device := by
          rw [BitVec.add_comm, BitVec.sub_add_cancel]
        have hsave : fullSections (se :: ses) m = ((fullSections ses m).1,
            ⟨.full, se, (vmstateSaveState d se.device m).2.flatMap Item.calls⟩ ::
              (fullSections ses m).2) := by
          simp only [fullSections, hhas, if_true, vmstateSave, hsends, hsame]
        obtain ⟨hm, hfollows⟩ := ih hrest (⟨se', se.sectionId, se.versionId⟩ :: les)
        rw [hsave]
        refine ⟨hm, ⟨se', se.sectionId, se.versionId⟩, transfer ρ (S ++ stateMoved m se) m m',
          ?_, ?_, hfollows⟩
        · exact ⟨hpart.sendable, hpart.found, hpart.version'.trans hpart.version.symm, rfl, rfl⟩
        · have hgets := hload S _ hfits
          rw [haddr] at hgets
          rw [vmstateLoad, hreceives, hpart.version, List.append_nil, hmoved]
          exact hgets
      · have hsave : fullSections (se :: ses) m = fullSections ses m := by
          rw [fullSections, if_neg hhas]
        have hmoved : stateMoved m se = [] := by
          rw [SaveStateEntry.hasState, Bool.or_eq_true, not_or] at hhas
          rw [stateMoved, Option.not_isSome_iff_eq_none.mp hhas.2]
        rw [hmoved, List.append_nil] at hrest ⊢
        rw [hsave]
        exact ih hrest les

/--
A machine that has been saved is brought back on another one: every state is found, and
its blocks are moved to where the receiver's device has them; nothing else changes.
-/
theorem qemuLoadvmState_saved (putOps : PutOps) (hput : putOps.Honest) (mem : Memory) (buf : U64)
    (close : Option Int) (ops : GetOps) (hops : ops.Prompt 257) (junk : List U8) (ρ : Relocation)
    (m m' : Memory) (senders receivers : List SaveStateEntry)
    (hmigrate : receivers.any SaveStateEntry.noMigrate = false) (S : List Block)
    (hagree : ∀ x y, ρ.origin y = some x → covers S x → m' y = m x)
    (hfits : MachineFits ρ m m' receivers (senders.filter fun se => !se.isRam) S) :
    let f := execAll putOps ((qemuSaveDeviceState senders m).2.map PutCall.op)
      (qemuFopenOps mem buf)
    0 ≤ (qemuFclose putOps close f).1 →
      ∃ g, qemuLoadvmState ops junk receivers m'
          { source := (qemuFclose putOps close f).2.sent } =
            .ok ((0, transfer ρ
              (S ++ (senders.filter fun se => !se.isRam).flatMap (stateMoved m)) m m'), g) ∧
        g.lastError = 0 ∧ g.content = [] := by
  intro f hclose
  obtain ⟨hallowed, hgiven⟩ := calls_spec putOps (qemuSaveDeviceState senders m).2
    (qemuFopenOps mem buf)
  have hsent := (sent_of_close hput hallowed hclose).1
  rw [hgiven, ← List.append_nil (putBytes _)] at hsent
  obtain ⟨-, hfollows⟩ := machine_follows hops hfits []
  rw [transfer_eq_self hagree] at hfollows
  have hstart : GetFile.Sound { source := (qemuFclose putOps close f).2.sent } :=
    ⟨⟨le_rfl, show 0 ≤ ioBufSize by decide⟩, rfl⟩
  obtain ⟨g, hrun, hg, hcontent⟩ := gets_loadvm hops.steady junk hmigrate hfollows _ hstart hsent
  exact ⟨g, hrun, hg.noError, hcontent⟩

def twin (n : Nat) (device : U64) : SaveStateEntry where
  idstr := countedState.header.name
  instanceId := n
  aliasId := -1
  versionId := 1
  sectionId := BitVec.ofNat 32 n
  vmsd := some (0x40, countedState)
  device := device

def twinMemory : Memory :=
  (Memory.blank.write 0x1000 [2, 7, 8, 0, 0, 0, 0, 0, 9]).write 0x2000 [1, 6, 0, 0, 0, 0, 0, 0, 5]

theorem twin_counterpart {handlers : List SaveStateEntry} {n : Nat} (hn : n < 2 ^ 31)
    {device : U64} (device' : U64)
    (hfind : findSe handlers countedState.header.name n = some (twin n device')) :
    Counterpart handlers (twin n device) countedState (twin n device') where
  sendable := ⟨show 1 < 256 by decide, show (0 : Int) ≤ n by omega,
    show (n : Int) < 2 ^ 31 by omega, show (0 : Int) ≤ 1 by decide,
    show (1 : Int) < 2 ^ 31 by decide⟩
  sends := ⟨0x40, rfl⟩
  found := hfind
  receives := ⟨0x40, rfl⟩
  version := rfl
  version' := rfl
  wellFormed := countedState_wellFormed

theorem twin_fits : MachineFits (.shift 0x500) twinMemory Memory.blank
    [twin 1 0x2500, twin 0 0x1500] [twin 0 0x1000, twin 1 0x2000] [] := by
  have hplaces := Relocation.places_shift 0x500
  refine ⟨fun _ => ⟨_, _, twin_counterpart (by decide) 0x1500 rfl, ?_⟩,
    fun _ => ⟨_, _, twin_counterpart (by decide) 0x2500 rfl, ?_⟩, trivial⟩
  · exact ⟨hplaces _ _, ⟨hplaces _ _, by decide⟩, hplaces _ _, hplaces _ _, hplaces _ _,
      by decide, by decide, trivial⟩
  · exact ⟨hplaces _ _, ⟨hplaces _ _, by decide⟩, hplaces _ _, hplaces _ _,
      by decide, by decide, trivial⟩

def twinFile : PutFile :=
  execAll openBackend ((qemuSaveDeviceState [twin 0 0x1000, twin 1 0x2000] twinMemory).2.map
    PutCall.op) (qemuFopenOps Memory.blank 0x20000)

/-- The receiver has its entries in another order. -/
theorem qemuLoadvmState_saved_twins :
    ∃ mem g, qemuLoadvmState (fun _ => .bytes 300) [] [twin 1 0x2500, twin 0 0x1500] Memory.blank
      { source := (qemuFclose openBackend (some 0) twinFile).2.sent } = .ok ((0, mem), g) ∧
      mem.read 0x1500 10 = [2, 7, 8, 0, 0, 0, 0, 0, 9, 0] ∧
      mem.read 0x2500 10 = [1, 6, 0, 0, 0, 0, 0, 0, 5, 0] := by
  obtain ⟨g, hload, -, -⟩ := qemuLoadvmState_saved openBackend openBackend_honest
    Memory.blank 0x20000 (some 0) (fun _ => .bytes 300) (fun _ => ⟨300, rfl, by decide⟩) []
    (.shift 0x500) twinMemory Memory.blank [twin 0 0x1000, twin 1 0x2000]
    [twin 1 0x2500, twin 0 0x1500] rfl [] (fun _ _ _ h => nomatch h) twin_fits
    (by decide +kernel)
  exact ⟨_, g, hload, by decide, by decide⟩

end SE4VM.Savevm
