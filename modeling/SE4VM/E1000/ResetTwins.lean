import SE4VM.E1000.Disguise
import SE4VM.E1000.EecdBehaviour
import SE4VM.E1000.Observation
import SE4VM.E1000.Reach

/-!
# Devices that differ in what a reset keeps

Twins have the same registers, `tx` and memory; the EEPROM transaction and the receive
buffer size may differ as long as no access shows it.  Twins stay twins, give the same
answers and have the same effects, whatever happens to both.
-/

namespace SE4VM.E1000

open SE4VM.Foundation

/-! ## Twins -/

structure Kept where
  eepromData : Nat → U16
  eecdState : EecdState
  rxbufSize : U32

def E1000State.kept (s : E1000State) : Kept := ⟨s.eepromData, s.eecdState, s.rxbufSize⟩

def E1000State.keep (s : E1000State) (k : Kept) : E1000State :=
  { s with eepromData := k.eepromData, eecdState := k.eecdState, rxbufSize := k.rxbufSize }

/--
A buffer size shows only by being zero, until `RCTL` chooses another one.  Only what a
device can have kept is like itself.
-/
structure Kept.Like (k k' : Kept) : Prop where
  eepromData : k'.eepromData = k.eepromData
  factory : HalvesDiffer k.eepromData
  masked : k.eecdState.Masked
  eecdState : SameBehaviour clockEecd (eecdView k.eepromData) k.eecdState k'.eecdState
  rxbufSize : k'.rxbufSize = 0#32 ↔ k.rxbufSize = 0#32

structure Twin (w w' : World) : Prop where
  eq : w' = w.over (·.keep w'.dev.kept)
  like : w.dev.kept.Like w'.dev.kept
  enabled : test (w.reg Reg.rctl) rctlEn = true → w'.dev.rxbufSize = w.dev.rxbufSize

/-- The operation neither reads nor writes what a reset keeps. -/
def Passes (f : World → World) : Prop :=
  ∀ (k : Kept) (u : World), f (u.over (·.keep k)) = (f u).over (·.keep k)

theorem Passes.kept {f : World → World} (hf : Passes f) (w : World) :
    (f w).dev.kept = w.dev.kept := by
  have hself : f w = (f w).over (·.keep w.dev.kept) := hf w.dev.kept w
  rw [hself]
  rfl

namespace Twin

variable {w w' : World}

theorem reg (h : Twin w w') (i : Nat) : w'.reg i = w.reg i := by
  rw [h.eq]
  rfl

theorem congr {α : Type} (h : Twin w w') (f : E1000State → α)
    (hf : ∀ s k, f (E1000State.keep s k) = f s) : f w'.dev = f w.dev := by
  rw [h.eq]
  exact hf _ _

theorem tx (h : Twin w w') : w'.dev.tx = w.dev.tx := h.congr E1000State.tx fun _ _ => rfl

theorem mem (h : Twin w w') : w'.mem = w.mem := by
  rw [h.eq]
  rfl

theorem log (h : Twin w w') : w'.log = w.log := by
  rw [h.eq]
  rfl

theorem of_over (h : Twin w w') {v v' : World} (hv : v' = v.over (·.keep w'.dev.kept))
    (hkept : v.dev.kept = w.dev.kept) (hrctl : v.reg Reg.rctl = w.reg Reg.rctl) :
    Twin v v' := by
  have hkept' : v'.dev.kept = w'.dev.kept := by
    rw [hv]
    rfl
  refine ⟨by rw [hkept']; exact hv, by rw [hkept', hkept]; exact h.like, fun hen => ?_⟩
  have hsize : v'.dev.rxbufSize = w'.dev.rxbufSize := congrArg Kept.rxbufSize hkept'
  have hsize' : v.dev.rxbufSize = w.dev.rxbufSize := congrArg Kept.rxbufSize hkept
  rw [hsize, hsize']
  exact h.enabled (hrctl ▸ hen)

theorem edit (h : Twin w w') {f : World → World} (hf : Passes f)
    (hrctl : (f w).reg Reg.rctl = w.reg Reg.rctl) : Twin (f w) (f w') := by
  refine h.of_over ?_ (hf.kept w) hrctl
  rw [← hf, ← h.eq]

theorem emit (h : Twin w w') (e : Event) : Twin (w.emit e) (w'.emit e) :=
  h.edit (f := (·.emit e)) (fun _ _ => rfl) rfl

theorem setTx (h : Twin w w') (tp : E1000Tx) : Twin (w.setTx tp) (w'.setTx tp) :=
  h.edit (f := (·.setTx tp)) (fun _ _ => rfl) rfl

theorem dmaWrite (h : Twin w w') (buf : HostBuf) (addr : U64) (bs : List U8) :
    Twin (w.dmaWrite buf addr bs) (w'.dmaWrite buf addr bs) :=
  h.edit (f := (·.dmaWrite buf addr bs)) (fun _ _ => rfl) rfl

theorem setReg (h : Twin w w') {i : Nat} (hi : Reg.rctl ≠ i) (v : U32) :
    Twin (w.setReg i v) (w'.setReg i v) :=
  h.edit (f := (·.setReg i v)) (fun _ _ => rfl) (World.reg_setReg_of_ne _ _ _ _ hi)

theorem bump (h : Twin w w') {i : Nat} (hi : Reg.rctl ≠ i) (f : U32 → U32) :
    Twin (w.setReg i (f (w.reg i))) (w'.setReg i (f (w'.reg i))) := by
  rw [h.reg]
  exact h.setReg hi _

end Twin

/-! ## Interrupts and reception -/

theorem passes_armMitigation (pendingInts : U32) : Passes (armMitigation · pendingInts) := by
  intro k u
  have hdelay : mitDelay (u.over (·.keep k)).dev pendingInts = mitDelay u.dev pendingInts := rfl
  simp only [armMitigation, hdelay]
  split_ifs <;> rfl

theorem passes_setInterruptCause (val : U32) : Passes (setInterruptCause · val) := by
  intro k u
  have hset : ((u.over (·.keep k)).setReg Reg.icr val).setReg Reg.ics val =
      ((u.setReg Reg.icr val).setReg Reg.ics val).over (·.keep k) := rfl
  have hreg : ∀ (v : World) i, (v.over (·.keep k)).reg i = v.reg i := fun _ _ => rfl
  have hlevel : ∀ v : World, (v.over (·.keep k)).dev.mitIrqLevel = v.dev.mitIrqLevel :=
    fun _ => rfl
  have htimer : ∀ v : World, (v.over (·.keep k)).dev.mitTimerOn = v.dev.mitTimerOn := fun _ => rfl
  have hflags : ∀ v : World, (v.over (·.keep k)).dev.compatFlags = v.dev.compatFlags :=
    fun _ => rfl
  simp only [setInterruptCause, hset, hreg, hlevel, htimer, hflags]
  split_ifs
  · rfl
  · exact congrArg (setIrqLevel · _) (passes_armMitigation _ k _)
  · rfl
  · rfl

theorem passes_setIcs (val : U32) : Passes (setIcs · val) :=
  fun k u => passes_setInterruptCause (val ||| u.reg Reg.icr) k u

namespace Twin

variable {w w' : World}

theorem setInterruptCause (h : Twin w w') (val : U32) :
    Twin (E1000.setInterruptCause w val) (E1000.setInterruptCause w' val) :=
  h.edit (passes_setInterruptCause val)
    ((setInterruptCause_keeps w val).macReg Reg.rctl (by decide))

theorem setIcs (h : Twin w w') (val : U32) :
    Twin (E1000.setIcs w val) (E1000.setIcs w' val) :=
  h.edit (passes_setIcs val) ((setIcs_keeps w val).macReg Reg.rctl (by decide))

theorem qemuSendPacket (h : Twin w w') (frame : List U8) :
    Twin (E1000.qemuSendPacket w frame) (E1000.qemuSendPacket w' frame) :=
  h.edit (f := (E1000.qemuSendPacket · frame)) (fun _ _ => rfl) rfl

end Twin

/-- While reception is enabled the EEPROM transaction is all that differs. -/
theorem disguise_eecd (e : EecdState) : Disguise fun s => { s with eecdState := e } where
  macReg := fun _ _ _ => rfl
  linkDown := fun _ => rfl
  phyCtrl := fun _ => rfl
  mitTimerOn := fun _ => rfl
  mitIrqLevel := fun _ => rfl
  mitIde := fun _ => rfl
  compatFlags := fun _ => rfl
  rxbufSize := fun _ => rfl
  rxbufMinShift := fun _ => rfl
  setReg := fun _ _ _ _ => rfl
  setMitTimerOn := fun _ _ => rfl
  setMitIrqLevel := fun _ _ => rfl
  setMitIde := fun _ _ => rfl

section Runs

variable {w w' : World}

def ReceivedTwin (r r' : Received) : Prop :=
  r'.ret = r.ret ∧ r'.callerIov = r.callerIov ∧ Twin r.world r'.world

theorem keep_of_like {s : E1000State} {k : Kept} (hdata : k.eepromData = s.eepromData)
    (hsize : k.rxbufSize = s.rxbufSize) : s.keep k = { s with eecdState := k.eecdState } := by
  rw [E1000State.keep, hdata, hsize]

theorem e1000ReceiveIov_twin (h : Twin w w') (fuel : Nat) (iov : Iov) :
    Run.Rel ReceivedTwin (e1000ReceiveIov fuel w iov) (e1000ReceiveIov fuel w' iov) := by
  cases hen : test (w.reg Reg.rctl) rctlEn with
  | false =>
      -- A closed receiver returns before it looks at the size.
      simp only [e1000ReceiveIov, h.reg, hen, Bool.not_false, if_true]
      split_ifs
      · exact .fault
      · exact .ok ⟨rfl, rfl, h⟩
      · exact .ok ⟨rfl, rfl, h⟩
  | true =>
      have hsize : w'.dev.kept.rxbufSize = w.dev.rxbufSize := h.enabled hen
      have hdata : w'.dev.kept.eepromData = w.dev.eepromData := h.like.eepromData
      have hover : w' = w.over fun s => { s with eecdState := w'.dev.kept.eecdState } :=
        h.eq.trans (congrArg (World.mk · w.mem w.log) (keep_of_like hdata hsize))
      have hrel := (disguise_eecd w'.dev.kept.eecdState).e1000ReceiveIov (w := w) fuel iov
      rw [← hover] at hrel
      refine (hrel.and_ok fun r hr => (e1000ReceiveIov_frame hr).1).mono ?_
      rintro r r' ⟨rfl, hframe⟩
      have hrest : r.world.dev.kept = w.dev.kept :=
        congrArg (fun x : Rest => Kept.mk x.eepromData x.eecdState x.rxbufSize) hframe.rest
      have hdata' : w'.dev.kept.eepromData = r.world.dev.eepromData :=
        hdata.trans (congrArg Kept.eepromData hrest).symm
      have hsize' : w'.dev.kept.rxbufSize = r.world.dev.rxbufSize :=
        hsize.trans (congrArg Kept.rxbufSize hrest).symm
      refine ⟨rfl, rfl, h.of_over ?_ hrest (hframe.reg Reg.rctl (by decide))⟩
      exact congrArg (World.mk · r.world.mem r.world.log) (keep_of_like hdata' hsize').symm

/-! ## Transmission -/

theorem e1000SendPacket_twin (h : Twin w w') (fuel : Nat) (frame : List U8) :
    Run.Rel (fun r r' => Twin r.1 r'.1 ∧ r'.2 = r.2)
      (e1000SendPacket fuel w frame) (e1000SendPacket fuel w' frame) := by
  have hphy : w'.dev.phyReg = w.dev.phyReg := h.congr E1000State.phyReg fun _ _ => rfl
  simp only [e1000SendPacket, hphy]
  split_ifs
  · refine (e1000ReceiveIov_twin h fuel [frame]).bind ?_
    rintro r r' ⟨-, hcaller, hworld⟩
    exact .ok ⟨hworld, by rw [hcaller]⟩
  · exact .ok ⟨h.qemuSendPacket frame, rfl⟩

theorem sendFrame_twin (h : Twin w w') (fuel : Nat) :
    Run.Rel Twin (sendFrame fuel w) (sendFrame fuel w') := by
  simp only [sendFrame, h.tx]
  split_ifs
  · refine (e1000SendPacket_twin (h.setTx _) fuel _).bind ?_
    rintro ⟨u, bytes⟩ ⟨u', bytes'⟩ ⟨hu, heq⟩
    obtain rfl : bytes' = bytes := heq
    rw [hu.tx]
    exact .ok (hu.setTx _)
  · refine (e1000SendPacket_twin h fuel _).bind ?_
    rintro ⟨u, bytes⟩ ⟨u', bytes'⟩ ⟨hu, heq⟩
    obtain rfl : bytes' = bytes := heq
    rw [hu.tx]
    exact .ok (hu.setTx _)

theorem countFrame_twin (h : Twin w w') : Twin (countFrame w) (countFrame w') := by
  have hpasses : Passes countFrame := by
    intro k u
    simp only [countFrame]
    split_ifs with hover hcarry hcarry
    · rfl
    · exact absurd hover hcarry
    · exact absurd hcarry hover
    · rfl
  exact h.edit hpasses ((countFrame_frame w).1.reg Reg.rctl (by decide))

theorem xmitSeg_twin (h : Twin w w') (fuel : Nat) :
    Run.Rel Twin (xmitSeg fuel w) (xmitSeg fuel w') := by
  simp only [xmitSeg, h.tx]
  refine (sendFrame_twin (h.setTx _) fuel).bind ?_
  exact fun u u' hu => .ok (countFrame_twin hu)

theorem flushSegment_twin (h : Twin w w') (fuel : Nat) (complete : Bool) :
    Run.Rel Twin (flushSegment fuel complete w) (flushSegment fuel complete w') := by
  simp only [flushSegment]
  split_ifs
  · refine (xmitSeg_twin h fuel).bind ?_
    intro u u' hu
    rw [hu.tx]
    exact .ok (hu.setTx _)
  · exact .ok h

theorem tsoBody_twin {msh : U32} {fuel : Nat} {st st' : TsoLoop}
    (hst : ∃ w', st' = { st with world := w' } ∧ Twin st.world w') :
    Run.Rel (fun x y =>
      (∃ a b, x = .next a ∧ y = .next b ∧ ∃ w', b = { a with world := w' } ∧ Twin a.world w') ∨
      (∃ a b, x = .done a ∧ y = .done b ∧ Twin a b))
      (tsoBody msh fuel st) (tsoBody msh fuel st') := by
  obtain ⟨v, rfl, h⟩ := hst
  simp only [tsoBody, h.tx, World.fst_dmaRead, World.snd_dmaRead, h.mem]
  refine (flushSegment_twin ((h.emit _).setTx _) fuel _).bind ?_
  intro u u' hu
  split_ifs
  · exact .ok (.inl ⟨_, _, rfl, rfl, _, rfl, hu⟩)
  · exact .ok (.inr ⟨_, _, rfl, rfl, hu⟩)

theorem fetchData_twin (h : Twin w w') (fuel : Nat) (dp : TxDesc) :
    Run.Rel Twin (fetchData fuel w dp) (fetchData fuel w' dp) := by
  simp only [fetchData, h.tx, World.fst_dmaRead, World.snd_dmaRead, h.mem]
  split_ifs
  · exact loop_rel (fun st st' hst => tsoBody_twin hst) fuel ⟨w', rfl, h⟩
  · exact .ok h
  · exact .ok ((h.emit _).setTx _)

theorem endPacket_twin (h : Twin w w') (fuel : Nat) :
    Run.Rel Twin (endPacket fuel w) (endPacket fuel w') := by
  have hlast : Run.Rel Twin (sendLast fuel w) (sendLast fuel w') := by
    simp only [sendLast, h.tx]
    split_ifs
    · exact .ok h
    · exact xmitSeg_twin h fuel
  refine hlast.bind ?_
  intro u u' hu
  rw [hu.tx]
  exact .ok (hu.setTx _)

theorem processTxDesc_twin (h : Twin w w') (fuel : Nat) (dp : TxDesc) :
    Run.Rel Twin (processTxDesc fuel w dp) (processTxDesc fuel w' dp) := by
  have hbegin : Twin (beginDesc w dp) (beginDesc w' dp) :=
    h.edit (f := (beginDesc · dp)) (fun _ _ => rfl) rfl
  simp only [processTxDesc]
  split_ifs
  · exact .ok (h.edit (f := fun u => (noteIde u dp).setTx (contextTx (noteIde u dp).dev.tx dp))
      (fun _ _ => rfl) rfl)
  · exact (fetchData_twin hbegin fuel dp).bind fun u u' hu => endPacket_twin hu fuel
  · exact (fetchData_twin hbegin fuel dp).bind fun u u' hu => .ok hu

def XmitTwin (st st' : XmitLoop) : Prop := st'.cause = st.cause ∧ Twin st.world st'.world

theorem finishDesc_twin (h : Twin w w') (cause : U32) (base : U64) (dp : TxDesc) :
    XmitTwin (finishDesc cause base dp w) (finishDesc cause base dp w') := by
  simp only [finishDesc, txdescWriteback]
  split_ifs
  · refine ⟨rfl, ?_⟩
    simp only [World.reg_dmaWrite, h.reg]
    exact (h.dmaWrite _ _ _).setReg (by decide) _
  · refine ⟨rfl, ?_⟩
    simp only [h.reg]
    exact h.setReg (by decide) _

theorem xmitBody_twin {tdhStart : U32} {fuel : Nat} {st st' : XmitLoop}
    (hst : XmitTwin st st') :
    Run.Rel (fun x y =>
      (∃ a b, x = .next a ∧ y = .next b ∧ XmitTwin a b) ∨
      (∃ a b, x = .done a ∧ y = .done b ∧ XmitTwin a b))
      (xmitBody tdhStart fuel st) (xmitBody tdhStart fuel st') := by
  obtain ⟨hcause, h⟩ := id hst
  have haddr : txHeadAddr st'.world = txHeadAddr st.world := by
    rw [txHeadAddr, txHeadAddr, h.reg, h.congr txDescBase fun _ _ => rfl]
  simp only [xmitBody, h.reg, haddr, h.mem, hcause]
  split_ifs
  · exact .ok (.inr ⟨_, _, rfl, rfl, hst⟩)
  · refine (processTxDesc_twin (h.emit _) fuel _).bind ?_
    intro u u' hu
    have hfin := finishDesc_twin hu st.cause (txHeadAddr st.world)
      (TxDesc.fetch st.world.mem (txHeadAddr st.world))
    rw [hfin.2.reg]
    split_ifs
    · exact .ok (.inr ⟨_, _, rfl, rfl, hfin⟩)
    · exact .ok (.inl ⟨_, _, rfl, rfl, hfin⟩)

theorem startXmit_twin (h : Twin w w') (fuel : Nat) :
    Run.Rel Twin (startXmit fuel w) (startXmit fuel w') := by
  simp only [startXmit, h.reg]
  split_ifs
  · refine Run.Rel.bind (loop_rel (fun st st' hst => xmitBody_twin hst) fuel ⟨rfl, h⟩) ?_
    rintro st st' ⟨hcause, hv⟩
    rw [hcause]
    exact .ok (hv.setIcs _)
  · exact .ok h

/-! ## The register interface -/

/-- For a single byte the size only has to be there. -/
theorem e1000HasRxbufs_one (s : E1000State) :
    e1000HasRxbufs s 1 = (s.rxbufSize != 0#32 && s.macReg Reg.rdh != s.macReg Reg.rdt) := by
  by_cases hzero : s.rxbufSize = 0#32
  · simp [e1000HasRxbufs, hzero]
  · have hpos : 1 ≤ s.rxbufSize.toNat := by
      refine Nat.one_le_iff_ne_zero.mpr fun hnat => hzero ?_
      exact BitVec.eq_of_toNat_eq hnat
    simp [e1000HasRxbufs, hpos, hzero]

theorem setRdt_twin (h : Twin w w') {i : Nat} (hi : Reg.rctl ≠ i) (val : U32) :
    Twin (setRdt w i val) (setRdt w' i val) := by
  have hset := h.setReg hi (val &&& 0xffff#32)
  have hsized : (w'.dev.rxbufSize != 0#32) = (w.dev.rxbufSize != 0#32) := by
    rw [Bool.eq_iff_iff, bne_iff_ne, bne_iff_ne]
    exact not_congr h.like.rxbufSize
  have hroom : e1000HasRxbufs (w'.setReg i (val &&& 0xffff#32)).dev 1 =
      e1000HasRxbufs (w.setReg i (val &&& 0xffff#32)).dev 1 := by
    have hring := hset.congr (fun s => s.macReg Reg.rdh != s.macReg Reg.rdt) fun _ _ => rfl
    rw [e1000HasRxbufs_one, e1000HasRxbufs_one, hring]
    exact congrArg (· && _) hsized
  simp only [setRdt, hroom]
  split_ifs
  · exact hset.emit _
  · exact hset

theorem setEecd_twin (h : Twin w w') (val : U32) :
    Twin { w with dev := setEecd w.dev val } { w' with dev := setEecd w'.dev val } := by
  refine ⟨?_, ⟨h.like.eepromData, h.like.factory, clockEecd_masked _ val,
    h.like.eecdState.foldl [val], h.like.rxbufSize⟩, h.enabled⟩
  exact congrArg (fun u : World => { u with dev := setEecd u.dev val }) h.eq

theorem setRxControl_twin (h : Twin w w') (val : U32) :
    Twin (setRxControl w val) (setRxControl w' val) := by
  -- From here on both have the size that `RCTL` tells.
  refine ⟨?_, ⟨h.like.eepromData, h.like.factory, h.like.masked, h.like.eecdState, Iff.rfl⟩,
    fun _ => rfl⟩
  exact congrArg (setRxControl · val) h.eq

theorem passes_setPhyCtrl (val : U16) : Passes (setPhyCtrl · val) := by
  intro k u
  have hflags : (u.over (·.keep k)).dev.compatFlags = u.dev.compatFlags := rfl
  simp only [setPhyCtrl, hflags]
  split_ifs <;> rfl

theorem mdicCommand_keep (val : U32) (k : Kept) (u : World) :
    mdicCommand (u.over (·.keep k)) val =
      ((mdicCommand u val).1, (mdicCommand u val).2.over (·.keep k)) := by
  have hphy : (u.over (·.keep k)).dev.phyReg = u.dev.phyReg := rfl
  have hreg : (u.over (·.keep k)).reg Reg.mdic = u.reg Reg.mdic := rfl
  have hctrl := passes_setPhyCtrl ((val &&& mdicDataMask).setWidth 16) k u
  simp only at hctrl
  simp only [mdicCommand, hphy, hreg, hctrl]
  split_ifs <;> rfl

theorem passes_setMdic (val : U32) : Passes (setMdic · val) := by
  intro k u
  simp only [setMdic, mdicCommand_keep]
  split_ifs
  · exact passes_setIcs icrMdac k ((mdicCommand u val).2.setReg Reg.mdic _)
  · rfl

theorem getEecd_twin (h : Twin w w') : getEecd w'.dev = getEecd w.dev := by
  obtain ⟨hlines, hdo⟩ := Prod.mk.inj h.like.eecdState.obs_eq
  have hdata : w'.dev.eepromData = w.dev.eepromData := h.like.eepromData
  have hold : w'.dev.eecdState.oldEecd = w.dev.eecdState.oldEecd := hlines.symm
  rw [getEecd_eq, getEecd_eq, hdata, hold]
  exact congrArg (fun b : Bool => _ ||| if b then eecdDo else 0#32) hdo.symm

theorem flashEerdRead_twin (h : Twin w w') : flashEerdRead w'.dev = flashEerdRead w.dev := by
  have hreg := h.reg Reg.eerd
  have hdata : w'.dev.eepromData = w.dev.eepromData := h.like.eepromData
  simp only [World.reg] at hreg
  simp only [flashEerdRead, hreg, hdata]

theorem runReadOp_twin (h : Twin w w') {op : ReadOp} {i : Nat}
    (hop : macregReadops i = some op) :
    (runReadOp op w' i).2 = (runReadOp op w i).2 ∧
      Twin (runReadOp op w i).1 (runReadOp op w' i).1 := by
  have hrctl := (runReadOp_keeps w hop).macReg Reg.rctl (by decide)
  cases op with
  | macReadreg => exact ⟨h.reg i, h⟩
  | macReadClr4 => exact ⟨h.reg i, h.edit (f := (·.setReg i 0)) (fun _ _ => rfl) hrctl⟩
  | macReadClr8 =>
      exact ⟨h.reg i, h.edit (f := fun u => (u.setReg i 0).setReg (i - 1) 0) (fun _ _ => rfl)
        hrctl⟩
  | macIcrRead => exact ⟨h.reg _, h.setInterruptCause 0⟩
  | getEecd => exact ⟨getEecd_twin h, h⟩
  | flashEerdRead => exact ⟨flashEerdRead_twin h, h⟩

theorem runWriteOp_twin (h : Twin w w') (fuel : Nat) {op : WriteOp} {i : Nat}
    (hop : macregWriteops i = some op) (val : U32) :
    Run.Rel Twin (runWriteOp fuel op w i val) (runWriteOp fuel op w' i val) := by
  by_cases hctl : op = .setRxControl
  · subst hctl
    exact .ok (setRxControl_twin h val)
  -- No other handler writes `RCTL`, so the receiver stays open or closed.
  have hi : Reg.rctl ≠ i := by
    rintro rfl
    exact hctl (Option.some.inj hop).symm
  cases op with
  | macWritereg =>
      have hset := h.setReg hi val
      refine .ok ?_
      simp only [macWritereg, hset.reg]
      split_ifs
      · exact hset.emit _
      · exact hset
  | setDlen => exact .ok (h.setReg hi _)
  | setTctl =>
      exact startXmit_twin ((h.setReg hi val).bump (i := Reg.tdt) (by decide)
        (· &&& 0xffff#32)) fuel
  | setMdic =>
      exact .ok (h.edit (passes_setMdic val) ((setMdic_keeps w val).macReg Reg.rctl (by decide)))
  | setIcs => exact .ok (h.setIcs val)
  | set16bit => exact .ok (h.setReg hi _)
  | setRdt => exact .ok (setRdt_twin h hi val)
  | setImc => exact .ok ((h.bump (i := Reg.ims) (by decide) (· &&& ~~~val)).setIcs 0)
  | setIms => exact .ok ((h.bump (i := Reg.ims) (by decide) (· ||| val)).setIcs 0)
  | setIcr =>
      simp only [runWriteOp, setIcr, h.reg]
      exact .ok (h.setInterruptCause _)
  | setEecd => exact .ok (setEecd_twin h val)
  | setRxControl => exact absurd rfl hctl
  | setCtrl => exact .ok (h.setReg (i := Reg.ctrl) (by decide) _)

end Runs

/-! ## Events of the host -/

section Host

variable {w w' : World}

theorem e1000SetLinkStatus_twin (h : Twin w w') (down : Bool) :
    Twin (e1000SetLinkStatus w down) (e1000SetLinkStatus w' down) := by
  have hset : Twin
      { w with dev := if down then e1000LinkDown { w.dev with linkDown := down }
        else e1000LinkUp { w.dev with linkDown := down } }
      { w' with dev := if down then e1000LinkDown { w'.dev with linkDown := down }
        else e1000LinkUp { w'.dev with linkDown := down } } :=
    h.edit (f := fun u => { u with
      dev := if down then e1000LinkDown { u.dev with linkDown := down }
        else e1000LinkUp { u.dev with linkDown := down } })
      (fun k u => by cases down <;> rfl) (by cases down <;> rfl)
  have hnotify : ∀ {u u' : World}, Twin u u' →
      Twin (if u.reg Reg.status ≠ w.reg Reg.status then setIcs u icrLsc else u)
        (if u'.reg Reg.status ≠ w'.reg Reg.status then setIcs u' icrLsc else u') := by
    intro u u' hu
    simp only [hu.reg, h.reg]
    split_ifs
    · exact hu.setIcs _
    · exact hu
  exact hnotify hset

theorem e1000AutonegTimer_twin (h : Twin w w') :
    Twin (e1000AutonegTimer w) (e1000AutonegTimer w') := by
  have hpasses : Passes e1000AutonegTimer := by
    intro k u
    have hdown : (u.over (·.keep k)).dev.linkDown = u.dev.linkDown := rfl
    simp only [e1000AutonegTimer, hdown]
    split_ifs <;> rfl
  exact h.edit hpasses ((e1000AutonegTimer_keeps w).macReg Reg.rctl (by decide))

theorem e1000MitTimer_twin (h : Twin w w') : Twin (e1000MitTimer w) (e1000MitTimer w') := by
  have hoff : Twin { w with dev := { w.dev with mitTimerOn := false } }
      { w' with dev := { w'.dev with mitTimerOn := false } } :=
    h.edit (f := fun u => { u with dev := { u.dev with mitTimerOn := false } }) (fun _ _ => rfl)
      rfl
  rw [e1000MitTimer, e1000MitTimer, h.reg]
  exact hoff.setInterruptCause _

theorem e1000PreSave_twin (h : Twin w w') : Twin (e1000PreSave w) (e1000PreSave w') := by
  let settle (u : World) : World :=
    if test u.dev.compatFlags e1000FlagAutoneg && u.dev.linkDown && autonegPending u.dev then
      { u with dev := { u.dev with
        phyReg := Function.update u.dev.phyReg Phy.status
          (u.dev.phyReg Phy.status ||| miiSrAutonegComplete) } }
    else u
  have hsettle : ∀ {u u' : World}, Twin u u' → Twin (settle u) (settle u') := by
    intro u u' hu
    have hcond := hu.congr (fun s => test s.compatFlags e1000FlagAutoneg && s.linkDown &&
      autonegPending s) fun _ _ => rfl
    simp only [settle, hcond]
    split_ifs
    · exact hu.edit (f := fun v => { v with dev := { v.dev with
        phyReg := Function.update v.dev.phyReg Phy.status
          (v.dev.phyReg Phy.status ||| miiSrAutonegComplete) } }) (fun _ _ => rfl) rfl
    · exact hu
  have htimer : w'.dev.mitTimerOn = w.dev.mitTimerOn :=
    h.congr E1000State.mitTimerOn fun _ _ => rfl
  have hflush : Twin (if w.dev.mitTimerOn then e1000MitTimer w else w)
      (if w'.dev.mitTimerOn then e1000MitTimer w' else w') := by
    rw [htimer]
    split_ifs
    · exact e1000MitTimer_twin h
    · exact h
  exact hsettle hflush

/-- A reset closes the receiver, so the sizes need not agree after it. -/
theorem e1000Reset_twin (h : Twin w w') : Twin (e1000Reset w) (e1000Reset w') := by
  have hpasses : Passes e1000Reset := by
    intro k u
    have hdown : (u.over (·.keep k)).dev.linkDown = u.dev.linkDown := rfl
    simp only [e1000Reset, hdown]
    split_ifs <;> rfl
  have hclosed : (e1000Reset w).reg Reg.rctl = macRegInit Reg.rctl :=
    e1000Reset_macReg w (by decide) (by decide) (by decide)
  have hkept' := hpasses.kept w'
  refine ⟨?_, by rw [hpasses.kept, hkept']; exact h.like, fun hen => ?_⟩
  · rw [hkept', ← hpasses, ← h.eq]
  · rw [hclosed] at hen
    exact absurd hen (by decide)

end Host

/-! ## Runs -/

theorem step_twin {w w' : World} (h : Twin w w') (fuel : Nat) (op : Op) :
    Run.Rel (fun r r' => Twin r.1 r'.1 ∧ r'.2 = r.2) (step fuel w op) (step fuel w' op) := by
  cases op with
  | mmioRead addr =>
      simp only [step, e1000MmioRead]
      cases hop : macregReadops (mmioIndex addr) with
      | none => exact .ok ⟨h, rfl⟩
      | some op =>
          obtain ⟨hval, hworld⟩ := runReadOp_twin h hop
          exact .ok ⟨hworld, by simp only [hval]⟩
  | mmioWrite addr val =>
      simp only [step, e1000MmioWrite]
      cases hop : macregWriteops (mmioIndex addr) with
      | none => exact .ok ⟨h, rfl⟩
      | some op =>
          refine (runWriteOp_twin h fuel hop _).bind ?_
          exact fun u u' hu => .ok ⟨hu, rfl⟩
  | receive iov =>
      refine (e1000ReceiveIov_twin h fuel iov).bind ?_
      rintro r r' ⟨hret, -, hworld⟩
      exact .ok ⟨hworld, by rw [hret]⟩
  | linkStatus down => exact .ok ⟨e1000SetLinkStatus_twin h down, rfl⟩
  | autonegTimer => exact .ok ⟨e1000AutonegTimer_twin h, rfl⟩
  | mitTimer => exact .ok ⟨e1000MitTimer_twin h, rfl⟩
  | preSave => exact .ok ⟨e1000PreSave_twin h, rfl⟩
  | reset => exact .ok ⟨e1000Reset_twin h, rfl⟩
  | guestStore mem =>
      exact .ok ⟨h.edit (f := fun u => { u with mem := mem }) (fun _ _ => rfl) rfl, rfl⟩

theorem runOps_twin {w w' : World} (h : Twin w w') (fuel : Nat) (ops : List Op) :
    Run.Rel (fun r r' => Twin r.1 r'.1 ∧ r'.2 = r.2) (runOps fuel w ops) (runOps fuel w' ops) := by
  induction ops generalizing w w' with
  | nil => exact .ok ⟨h, rfl⟩
  | cons op ops ih =>
      refine (step_twin h fuel op).bind ?_
      rintro ⟨u, reply⟩ ⟨u', reply'⟩ ⟨hu, heq⟩
      obtain rfl : reply' = reply := heq
      refine (ih hu).bind ?_
      rintro ⟨v, replies⟩ ⟨v', replies'⟩ ⟨hv, heq⟩
      obtain rfl : replies' = replies := heq
      exact .ok ⟨hv, rfl⟩

end SE4VM.E1000
