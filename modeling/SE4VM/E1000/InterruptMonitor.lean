import SE4VM.E1000.InterruptState
import SE4VM.E1000.Link
import SE4VM.E1000.Observation
import SE4VM.E1000.Reach

/-!
# A monitor of the interrupt

Beside the device runs a monitor that keeps the causes raised and not yet
acknowledged, and the level last given to `pci_set_irq`.  It sees the events and
the steps, not the registers; the device agrees with it in every state.
-/

namespace SE4VM.E1000

open SE4VM.Foundation

/-! ## Steps -/

/-- The causes that a register write raises. -/
def writeCause (fuel : Nat) (w : World) (index : Nat) (val : U32) : U32 :=
  match macregWriteops index with
  | some .setIcs => val
  | some .setMdic => if test (mdicCommand w val).1 mdicIntEn then icrMdac else 0
  | some .setTctl =>
      let w := w.setReg index val
      xmitCause fuel (w.setReg Reg.tdt (w.reg Reg.tdt &&& 0xffff#32))
  | _ => 0

/-- The causes that a step raises; a link event raises one when the link changes. -/
def raised (fuel : Nat) (w : World) : Op → U32
  | .mmioWrite addr val => writeCause fuel w (mmioIndex addr) (val.setWidth 32)
  | .receive iov => receiveCause fuel w iov
  | .linkStatus down => if w.dev.linkUp = down then icrLsc else 0
  | _ => 0

/-- Reading `ICR` acknowledges every cause, writing it those written as one. -/
def acknowledged : Op → U32
  | .mmioRead addr => if mmioIndex addr = Reg.icr then BitVec.allOnes 32 else 0
  | .mmioWrite addr val => if mmioIndex addr = Reg.icr then val.setWidth 32 else 0
  | .reset => BitVec.allOnes 32
  | _ => 0

def Op.isReset : Op → Bool
  | .reset => true
  | _ => false

/-- The steps that let the mitigation timer expire. -/
def Op.runsMitTimer : Op → Bool
  | .mitTimer => true
  | .preSave => true
  | _ => false

structure IrqStep (fuel : Nat) (w : World) (op : Op) (w' : World) : Prop where
  inv : IrqInv w'.dev
  icr : w'.reg Reg.icr = (w.reg Reg.icr &&& ~~~acknowledged op) ||| raised fuel w op
  pin : ∃ es, w'.log = es ++ w.log ∧
    (op.isReset = false → Tracks w es w') ∧ (op.runsMitTimer = false →
      w.dev.mitTimerOn = true → ¬ Rises w.dev.mitIrqLevel (levels es))

theorem Raises.irqStep {fuel : Nat} {w w' : World} {op : Op} {v : U32} (h : Raises v w w')
    (hinv : IrqInv w.dev) (hack : acknowledged op = 0) (hraise : raised fuel w op = v) :
    IrqStep fuel w op w' := by
  obtain ⟨es, htrack, hheld⟩ := h.pin
  refine ⟨h.inv hinv, ?_, es, htrack.1, fun _ => htrack, fun _ hon => (hheld hon).2⟩
  rw [h.icr, hack, hraise]
  exact congrArg (· ||| v) BitVec.and_allOnes.symm

theorem setInterruptCause_irqStep {fuel : Nat} {w w₁ : World} {op : Op} {val : U32}
    (hlevel : w₁.dev.mitIrqLevel = w.dev.mitIrqLevel)
    (htimer : w.dev.mitTimerOn = true → op.runsMitTimer = false → w₁.dev.mitTimerOn = true)
    (hlog : w₁.log = w.log)
    (hval : val = (w.reg Reg.icr &&& ~~~acknowledged op) ||| raised fuel w op) :
    IrqStep fuel w op (setInterruptCause w₁ val) := by
  obtain ⟨es, htrack, hheld⟩ := setInterruptCause_pin w₁ val
  rw [Tracks, hlog, hlevel] at htrack
  rw [Held, hlevel] at hheld
  exact ⟨setInterruptCause_irqInv _ _, by rw [setInterruptCause_icr, hval], es, htrack.1,
    fun _ => htrack, fun hop hon => (hheld (htimer hon hop)).2⟩

theorem mdicCommand_irqKeeps (w : World) (val : U32) : IrqKeeps w (mdicCommand w val).2 := by
  have hstatus : ∀ i ∈ [Reg.icr, Reg.ics, Reg.ims], i ≠ Reg.status := by decide
  have hctrl : ∀ v, IrqKeeps w (setPhyCtrl w v) := by
    intro v
    simp only [setPhyCtrl]
    split_ifs
    · exact ⟨fun i hi => Function.update_of_ne (hstatus i hi) _ _, rfl, rfl, [_], rfl,
        by simp [Event.level]⟩
    · exact .refl w
  simp only [mdicCommand]
  split_ifs
  all_goals
    first
    | exact .refl w
    | exact ⟨(hctrl _).reg, (hctrl _).mitTimerOn, (hctrl _).mitIrqLevel, (hctrl _).log⟩
    | exact ⟨fun _ _ => rfl, rfl, rfl, [], rfl, by simp⟩

theorem raises_setMdic (w : World) (val : U32) :
    Raises (if test (mdicCommand w val).1 mdicIntEn then icrMdac else 0) w (setMdic w val) := by
  have hkeeps : Raises 0 w ((mdicCommand w val).2.setReg Reg.mdic
      ((mdicCommand w val).1 ||| mdicReady)) :=
    (mdicCommand_irqKeeps w val).trans_raises (IrqKeeps.setReg _ _ (by decide)).raises
  simp only [setMdic]
  split_ifs
  · simpa using hkeeps.trans (raises_setIcs _ icrMdac)
  · exact hkeeps

theorem raises_setLinkStatus (w : World) (down : Bool) :
    Raises (if w.dev.linkUp = down then icrLsc else 0) w (e1000SetLinkStatus w down) := by
  have hstatus : ∀ i ∈ [Reg.icr, Reg.ics, Reg.ims], i ≠ Reg.status := by decide
  -- `LSC` is due exactly when `LU` changes.
  have hkey : ∀ (d : E1000State) (status : U32),
      d.macReg = Function.update w.dev.macReg Reg.status status →
      d.mitTimerOn = w.dev.mitTimerOn → d.mitIrqLevel = w.dev.mitIrqLevel →
      (status ≠ w.reg Reg.status ↔ w.dev.linkUp = down) →
      Raises (if w.dev.linkUp = down then icrLsc else 0) w
        (if World.reg { w with dev := d } Reg.status ≠ w.reg Reg.status
          then setIcs { w with dev := d } icrLsc else { w with dev := d }) := by
    intro d status hreg htimer hlevel hiff
    have hkeeps : IrqKeeps w { w with dev := d } := by
      refine ⟨fun i hi => ?_, htimer, hlevel, [], rfl, by simp⟩
      exact (congrFun hreg i).trans (Function.update_of_ne (hstatus i hi) _ _)
    have hstat : World.reg { w with dev := d } Reg.status = status :=
      (congrFun hreg _).trans (Function.update_self _ _ _)
    rw [hstat]
    by_cases hup : w.dev.linkUp = down
    · rw [if_pos hup, if_pos (hiff.mpr hup)]
      exact hkeeps.trans_raises (raises_setIcs _ _)
    · rw [if_neg hup, if_neg fun hne => hup (hiff.mp hne)]
      exact hkeeps.raises
  cases down with
  | true => exact hkey _ _ rfl rfl rfl (and_not_ne_self_iff _ _)
  | false => exact hkey _ _ rfl rfl rfl (or_ne_self_iff _ 1)

theorem e1000MmioRead_irqStep (fuel : Nat) (w : World) (addr : U64) (hinv : IrqInv w.dev) :
    IrqStep fuel w (.mmioRead addr) (e1000MmioRead w addr).1 := by
  by_cases hicr : mmioIndex addr = Reg.icr
  · simp only [e1000MmioRead, hicr, show macregReadops Reg.icr = some .macIcrRead from rfl,
      runReadOp]
    refine setInterruptCause_irqStep rfl (fun hon _ => hon) rfl ?_
    simp [acknowledged, hicr, raised]
  · have hack : acknowledged (.mmioRead addr) = 0 := if_neg hicr
    suffices hkeeps : IrqKeeps w (e1000MmioRead w addr).1 from
      hkeeps.raises.irqStep hinv hack rfl
    rw [e1000MmioRead]
    split
    · next op hop =>
        cases op with
        | macReadreg => exact .refl w
        | macReadClr4 =>
            refine .setReg w 0 ?_
            exact (by decide : ∀ i ∈ [Reg.gprc, Reg.gptc, Reg.tpr, Reg.tpt],
              i ∉ [Reg.icr, Reg.ics, Reg.ims]) _ (mem_of_macReadClr4 hop)
        | macReadClr8 =>
            have hmem : ∀ i ∈ [mmioIndex addr, mmioIndex addr - 1],
                i ∉ [Reg.icr, Reg.ics, Reg.ims] := by
              rcases eq_of_macReadClr8 hop with h | h <;> rw [h] <;> decide
            exact (IrqKeeps.setReg w 0 (hmem _ (by simp))).trans
              (.setReg _ 0 (hmem _ (by simp)))
        | macIcrRead => exact absurd (eq_of_macIcrRead hop) hicr
        | getEecd => exact .refl w
        | flashEerdRead => exact .refl w
    · exact .refl w

theorem index_eq_icr {index : Nat} (h : macregWriteops index = some .setIcr) :
    index = Reg.icr := by
  simp only [macregWriteops, ite_eq_iff, Option.some.injEq, reduceCtorEq, and_false, false_or,
    or_false, and_true] at h
  tauto

theorem runWriteOp_irqStep {fuel : Nat} {op : WriteOp} {w w' : World} {addr val : U64}
    (hinv : IrqInv w.dev) (hop : macregWriteops (mmioIndex addr) = some op)
    (h : runWriteOp fuel op w (mmioIndex addr) (val.setWidth 32) = .ok w') :
    IrqStep fuel w (.mmioWrite addr val) w' := by
  by_cases hicr : mmioIndex addr = Reg.icr
  · rw [hicr, show macregWriteops Reg.icr = some .setIcr from rfl] at hop
    cases hop
    cases h
    refine setInterruptCause_irqStep rfl (fun hon _ => hon) rfl ?_
    simp [acknowledged, raised, writeCause, hicr,
      show macregWriteops Reg.icr = some .setIcr from rfl]
  have hack : acknowledged (.mmioWrite addr val) = 0 := if_neg hicr
  have hraise : raised fuel w (.mmioWrite addr val) =
      writeCause fuel w (mmioIndex addr) (val.setWidth 32) := rfl
  -- Outside the handlers of the interrupt, the register written is none of its own.
  have hindex : (∀ i ∈ [Reg.icr, Reg.ics, Reg.ims], macregWriteops i ≠ some op) →
      mmioIndex addr ∉ [Reg.icr, Reg.ics, Reg.ims] := notMem_of_macregWriteops hop
  -- The mask changes before the pin is looked at again.
  have hmask : ∀ mask, writeCause fuel w (mmioIndex addr) (val.setWidth 32) = 0 →
      IrqStep fuel w (.mmioWrite addr val) (setIcs (w.setReg Reg.ims mask) 0) := by
    intro mask hcause
    refine setInterruptCause_irqStep rfl (fun hon _ => hon) rfl ?_
    rw [hack, hraise, hcause, BitVec.or_comm]
    exact congrArg (· ||| 0#32) BitVec.and_allOnes.symm
  simp only [writeCause, hop] at hraise hmask
  cases op with
  | setIcs => cases h; exact (raises_setIcs w _).irqStep hinv hack hraise
  | setMdic => cases h; exact (raises_setMdic w _).irqStep hinv hack hraise
  | setTctl =>
      have hwrite := (IrqKeeps.setReg w (val.setWidth 32) (hindex (by decide))).trans
        (IrqKeeps.setReg (i := Reg.tdt) (w.setReg (mmioIndex addr) (val.setWidth 32))
          ((w.setReg (mmioIndex addr) (val.setWidth 32)).reg Reg.tdt &&& 0xffff#32) (by decide))
      exact (hwrite.trans_raises (raises_startXmit h)).irqStep hinv hack hraise
  | setImc => cases h; exact hmask _ rfl
  | setIms => cases h; exact hmask _ rfl
  | setIcr => exact absurd (index_eq_icr hop) hicr
  | macWritereg =>
      cases h
      refine IrqKeeps.raises ?_ |>.irqStep hinv hack hraise
      simp only [macWritereg]
      split_ifs
      · exact (IrqKeeps.setReg w _ (hindex (by decide))).trans (.emit _ rfl)
      · exact .setReg w _ (hindex (by decide))
  | setRdt =>
      cases h
      refine IrqKeeps.raises ?_ |>.irqStep hinv hack hraise
      simp only [setRdt]
      split_ifs
      · exact (IrqKeeps.setReg w _ (hindex (by decide))).trans (.emit _ rfl)
      · exact .setReg w _ (hindex (by decide))
  | setRxControl =>
      cases h
      have hset := IrqKeeps.setReg w (i := Reg.rctl) (val.setWidth 32) (by decide)
      have hkeeps : IrqKeeps w (setRxControl w (val.setWidth 32)) :=
        ⟨hset.reg, rfl, rfl, [_], rfl, by simp [Event.level]⟩
      exact hkeeps.raises.irqStep hinv hack hraise
  | setDlen =>
      cases h
      exact (IrqKeeps.setReg w _ (hindex (by decide))).raises.irqStep hinv hack hraise
  | set16bit =>
      cases h
      exact (IrqKeeps.setReg w _ (hindex (by decide))).raises.irqStep hinv hack hraise
  | setCtrl => cases h; exact (IrqKeeps.setReg w _ (by decide)).raises.irqStep hinv hack hraise
  | setEecd =>
      cases h
      have hkeeps : IrqKeeps w { w with dev := setEecd w.dev (val.setWidth 32) } :=
        ⟨fun _ _ => rfl, rfl, rfl, [], rfl, by simp⟩
      exact hkeeps.raises.irqStep hinv hack hraise

theorem e1000Reset_irqStep (fuel : Nat) (w : World) : IrqStep fuel w .reset (e1000Reset w) := by
  have hreg : ∀ i ∈ [Reg.icr, Reg.ics, Reg.ims], (e1000Reset w).dev.macReg i = 0 := by
    intro i hi
    have hi' := (by decide : ∀ i ∈ [Reg.icr, Reg.ics, Reg.ims], i ≠ Reg.ra ∧ i ≠ Reg.ra + 1 ∧
      i ≠ Reg.status ∧ macRegInit i = 0) i hi
    rw [e1000Reset_macReg w hi'.1 hi'.2.1 hi'.2.2.1, hi'.2.2.2]
  have hicr := hreg Reg.icr (by simp)
  have hlevel : (e1000Reset w).dev.mitIrqLevel = false := by
    simp only [e1000Reset, World.dev_emit, World.dev_setReg]
    split_ifs <;> rfl
  have hpending : (e1000Reset w).dev.pendingInts = 0 := by
    rw [E1000State.pendingInts, hicr]
    exact BitVec.zero_and
  refine ⟨⟨?_, ?_, ?_⟩, ?_, [_], rfl, fun h => absurd h (by decide), fun _ _ => id⟩
  · rw [hreg _ (by simp), hicr]
  · simp [hlevel]
  · simp [hlevel, hpending]
  · rw [World.reg, hicr]
    simp [acknowledged, raised]

theorem e1000MitTimer_irqStep {op : Op} (fuel : Nat) (w : World) (hop : op.runsMitTimer = true) :
    IrqStep fuel w op (e1000MitTimer w) := by
  refine setInterruptCause_irqStep rfl (fun _ h => ?_) rfl ?_
  · rw [hop] at h
    cases h
  · have hquiet : acknowledged op = 0 ∧ raised fuel w op = 0 := by
      cases op <;> first | exact ⟨rfl, rfl⟩ | cases hop
    rw [hquiet.1, hquiet.2]
    exact (BitVec.or_zero.trans BitVec.and_allOnes).symm

theorem e1000PreSave_irqStep (fuel : Nat) {w : World} (hinv : IrqInv w.dev) :
    IrqStep fuel w .preSave (e1000PreSave w) := by
  have hphy : ∀ w' : World, IrqStep fuel w .preSave w' → ∀ phy,
      IrqStep fuel w .preSave { w' with dev := { w'.dev with phyReg := phy } } :=
    fun w' h phy => ⟨⟨h.inv.ics, h.inv.asserted, h.inv.settled⟩, h.icr, h.pin⟩
  have htimer : IrqStep fuel w .preSave (if w.dev.mitTimerOn then e1000MitTimer w else w) := by
    split_ifs
    · exact e1000MitTimer_irqStep fuel w rfl
    · exact (IrqKeeps.refl w).raises.irqStep hinv rfl rfl
  simp only [e1000PreSave]
  split_ifs at htimer ⊢
  · exact hphy _ htimer _
  · exact htimer
  · exact hphy _ htimer _
  · exact htimer

theorem step_irqStep {fuel : Nat} {w w' : World} {op : Op} {reply : Reply}
    (hinv : IrqInv w.dev) (h : step fuel w op = .ok (w', reply)) : IrqStep fuel w op w' := by
  cases op with
  | mmioRead addr =>
      cases h
      exact e1000MmioRead_irqStep fuel w addr hinv
  | mmioWrite addr val =>
      obtain ⟨w₁, hw, h⟩ := Run.bind_eq_ok.mp h
      cases h
      rw [e1000MmioWrite] at hw
      split at hw
      · next op hop => exact runWriteOp_irqStep hinv hop hw
      · next hop =>
          cases hw
          have hicr : mmioIndex addr ≠ Reg.icr := by
            intro hi
            rw [hi] at hop
            cases hop
          refine (IrqKeeps.refl w).raises.irqStep hinv (if_neg hicr) ?_
          simp only [raised, writeCause, hop]
  | receive iov =>
      obtain ⟨r, hr, h⟩ := Run.bind_eq_ok.mp h
      cases h
      exact (raises_receive hr).irqStep hinv rfl rfl
  | linkStatus down =>
      cases h
      exact (raises_setLinkStatus w down).irqStep hinv rfl rfl
  | autonegTimer =>
      cases h
      obtain ⟨-, -, hreg, hlog⟩ := e1000AutonegTimer_spec w
      have hmit : (e1000AutonegTimer w).dev.mit = w.dev.mit := by
        simp only [e1000AutonegTimer]
        split_ifs <;> rfl
      have hkeeps : IrqKeeps w (e1000AutonegTimer w) :=
        ⟨fun i hi => hreg i ((by decide : ∀ i ∈ [Reg.icr, Reg.ics, Reg.ims], i ≠ Reg.status) i hi),
          congrArg MitState.timerOn hmit, congrArg MitState.irqLevel hmit, [], hlog, by simp⟩
      exact hkeeps.raises.irqStep hinv rfl rfl
  | mitTimer =>
      cases h
      exact e1000MitTimer_irqStep fuel w rfl
  | preSave =>
      cases h
      exact e1000PreSave_irqStep fuel hinv
  | reset =>
      cases h
      exact e1000Reset_irqStep fuel w
  | guestStore mem =>
      cases h
      have hkeeps : IrqKeeps w { w with mem := mem } :=
        ⟨fun _ _ => rfl, rfl, rfl, [], rfl, by simp⟩
      exact hkeeps.raises.irqStep hinv rfl rfl

/-! ## The monitor -/

structure Monitor where
  /-- The causes raised and not acknowledged since. -/
  pending : U32
  /-- The level last given to `pci_set_irq`, low after a reset. -/
  pin : Bool

def newEvents (w w' : World) : List Event := w'.log.take (w'.log.length - w.log.length)

def Monitor.next (m : Monitor) (fuel : Nat) (w : World) (op : Op) (w' : World) : Monitor where
  pending := (m.pending &&& ~~~acknowledged op) ||| raised fuel w op
  pin := if op.isReset then false else pinAfter m.pin (levels (newEvents w w'))

/-- A device that has run since power-on, with its monitor. -/
inductive Observed : World → Monitor → Prop
  | powerOn (macaddr : Buffer) (compatFlags : U32) (linkDown : Bool) (mem : Memory) :
      Observed (powerOn macaddr compatFlags linkDown mem) ⟨0, false⟩
  | step {fuel : Nat} {w w' : World} {m : Monitor} {op : Op} {reply : Reply} :
      Observed w m → step fuel w op = .ok (w', reply) → Observed w' (m.next fuel w op w')

theorem Reachable.observed {w : World} (h : Reachable w) : ∃ m, Observed w m := by
  induction h with
  | powerOn macaddr flags down mem => exact ⟨_, .powerOn macaddr flags down mem⟩
  | step _ hs ih =>
      obtain ⟨m, hm⟩ := ih
      exact ⟨_, .step hm hs⟩

theorem newEvents_eq {w w' : World} {es : List Event} (h : w'.log = es ++ w.log) :
    newEvents w w' = es := by
  simp [newEvents, h]

structure Agrees (w : World) (m : Monitor) : Prop where
  inv : IrqInv w.dev
  icr : w.reg Reg.icr = m.pending
  pin : m.pin = w.dev.mitIrqLevel

theorem Observed.agrees {w : World} {m : Monitor} (h : Observed w m) : Agrees w m := by
  induction h with
  | powerOn macaddr flags down mem =>
      obtain ⟨hinv, hicr, -⟩ := e1000Reset_irqStep 0 ⟨pciE1000Init macaddr flags down, mem, []⟩
      refine ⟨hinv, hicr.trans ?_, ?_⟩
      · simp [acknowledged, raised]
      · cases down <;> rfl
  | @step fuel w w' m op reply _ hs ih =>
      obtain ⟨hinv, hicr, es, hlog, htrack, -⟩ := step_irqStep ih.inv hs
      refine ⟨hinv, by rw [hicr, ih.icr]; rfl, ?_⟩
      rw [Monitor.next, newEvents_eq hlog, ih.pin]
      cases hop : op.isReset with
      | false => exact (htrack hop).2
      | true =>
          cases op <;> cases hop
          cases hs
          simp only [e1000Reset, World.dev_emit, World.dev_setReg]
          split_ifs <;> rfl

/--
In every state of a device, `ICR` and `ICS` hold the causes raised and not
acknowledged, the pin stands where the device remembers it, high only with an
enabled cause pending and outside a mitigation window just then; and inside a
window only the expiry of the timer raises it.
-/
theorem interrupt_invariant {w : World} {m : Monitor} (h : Observed w m) :
    w.reg Reg.icr = w.reg Reg.ics ∧ w.reg Reg.icr = m.pending ∧
    (w.dev.mitIrqLevel = true → w.reg Reg.icr &&& w.reg Reg.ims ≠ 0) ∧
    (w.dev.mitTimerOn = false →
      (w.dev.mitIrqLevel = true ↔ w.reg Reg.icr &&& w.reg Reg.ims ≠ 0)) ∧
    m.pin = w.dev.mitIrqLevel ∧
    ∀ fuel op w' reply, step fuel w op = .ok (w', reply) → w.dev.mitTimerOn = true →
      Rises m.pin (levels (newEvents w w')) → op.runsMitTimer = true := by
  obtain ⟨hinv, hicr, hpin⟩ := h.agrees
  refine ⟨hinv.ics.symm, hicr, hinv.asserted, hinv.settled, hpin, ?_⟩
  intro fuel op w' reply hs hon hrise
  obtain ⟨-, -, es, hlog, -, hheld⟩ := step_irqStep hinv hs
  rw [newEvents_eq hlog, hpin] at hrise
  by_contra hop
  exact hheld (by simpa using hop) hon hrise

/-- A cause pending and enabled, with the pin low because the window is open. -/
def heldBack (w : World) : Bool :=
  w.dev.mitTimerOn && !w.dev.mitIrqLevel && w.reg Reg.icr &&& w.reg Reg.ims != 0

theorem interrupt_invariant_heldBack :
    ∃ w m, Observed w m ∧ heldBack w = true ∧ w.reg Reg.icr = m.pending := by
  -- `ITR` and `IMS`; the first cause opens the window, reading `ICR` lowers the pin.
  have hrun : afterSetup 3 false Memory.blank [.mmioWrite 0xc4 100, .mmioWrite 0xd0 4,
      .mmioWrite 0xc8 4, .mmioRead 0xc0, .mmioWrite 0xc8 4] heldBack = .ok true := by
    decide +kernel
  obtain ⟨w, hw, hheld⟩ := exists_reachable_of_afterSetup hrun
  obtain ⟨m, hm⟩ := hw.observed
  exact ⟨w, m, hm, hheld, (interrupt_invariant hm).2.1⟩

end SE4VM.E1000
