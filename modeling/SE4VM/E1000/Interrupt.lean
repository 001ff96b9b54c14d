import SE4VM.E1000.State

/-!
# Link state and interrupt causes

Every cause reaches the pin through `setInterruptCause`.  Inside a mitigation
window it records the cause and returns before it touches the pin.
-/

namespace SE4VM.E1000

open SE4VM.Foundation

/-! ## Link -/

def e1000LinkDown (s : E1000State) : E1000State :=
  { s with
    macReg := Function.update s.macReg Reg.status
      (s.macReg Reg.status &&& ~~~statusLu)
    phyReg := Function.update s.phyReg Phy.status
      (s.phyReg Phy.status &&& ~~~miiSrLinkStatus) }

def e1000LinkUp (s : E1000State) : E1000State :=
  { s with
    macReg := Function.update s.macReg Reg.status
      (s.macReg Reg.status ||| statusLu)
    phyReg := Function.update s.phyReg Phy.status
      (s.phyReg Phy.status ||| miiSrLinkStatus) }

/-! ## Interrupts -/

/-- A current value of zero means that no delay is set yet. -/
def mitUpdateDelay (curr value : U32) : U32 :=
  if value ≠ 0 ∧ (curr = 0 ∨ value < curr) then value else curr

def mitDelay (s : E1000State) (pendingInts : U32) : U32 :=
  let delay : U32 := 0
  let delay :=
    if s.mitIde ≠ 0 ∧ test pendingInts (icrTxqe ||| icrTxdw) then
      mitUpdateDelay delay (s.macReg Reg.tadv * 4)
    else delay
  let delay :=
    if s.macReg Reg.rdtr ≠ 0 ∧ test pendingInts icrRxt0 then
      mitUpdateDelay delay (s.macReg Reg.radv * 4)
    else delay
  mitUpdateDelay delay (s.macReg Reg.itr)

def armMitigation (w : World) (pendingInts : U32) : World :=
  let delay := mitDelay w.dev pendingInts
  let w :=
    if delay ≠ 0 then
      World.emit { w with dev := { w.dev with mitTimerOn := true } }
        (.armMitTimer (delay * 256))
    else w
  { w with dev := { w.dev with mitIde := 0 } }

def setIrqLevel (w : World) (level : Bool) : World :=
  World.emit { w with dev := { w.dev with mitIrqLevel := level } }
    (.setIrq level)

/--
The `INT_ASSERTED` bit of the 8257x parts is not modelled: `E1000_DEVID` is the
82540EM, so the guard at the top of the C function is constantly false.
-/
def setInterruptCause (w : World) (val : U32) : World :=
  let w := (w.setReg Reg.icr val).setReg Reg.ics val
  let pendingInts := w.reg Reg.ims &&& w.reg Reg.icr
  if w.dev.mitIrqLevel = false ∧ pendingInts ≠ 0 then
    if w.dev.mitTimerOn then w
    else if test w.dev.compatFlags e1000FlagMit then
      setIrqLevel (armMitigation w pendingInts) (pendingInts != 0)
    else setIrqLevel w (pendingInts != 0)
  else setIrqLevel w (pendingInts != 0)

def e1000MitTimer (w : World) : World :=
  setInterruptCause { w with dev := { w.dev with mitTimerOn := false } }
    (w.reg Reg.icr)

def setIcs (w : World) (val : U32) : World :=
  setInterruptCause w (val ||| w.reg Reg.icr)

theorem pending_setCause (w : World) (val : U32) :
    ((w.setReg Reg.icr val).setReg Reg.ics val).reg Reg.ims &&&
      ((w.setReg Reg.icr val).setReg Reg.ics val).reg Reg.icr = w.reg Reg.ims &&& val := by
  simp [World.reg, Function.update]

/-! ## What raising a cause leaves alone -/

/--
The device fields an interrupt may write besides the two cause registers: the
mitigation bookkeeping, collected so that later frame statements can name it.
-/
structure MitState where
  timerOn : Bool
  irqLevel : Bool
  ide : U32

def E1000State.mit (s : E1000State) : MitState :=
  ⟨s.mitTimerOn, s.mitIrqLevel, s.mitIde⟩

def E1000State.setMit (s : E1000State) (m : MitState) : E1000State :=
  { s with mitTimerOn := m.timerOn, mitIrqLevel := m.irqLevel, mitIde := m.ide }

def Event.isPin : Event → Bool
  | .setIrq _ => true
  | .armMitTimer _ => true
  | _ => false

def PinsOnly (w w' : World) : Prop :=
  ∃ pins : List Event, (∀ e ∈ pins, e.isPin = true) ∧ w'.log = pins ++ w.log

theorem setInterruptCause_spec (w : World) (val : U32) :
    ∃ m : MitState,
      (setInterruptCause w val).dev =
        (((w.setReg Reg.icr val).setReg Reg.ics val).dev).setMit m ∧
      (setInterruptCause w val).mem = w.mem ∧
      PinsOnly w (setInterruptCause w val) := by
  refine ⟨(setInterruptCause w val).dev.mit, ?_, ?_, ?_⟩
  · simp only [setInterruptCause, setIrqLevel, armMitigation]
    split_ifs <;> rfl
  · simp only [setInterruptCause, setIrqLevel, armMitigation]
    split_ifs <;> rfl
  · simp only [setInterruptCause, setIrqLevel, armMitigation]
    split_ifs
    · exact ⟨[], by simp, rfl⟩
    · exact ⟨[_, _], by simp [Event.isPin], rfl⟩
    · exact ⟨[_], by simp [Event.isPin], rfl⟩
    · exact ⟨[_], by simp [Event.isPin], rfl⟩
    · exact ⟨[_], by simp [Event.isPin], rfl⟩

end SE4VM.E1000
