import SE4VM.E1000.Packet
import SE4VM.E1000.SegmentCalls

/-!
# The state of the interrupt

Every cause and every mask goes through `set_interrupt_cause`, which leaves the
pin stale inside a mitigation window.  What reception and transmission do to
the causes and to the pin is collected in one relation between worlds.
-/

namespace SE4VM.E1000

open SE4VM.Foundation

/-! ## The pin -/

def Event.level : Event → Option Bool
  | .setIrq level => some level
  | _ => none

/-- The levels given to `pci_set_irq`, oldest first; events come newest first. -/
def levels (es : List Event) : List Bool := es.reverse.filterMap Event.level

theorem levels_append (es es' : List Event) : levels (es' ++ es) = levels es ++ levels es' := by
  simp [levels]

theorem levels_eq_nil {es : List Event} (h : ∀ e ∈ es, e.level = none) : levels es = [] := by
  simpa [levels] using h

def pinAfter (pin : Bool) (ls : List Bool) : Bool := ls.foldl (fun _ l => l) pin

theorem pinAfter_append (pin : Bool) (ls ls' : List Bool) :
    pinAfter pin (ls ++ ls') = pinAfter (pinAfter pin ls) ls' :=
  List.foldl_append

/-- Some level in the list takes the pin from low to high. -/
def Rises : Bool → List Bool → Prop
  | _, [] => False
  | pin, l :: ls => (pin = false ∧ l = true) ∨ Rises l ls

theorem rises_append (pin : Bool) (ls ls' : List Bool) :
    Rises pin (ls ++ ls') ↔ Rises pin ls ∨ Rises (pinAfter pin ls) ls' := by
  induction ls generalizing pin with
  | nil => simp [Rises, pinAfter]
  | cons l ls ih =>
      rw [List.cons_append, Rises, Rises, ih, or_assoc]
      rfl

/-- The pin was at the level the device remembers, and still is. -/
def Tracks (w : World) (es : List Event) (w' : World) : Prop :=
  w'.log = es ++ w.log ∧ pinAfter w.dev.mitIrqLevel (levels es) = w'.dev.mitIrqLevel

/-- Inside a mitigation window the pin is not raised, and the window stays open. -/
def Held (w : World) (es : List Event) (w' : World) : Prop :=
  w.dev.mitTimerOn = true →
    w'.dev.mitTimerOn = true ∧ ¬ Rises w.dev.mitIrqLevel (levels es)

theorem Tracks.trans {w w' w'' : World} {es es' : List Event} (h : Tracks w es w')
    (h' : Tracks w' es' w'') : Tracks w (es' ++ es) w'' := by
  refine ⟨by rw [h'.1, h.1, List.append_assoc], ?_⟩
  rw [levels_append, pinAfter_append, h.2, h'.2]

theorem Held.trans {w w' w'' : World} {es es' : List Event} (h : Held w es w')
    (htrack : Tracks w es w') (h' : Held w' es' w'') : Held w (es' ++ es) w'' := by
  intro hon
  obtain ⟨hon', hlow⟩ := h hon
  obtain ⟨hon'', hlow'⟩ := h' hon'
  refine ⟨hon'', ?_⟩
  rw [levels_append, rises_append, htrack.2]
  exact fun hrise => hrise.elim hlow hlow'

/-! ## What `set_interrupt_cause` establishes -/

def E1000State.pendingInts (s : E1000State) : U32 := s.macReg Reg.icr &&& s.macReg Reg.ims

structure IrqInv (s : E1000State) : Prop where
  ics : s.macReg Reg.ics = s.macReg Reg.icr
  asserted : s.mitIrqLevel = true → s.pendingInts ≠ 0
  settled : s.mitTimerOn = false → (s.mitIrqLevel = true ↔ s.pendingInts ≠ 0)

/-- The call returns early inside a window, or it drives the pin. -/
theorem setInterruptCause_cases (w : World) (val : U32) :
    let w' := setInterruptCause w val
    (w'.dev.mitIrqLevel = false ∧ w.dev.mitIrqLevel = false ∧ w'.dev.mitTimerOn = true ∧
      w'.log = w.log) ∨
    (w'.dev.mitIrqLevel = (w'.dev.pendingInts != 0) ∧
      (w.dev.mitTimerOn = true → w'.dev.mitTimerOn = true ∧
        (w.dev.mitIrqLevel = false → w'.dev.mitIrqLevel = false)) ∧
      ∃ es, w'.log = es ++ w.log ∧ levels es = [w'.dev.mitIrqLevel]) := by
  intro w'
  have hpending : w'.dev.pendingInts = w.reg Reg.ims &&& val := by
    have hims := (setInterruptCause_frame w val).reg Reg.ims (by decide)
    rw [E1000State.pendingInts, BitVec.and_comm]
    exact congrArg₂ (· &&& ·) hims (setInterruptCause_icr w val)
  rw [hpending]
  simp only [w', setInterruptCause, pending_setCause, World.dev_setReg]
  split_ifs with hrise hon hmit
  · exact .inl ⟨hrise.1, hrise.1, hon, rfl⟩
  · refine .inr ⟨rfl, fun h => absurd h hon, ?_⟩
    simp only [armMitigation]
    split_ifs
    · exact ⟨[_, _], rfl, rfl⟩
    · exact ⟨[_], rfl, rfl⟩
  · exact .inr ⟨rfl, fun h => absurd h hon, [_], rfl, rfl⟩
  · refine .inr ⟨rfl, fun h => ⟨h, fun hlow => ?_⟩, [_], rfl, rfl⟩
    have hnone : w.reg Reg.ims &&& val = 0 := not_not.mp fun hne => hrise ⟨hlow, hne⟩
    simp [setIrqLevel, hnone]

theorem setInterruptCause_irqInv (w : World) (val : U32) :
    IrqInv (setInterruptCause w val).dev := by
  have hics : (setInterruptCause w val).reg Reg.ics = (setInterruptCause w val).reg Reg.icr := by
    obtain ⟨m, hdev, -⟩ := setInterruptCause_spec w val
    simp [World.reg, hdev, E1000State.setMit, Function.update]
  rcases setInterruptCause_cases w val with ⟨hlow, -, hon, -⟩ | ⟨hlevel, -, -⟩
  · refine ⟨hics, fun h => ?_, fun h => ?_⟩
    · rw [hlow] at h
      cases h
    · rw [hon] at h
      cases h
  · have hiff : (setInterruptCause w val).dev.mitIrqLevel = true ↔
        (setInterruptCause w val).dev.pendingInts ≠ 0 := by
      rw [hlevel, bne_iff_ne]
    exact ⟨hics, hiff.mp, fun _ => hiff⟩

theorem setInterruptCause_pin (w : World) (val : U32) :
    ∃ es, Tracks w es (setInterruptCause w val) ∧ Held w es (setInterruptCause w val) := by
  rcases setInterruptCause_cases w val with ⟨hlow', hlow, hon, hlog⟩ | ⟨-, hheld, es, hlog, hes⟩
  · refine ⟨[], ⟨hlog, ?_⟩, fun _ => ⟨hon, id⟩⟩
    rw [hlow']
    exact hlow
  · refine ⟨es, ⟨hlog, by rw [hes]; rfl⟩, fun h => ⟨(hheld h).1, ?_⟩⟩
    rw [hes]
    rintro (⟨hlow, hhigh⟩ | hrest)
    · rw [(hheld h).2 hlow] at hhigh
      cases hhigh
    · exact hrest

/-! ## Raising causes -/

/-- From `w` to `w'` the device raises `cause` and acknowledges nothing. -/
structure Raises (cause : U32) (w w' : World) : Prop where
  inv : IrqInv w.dev → IrqInv w'.dev
  icr : w'.reg Reg.icr = w.reg Reg.icr ||| cause
  pin : ∃ es, Tracks w es w' ∧ Held w es w'

/-- Nothing that the interrupt depends on changes. -/
structure IrqKeeps (w w' : World) : Prop where
  reg : ∀ i ∈ [Reg.icr, Reg.ics, Reg.ims], w'.reg i = w.reg i
  mitTimerOn : w'.dev.mitTimerOn = w.dev.mitTimerOn
  mitIrqLevel : w'.dev.mitIrqLevel = w.dev.mitIrqLevel
  log : ∃ es, w'.log = es ++ w.log ∧ ∀ e ∈ es, e.level = none

theorem IrqKeeps.irqInv {w w' : World} (h : IrqKeeps w w') (hinv : IrqInv w.dev) :
    IrqInv w'.dev := by
  have hicr : w'.dev.macReg Reg.icr = w.dev.macReg Reg.icr := h.reg _ (by simp)
  have hics : w'.dev.macReg Reg.ics = w.dev.macReg Reg.ics := h.reg _ (by simp)
  have hims : w'.dev.macReg Reg.ims = w.dev.macReg Reg.ims := h.reg _ (by simp)
  have hpending : w'.dev.pendingInts = w.dev.pendingInts := by
    rw [E1000State.pendingInts, hicr, hims]
    rfl
  constructor
  · rw [hics, hicr, hinv.ics]
  · rw [h.mitIrqLevel, hpending]
    exact hinv.asserted
  · rw [h.mitIrqLevel, h.mitTimerOn, hpending]
    exact hinv.settled

theorem IrqKeeps.raises {w w' : World} (h : IrqKeeps w w') : Raises 0 w w' := by
  obtain ⟨es, hlog, hes⟩ := h.log
  refine ⟨h.irqInv, by simp [h.reg Reg.icr], es, ⟨hlog, ?_⟩, fun hon => ?_⟩
  · rw [levels_eq_nil hes, h.mitIrqLevel]
    rfl
  · rw [levels_eq_nil hes, h.mitTimerOn]
    exact ⟨hon, id⟩

theorem IrqKeeps.of_frame {regs : List Nat} {ev : Event → Bool} {w w' : World}
    (h : Frame regs ev w w') (hmit : w'.dev.mit = w.dev.mit)
    (hregs : ∀ i ∈ [Reg.icr, Reg.ics, Reg.ims], i ∉ regs)
    (hev : ∀ e, ev e = true → e.level = none) : IrqKeeps w w' := by
  obtain ⟨es, hlog, hes⟩ := h.log
  exact ⟨fun i hi => h.reg i (hregs i hi), congrArg MitState.timerOn hmit,
    congrArg MitState.irqLevel hmit, es, hlog, fun e he => hev e (hes e he)⟩

theorem IrqKeeps.refl (w : World) : IrqKeeps w w :=
  ⟨fun _ _ => rfl, rfl, rfl, [], rfl, by simp⟩

theorem IrqKeeps.trans {w w' w'' : World} (h : IrqKeeps w w') (h' : IrqKeeps w' w'') :
    IrqKeeps w w'' := by
  obtain ⟨es, hlog, hes⟩ := h.log
  obtain ⟨es', hlog', hes'⟩ := h'.log
  refine ⟨fun i hi => (h'.reg i hi).trans (h.reg i hi), h'.mitTimerOn.trans h.mitTimerOn,
    h'.mitIrqLevel.trans h.mitIrqLevel, es' ++ es, by rw [hlog', hlog, List.append_assoc], ?_⟩
  intro e he
  rcases List.mem_append.mp he with he | he
  · exact hes' e he
  · exact hes e he

theorem IrqKeeps.setTx (w : World) (tp : E1000Tx) : IrqKeeps w (w.setTx tp) :=
  ⟨fun _ _ => rfl, rfl, rfl, [], rfl, by simp⟩

theorem IrqKeeps.emit (w : World) {e : Event} (he : e.level = none) : IrqKeeps w (w.emit e) :=
  ⟨fun _ _ => rfl, rfl, rfl, [e], rfl, by simpa using he⟩

theorem IrqKeeps.setReg (w : World) {i : Nat} (v : U32)
    (hi : i ∉ [Reg.icr, Reg.ics, Reg.ims]) : IrqKeeps w (w.setReg i v) := by
  refine ⟨fun j hj => World.reg_setReg_of_ne w i j v ?_, rfl, rfl, [], rfl, by simp⟩
  rintro rfl
  exact hi hj

theorem Raises.trans {v v' : U32} {w w' w'' : World} (h : Raises v w w')
    (h' : Raises v' w' w'') : Raises (v ||| v') w w'' := by
  obtain ⟨es, htrack, hheld⟩ := h.pin
  obtain ⟨es', htrack', hheld'⟩ := h'.pin
  exact ⟨h'.inv ∘ h.inv, by rw [h'.icr, h.icr, BitVec.or_assoc],
    es' ++ es, htrack.trans htrack', hheld.trans htrack hheld'⟩

theorem IrqKeeps.trans_raises {v : U32} {w w' w'' : World} (h : IrqKeeps w w')
    (h' : Raises v w' w'') : Raises v w w'' := by
  simpa using h.raises.trans h'

theorem raises_setIcs (w : World) (val : U32) : Raises val w (setIcs w val) :=
  ⟨fun _ => setInterruptCause_irqInv w _,
    by rw [setIcs, setInterruptCause_icr, BitVec.or_comm], setInterruptCause_pin w _⟩

/-! ## Reception -/

/-- A packet that passes the checks raises one of two causes, read off its result. -/
def receiveCause (fuel : Nat) (w : World) (iov : Iov) : U32 :=
  match e1000ReceiveIov fuel w iov with
  | .ok r =>
      if !accepted w.dev iov.flatten then 0
      else if r.ret = -1 then icrRxo
      else if rxDescMinimum r.world.dev then icrRxt0 ||| icrRxdmt0 else icrRxt0
  | _ => 0

theorem rxDescMinimum_congr {s s' : E1000State}
    (hreg : ∀ i ∈ [Reg.rdh, Reg.rdt, Reg.rdlen], s'.macReg i = s.macReg i)
    (hshift : s'.rxbufMinShift = s.rxbufMinShift) : rxDescMinimum s' = rxDescMinimum s := by
  have hrdh := hreg Reg.rdh (by simp)
  have hrdt := hreg Reg.rdt (by simp)
  have hrdlen := hreg Reg.rdlen (by simp)
  simp only [rxDescMinimum, hrdh, hrdt, hrdlen, hshift]

theorem raises_receiveDone (w : World) (size : Nat) :
    Raises (if rxDescMinimum (receiveDone w size).dev then icrRxt0 ||| icrRxdmt0 else icrRxt0)
      w (receiveDone w size) := by
  have hcount : IrqKeeps w { w with dev := countReceived w.dev size } := by
    refine ⟨fun i hi => countReceived_macReg w.dev size ?_, rfl, rfl, [], rfl, by simp⟩
    revert i
    decide
  have hframe := setInterruptCause_frame { w with dev := countReceived w.dev size }
    ((if rxDescMinimum (countReceived w.dev size) then icrRxt0 ||| icrRxdmt0 else icrRxt0) |||
      World.reg { w with dev := countReceived w.dev size } Reg.icr)
  have hmin : rxDescMinimum (receiveDone w size).dev =
      rxDescMinimum (countReceived w.dev size) := by
    refine rxDescMinimum_congr (fun i hi => hframe.reg i ?_)
      (congrArg Rest.rxbufMinShift hframe.rest)
    revert i
    decide
  rw [hmin]
  exact hcount.trans_raises (raises_setIcs _ _)

theorem Event.level_of_isRxDma {e : Event} (h : e.isRxDma = true) : e.level = none := by
  cases e <;> simp_all [Event.isRxDma, Event.level]

theorem raises_storePacket {fuel : Nat} {w : World} {p : RxPacket} {r : Received}
    (h : storePacket fuel w p = .ok r) :
    Raises (if r.ret = -1 then icrRxo
      else if rxDescMinimum r.world.dev then icrRxt0 ||| icrRxdmt0 else icrRxt0)
      w r.world := by
  simp only [storePacket] at h
  split_ifs at h
  · obtain ⟨⟨wrapped, w₁⟩, hloop, hr⟩ := Run.bind_eq_ok.mp h
    obtain ⟨hframe, -, hmit⟩ := rxLoop_frame hloop
    have hkeeps : IrqKeeps w w₁ :=
      .of_frame hframe hmit (by decide) fun _ => Event.level_of_isRxDma
    dsimp only at hr
    split_ifs at hr
    · cases hr
      exact hkeeps.trans_raises (raises_setIcs _ _)
    · cases hr
      rw [if_neg (by simp : ¬ ((p.size : Int) = -1))]
      exact hkeeps.trans_raises (raises_receiveDone _ _)
  · cases h
    exact raises_setIcs _ _

theorem raises_receive {fuel : Nat} {w : World} {iov : Iov} {r : Received}
    (h : e1000ReceiveIov fuel w iov = .ok r) :
    Raises (receiveCause fuel w iov) w r.world := by
  have hne : iov ≠ [] := by
    rintro rfl
    cases h
  rw [receiveCause, h]
  cases hacc : accepted w.dev iov.flatten with
  | false =>
      rw [receive_refused hne hacc] at h
      cases h
      exact (IrqKeeps.refl w).raises
  | true =>
      obtain ⟨p, -, -, hrun⟩ := receive_accepted hne hacc
      rw [hrun] at h
      exact raises_storePacket h

/-! ## Transmission -/

/-- A frame raises a cause only when loopback hands it to the receiver. -/
def segCause (fuel : Nat) (w : World) : U32 :=
  if test (w.dev.phyReg Phy.ctrl) miiCrLoopback then
    receiveCause fuel (w.setTx (frameTx w.dev.tx)) [frameSent w.dev.tx]
  else 0

def union (causes : List U32) : U32 := causes.foldr (· ||| ·) 0

theorem union_append (cs cs' : List U32) : union (cs ++ cs') = union cs ||| union cs' := by
  induction cs with
  | nil => simp [union]
  | cons c cs ih =>
      rw [List.cons_append]
      exact (congrArg (c ||| ·) ih).trans (BitVec.or_assoc _ _ _).symm

/-- The causes of the frames looped back, and the one the ring walk ends with. -/
def xmitCause (fuel : Nat) (w : World) : U32 :=
  union ((xmitCalls fuel w).map (segCause fuel)) |||
    if test (w.reg Reg.tctl) tctlEn then
      match loop (xmitBody (w.reg Reg.tdh) fuel) fuel ⟨w, icrTxqe⟩ with
      | .ok st => st.cause
      | _ => 0
    else 0

theorem raises_xmitSeg {fuel : Nat} {w w' : World} (h : xmitSeg fuel w = .ok w') :
    Raises (segCause fuel w) w w' := by
  rw [xmitSeg_eq] at h
  obtain ⟨⟨w₁, bytes⟩, hsend, h⟩ := Run.bind_eq_ok.mp h
  cases h
  have hcount : IrqKeeps (w₁.setTx (takeBack w₁.dev.tx bytes))
      (countFrame (w₁.setTx (takeBack w₁.dev.tx bytes))) := by
    refine ⟨fun i hi => ?_, ?_, ?_, [], countFrame_log _, by simp⟩
    · exact countFrame_reg ((by decide : ∀ i ∈ [Reg.icr, Reg.ics, Reg.ims],
        i ∉ [Reg.tpt, Reg.gptc, Reg.totl, Reg.toth]) i hi) _
    all_goals
      simp only [countFrame]
      split_ifs <;> rfl
  have hsent : Raises (segCause fuel w) w w₁ := by
    refine (IrqKeeps.setTx w (frameTx w.dev.tx)).trans_raises ?_
    rw [e1000SendPacket] at hsend
    rw [segCause]
    cases hloop : test (w.dev.phyReg Phy.ctrl) miiCrLoopback with
    | true =>
        rw [World.dev_setTx, if_pos hloop] at hsend
        obtain ⟨r, hr, hsend⟩ := Run.bind_eq_ok.mp hsend
        cases hsend
        exact raises_receive hr
    | false =>
        rw [World.dev_setTx, if_neg (by simp [hloop])] at hsend
        cases hsend
        exact (IrqKeeps.emit _ (by split_ifs <;> rfl)).raises
  simpa using (hsent.trans (IrqKeeps.setTx _ _).raises).trans hcount.raises

theorem raises_txRule (fuel : Nat) :
    TxRule fuel fun w cs w' => Raises (union (cs.map (segCause fuel))) w w' where
  refl w := (IrqKeeps.refl w).raises
  trans h h' := by
    rw [List.map_append, union_append]
    exact h.trans h'
  setTx w tp := (IrqKeeps.setTx w tp).raises
  noteIde w dp := IrqKeeps.raises ⟨fun _ _ => rfl, rfl, rfl, [], rfl, by simp⟩
  read w buf addr n := (IrqKeeps.emit w rfl).raises
  writeback w addr bs :=
    IrqKeeps.raises ⟨fun _ _ => rfl, rfl, rfl, [_], rfl, by simp [Event.level]⟩
  head w v := (IrqKeeps.setReg w v (by decide)).raises
  xmitSeg w w' h := by simpa [union] using raises_xmitSeg h

theorem raises_startXmit {fuel : Nat} {w w' : World} (h : startXmit fuel w = .ok w') :
    Raises (xmitCause fuel w) w w' := by
  rcases (raises_txRule fuel).startXmit h with ⟨hen, rfl⟩ | ⟨hen, st, hloop, hst, rfl⟩
  · simpa [xmitCause, xmitCalls, hen, union] using (IrqKeeps.refl w').raises
  · rw [xmitCause, if_pos hen, hloop]
    exact hst.trans (raises_setIcs _ _)

end SE4VM.E1000
