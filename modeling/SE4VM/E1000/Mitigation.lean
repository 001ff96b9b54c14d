import Mathlib.Order.Bounds.Defs
import SE4VM.E1000.Packet
import SE4VM.E1000.RegisterRange

/-!
# The mitigation delay

A rising edge outside a mitigation window arms the timer with the least delay that
some enabled register asks for.  Zero stands for no delay, both in the registers
and in the running minimum.  The registers have sixteen bits, so neither the scaling
of `TADV` and `RADV` nor that of the delay can overflow.
-/

namespace SE4VM.E1000

open SE4VM.Foundation

/-! ## The least delay -/

/-- `d` is the least of the delays in `xs` that are set, zero if none is. -/
def LeastDelay (xs : List Nat) (d : Nat) : Prop :=
  (d = 0 ∧ ∀ x ∈ xs, x = 0) ∨ IsLeast {x | x ∈ xs ∧ x ≠ 0} d

theorem LeastDelay.nil : LeastDelay [] 0 := .inl ⟨rfl, by simp⟩

theorem LeastDelay.update {xs : List Nat} {curr value : U32}
    (h : LeastDelay xs curr.toNat) :
    LeastDelay (xs ++ [value.toNat]) (mitUpdateDelay curr value).toNat := by
  have hzero : ∀ v : U32, v = 0 ↔ v.toNat = 0 := fun v => BitVec.toNat_inj.symm
  simp only [mitUpdateDelay, ne_eq, hzero, BitVec.lt_def]
  rcases h with ⟨hcurr, hnone⟩ | ⟨⟨hmem, hne⟩, hleast⟩
  · -- Nothing is set so far: the new value counts as it is.
    by_cases hvalue : value.toNat = 0
    · rw [if_neg (by simp [hvalue]), hcurr]
      refine .inl ⟨rfl, fun x hx => ?_⟩
      rcases List.mem_append.mp hx with hx | hx
      · exact hnone x hx
      · rw [List.mem_singleton.mp hx, hvalue]
    · rw [if_pos ⟨hvalue, .inl hcurr⟩]
      refine .inr ⟨⟨by simp, hvalue⟩, ?_⟩
      rintro x ⟨hx, hx0⟩
      rcases List.mem_append.mp hx with hx | hx
      · exact absurd (hnone x hx) hx0
      · exact (List.mem_singleton.mp hx).ge
  · have hmem' : curr.toNat ∈ xs ++ [value.toNat] := List.mem_append_left _ hmem
    split_ifs with hless
    · refine .inr ⟨⟨by simp, hless.1⟩, ?_⟩
      rintro x ⟨hx, hx0⟩
      rcases List.mem_append.mp hx with hx | hx
      · exact (hless.2.resolve_left hne).le.trans (hleast ⟨hx, hx0⟩)
      · exact (List.mem_singleton.mp hx).ge
    · refine .inr ⟨⟨hmem', hne⟩, ?_⟩
      rintro x ⟨hx, hx0⟩
      rcases List.mem_append.mp hx with hx | hx
      · exact hleast ⟨hx, hx0⟩
      · rw [List.mem_singleton.mp hx] at hx0 ⊢
        omega

/-! ## The sources -/

/-- The delays that the pending causes enable, in units of 256 ns. -/
def delaySources (s : E1000State) (pendingInts : U32) : List Nat :=
  (if s.mitIde ≠ 0 ∧ test pendingInts (icrTxqe ||| icrTxdw) then
    [4 * (s.macReg Reg.tadv).toNat] else []) ++
  (if s.macReg Reg.rdtr ≠ 0 ∧ test pendingInts icrRxt0 then
    [4 * (s.macReg Reg.radv).toNat] else []) ++
  [(s.macReg Reg.itr).toNat]

def delayRegs : List Nat := [Reg.tadv, Reg.radv, Reg.itr]

/-- The registers a delay is taken from have sixteen bits. -/
def NarrowDelays (s : E1000State) : Prop := ∀ i ∈ delayRegs, (s.macReg i).toNat < 2 ^ 16

theorem SinceReset.narrowDelays {w : World} (h : SinceReset w) : NarrowDelays w.dev :=
  fun i hi => (h.ranged.reg i).1 ((by decide : ∀ i ∈ delayRegs, i ∈ wordRegs) i hi)

section Sources

variable {s : E1000State} (hs : NarrowDelays s) (pendingInts : U32)

include hs

theorem toNat_mul_four {i : Nat} (hi : i ∈ delayRegs) :
    (s.macReg i * 4).toNat = 4 * (s.macReg i).toNat := by
  have hlt := hs i hi
  rw [BitVec.toNat_mul, show (4 : U32).toNat = 4 from rfl]
  omega

theorem leastDelay_mitDelay :
    LeastDelay (delaySources s pendingInts) (mitDelay s pendingInts).toNat := by
  have hzero : LeastDelay [] (0 : U32).toNat := .nil
  simp only [mitDelay, delaySources, ← toNat_mul_four hs (i := Reg.tadv) (by decide),
    ← toNat_mul_four hs (i := Reg.radv) (by decide)]
  refine LeastDelay.update ?_
  split_ifs
  · exact hzero.update.update
  · rw [List.append_nil]
    exact hzero.update
  · exact hzero.update
  · exact hzero

theorem delaySources_lt {x : Nat} (hx : x ∈ delaySources s pendingInts) : x < 2 ^ 18 := by
  have htadv := hs Reg.tadv (by decide)
  have hradv := hs Reg.radv (by decide)
  have hitr := hs Reg.itr (by decide)
  simp only [delaySources, List.mem_append, List.mem_ite_nil_right, List.mem_singleton] at hx
  omega

theorem toNat_mitDelay_mul : (mitDelay s pendingInts * 256).toNat =
    256 * (mitDelay s pendingInts).toNat := by
  have hlt : (mitDelay s pendingInts).toNat < 2 ^ 18 := by
    rcases leastDelay_mitDelay hs pendingInts with ⟨hnone, -⟩ | hleast
    · omega
    · exact delaySources_lt hs pendingInts hleast.1.1
  rw [BitVec.toNat_mul, show (256 : U32).toNat = 256 from rfl]
  omega

end Sources

/-! ## Delays in the log -/

def Event.armDelay : Event → Option Nat
  | .armMitTimer delay => some delay.toNat
  | _ => none

def armDelays (es : List Event) : List Nat := es.reverse.filterMap Event.armDelay

/-- From `w` to `w'` the timer is armed with these delays, oldest first. -/
def Arms (ds : List Nat) (w w' : World) : Prop :=
  ∃ es, w'.log = es ++ w.log ∧ armDelays es = ds

namespace Arms

variable {ds ds' : List Nat} {w w' w'' : World}

theorem of_log (h : w'.log = w.log) : Arms [] w w' := ⟨[], h, rfl⟩

theorem trans (h : Arms ds w w') (h' : Arms ds' w' w'') : Arms (ds ++ ds') w w'' := by
  obtain ⟨es, hlog, rfl⟩ := h
  obtain ⟨es', hlog', rfl⟩ := h'
  refine ⟨es' ++ es, by rw [hlog', hlog, List.append_assoc], ?_⟩
  rw [armDelays, List.reverse_append, List.filterMap_append]
  rfl

theorem of_frame {regs : List Nat} {ev : Event → Bool} (h : Frame regs ev w w')
    (hev : ∀ e, ev e = true → e.armDelay = none) : Arms [] w w' := by
  obtain ⟨es, hlog, hes⟩ := h.log
  refine ⟨es, hlog, List.filterMap_eq_nil_iff.mpr fun e he => ?_⟩
  exact hev e (hes e (List.mem_reverse.mp he))

theorem emit (w : World) {e : Event} (he : e.armDelay = none) : Arms [] w (w.emit e) :=
  ⟨[e], rfl, by simp [armDelays, he]⟩

end Arms

/-! ## A call of `set_interrupt_cause` -/

/-- The world that `set_interrupt_cause` is called in, and its argument. -/
abbrev CauseCall := World × U32

/-- A rising edge of a device with mitigation, outside a window. -/
def detectsEdge (c : CauseCall) : Bool :=
  !c.1.dev.mitIrqLevel && (c.1.reg Reg.ims &&& c.2 != 0) && !c.1.dev.mitTimerOn &&
    test c.1.dev.compatFlags e1000FlagMit

def CauseCall.sources (c : CauseCall) : List Nat :=
  delaySources c.1.dev (c.1.reg Reg.ims &&& c.2)

def callArms (c : CauseCall) : List Nat :=
  let delay := mitDelay c.1.dev (c.1.reg Reg.ims &&& c.2)
  if detectsEdge c && delay != 0 then [(delay * 256).toNat] else []

theorem mitDelay_cause (w : World) (val pendingInts : U32) :
    mitDelay ((w.setReg Reg.icr val).setReg Reg.ics val).dev pendingInts =
      mitDelay w.dev pendingInts := by
  simp [mitDelay, Function.update]

theorem setInterruptCause_edge {w : World} {val : U32} (h : detectsEdge (w, val) = true) :
    setInterruptCause w val =
      setIrqLevel (armMitigation ((w.setReg Reg.icr val).setReg Reg.ics val)
        (w.reg Reg.ims &&& val)) true := by
  simp only [detectsEdge, Bool.and_eq_true, Bool.not_eq_eq_eq_not, Bool.not_true] at h
  obtain ⟨⟨⟨hlevel, hpending⟩, htimer⟩, hmit⟩ := h
  have hpending' : w.reg Reg.ims &&& val ≠ 0 := bne_iff_ne.mp hpending
  simp only [setInterruptCause, pending_setCause, World.dev_setReg, hlevel, htimer, hmit, hpending]
  rw [if_pos ⟨trivial, hpending'⟩]
  rfl

theorem setInterruptCause_arms (w : World) (val : U32) :
    Arms (callArms (w, val)) w (setInterruptCause w val) := by
  by_cases hedge : detectsEdge (w, val) = true
  · rw [setInterruptCause_edge hedge, callArms, hedge, Bool.true_and]
    simp only [armMitigation, mitDelay_cause]
    by_cases hdelay : mitDelay w.dev (w.reg Reg.ims &&& val) = 0
    · rw [if_neg (by simp [hdelay]), if_neg (by simp [hdelay])]
      exact ⟨[_], rfl, rfl⟩
    · rw [if_pos (by simpa using hdelay), if_pos hdelay]
      exact ⟨[_, _], rfl, rfl⟩
  · have hnone : callArms (w, val) = [] := if_neg (by simp [hedge])
    rw [hnone]
    simp only [setInterruptCause, pending_setCause, World.dev_setReg]
    split_ifs with hrise hon hmit
    · exact .of_log rfl
    · exact absurd (by simpa [detectsEdge, hrise.1, hon, hmit] using hrise.2) hedge
    · exact ⟨[_], rfl, rfl⟩
    · exact ⟨[_], rfl, rfl⟩

/-- What a call that detects an edge does about the delay. -/
structure Mitigates (sources : List Nat) (w w' : World) : Prop where
  timer : ∃ ds, Arms ds w w' ∧ (ds ≠ [] ↔ ∃ x ∈ sources, x ≠ 0) ∧
    (∀ d ∈ ds, ∃ m, IsLeast {x | x ∈ sources ∧ x ≠ 0} m ∧ d = 256 * m) ∧ ds.length ≤ 1 ∧
    (w'.dev.mitTimerOn = true ↔ ds ≠ [])
  mitIde : w'.dev.mitIde = 0

theorem setInterruptCause_mitigates {c : CauseCall} (hs : NarrowDelays c.1.dev)
    (hedge : detectsEdge c = true) :
    Mitigates c.sources c.1 (setInterruptCause c.1 c.2) := by
  obtain ⟨w, val⟩ := c
  have harms := setInterruptCause_arms w val
  have htimer : w.dev.mitTimerOn = false := by
    simp only [detectsEdge, Bool.and_eq_true, Bool.not_eq_eq_eq_not, Bool.not_true] at hedge
    exact hedge.1.2
  have hleast := leastDelay_mitDelay hs (w.reg Reg.ims &&& val)
  have hmul := toNat_mitDelay_mul hs (w.reg Reg.ims &&& val)
  have hzero : mitDelay w.dev (w.reg Reg.ims &&& val) = 0 ↔
      (mitDelay w.dev (w.reg Reg.ims &&& val)).toNat = 0 := BitVec.toNat_inj.symm
  rw [setInterruptCause_edge hedge] at harms ⊢
  refine ⟨⟨_, harms, ?_⟩, ?_⟩
  · simp only [callArms, hedge, Bool.true_and, armMitigation, mitDelay_cause, bne_iff_ne, ne_eq,
      hzero, hmul]
    rcases hleast with ⟨hnone, hall⟩ | ⟨⟨hmem, hne⟩, hbelow⟩
    · have hnot : ¬ ∃ x ∈ CauseCall.sources (w, val), x ≠ 0 := by
        rintro ⟨x, hx, hx0⟩
        exact hx0 (hall x hx)
      simp [hnone, hnot, setIrqLevel, htimer]
    · rw [if_pos hne, if_pos hne]
      refine ⟨by simpa using ⟨_, hmem, hne⟩, fun d hd => ?_, le_rfl, by simp [setIrqLevel]⟩
      exact ⟨_, ⟨⟨hmem, hne⟩, hbelow⟩, List.mem_singleton.mp hd⟩
  · simp [setIrqLevel, armMitigation]

/-! ## The calls that the device makes -/

/-- `set_ics` adds to the causes that are there. -/
def icsCall (w : World) (val : U32) : CauseCall := (w, val ||| w.reg Reg.icr)

def storeCalls (fuel : Nat) (w : World) (p : RxPacket) : List CauseCall :=
  let totalSize := p.size + fcsLen w.dev
  if e1000HasRxbufs w.dev totalSize then
    match loop (rxBody ⟨p.size, totalSize, p.vlanSpecial, p.vlanStatus, w.reg Reg.rdh⟩)
        fuel ⟨w, 0, p.iov, p.iovOfs⟩ with
    | .ok (true, w) => [icsCall w icrRxo]
    | .ok (false, w) =>
        let w := { w with dev := countReceived w.dev p.size }
        [icsCall w (if rxDescMinimum w.dev then icrRxt0 ||| icrRxdmt0 else icrRxt0)]
    | _ => []
  else [icsCall w icrRxo]

def receiveCalls (fuel : Nat) (w : World) (iov : Iov) : List CauseCall :=
  if accepted w.dev iov.flatten then
    match receiveHeader iov >>= stripVlan w.dev iov with
    | .ok p => storeCalls fuel w p
    | _ => []
  else []

/-- A frame reaches the receiver in loopback only. -/
def segCalls (fuel : Nat) (w : World) : List CauseCall :=
  if test (w.dev.phyReg Phy.ctrl) miiCrLoopback then
    receiveCalls fuel (w.setTx (frameTx w.dev.tx)) [frameSent w.dev.tx]
  else []

def startXmitCalls (fuel : Nat) (w : World) : List CauseCall :=
  (xmitCalls fuel w).flatMap (segCalls fuel) ++
    if test (w.reg Reg.tctl) tctlEn then
      match loop (xmitBody (w.reg Reg.tdh) fuel) fuel ⟨w, icrTxqe⟩ with
      | .ok st => [icsCall st.world st.cause]
      | _ => []
    else []

def mdicCalls (w : World) (val : U32) : List CauseCall :=
  let (val, w) := mdicCommand w val
  if test val mdicIntEn then [icsCall (w.setReg Reg.mdic (val ||| mdicReady)) icrMdac] else []

def writeCalls (fuel : Nat) (op : WriteOp) (w : World) (index : Nat) (val : U32) :
    List CauseCall :=
  match op with
  | .setTctl =>
      let w := w.setReg index val
      startXmitCalls fuel (w.setReg Reg.tdt (w.reg Reg.tdt &&& 0xffff#32))
  | .setMdic => mdicCalls w val
  | .setIcs => [icsCall w val]
  | .setImc => [icsCall (w.setReg Reg.ims (w.reg Reg.ims &&& ~~~val)) 0]
  | .setIms => [icsCall (w.setReg Reg.ims (w.reg Reg.ims ||| val)) 0]
  | .setIcr => [(w, w.reg Reg.icr &&& ~~~val)]
  | _ => []

def mitTimerCall (w : World) : CauseCall :=
  ({ w with dev := { w.dev with mitTimerOn := false } }, w.reg Reg.icr)

def linkCalls (w : World) (down : Bool) : List CauseCall :=
  let d := { w.dev with linkDown := down }
  let w' := { w with dev := if down then e1000LinkDown d else e1000LinkUp d }
  if w'.reg Reg.status ≠ w.reg Reg.status then [icsCall w' icrLsc] else []

/-- The calls of `set_interrupt_cause` in a step, oldest first. -/
def causeCalls (fuel : Nat) (w : World) : Op → List CauseCall
  | .mmioRead addr =>
      if macregReadops (mmioIndex addr) = some .macIcrRead then [(w, 0)] else []
  | .mmioWrite addr val =>
      match macregWriteops (mmioIndex addr) with
      | some op => writeCalls fuel op w (mmioIndex addr) (val.setWidth 32)
      | none => []
  | .receive iov => receiveCalls fuel w iov
  | .linkStatus down => linkCalls w down
  | .mitTimer => [mitTimerCall w]
  | .preSave => if w.dev.mitTimerOn then [mitTimerCall w] else []
  | _ => []

/-! ## Every delay comes from one of the calls -/

theorem icsCall_arms (w : World) (val : U32) : Arms (callArms (icsCall w val)) w (setIcs w val) :=
  setInterruptCause_arms w _

/-- What happens before the call leaves the log alone. -/
theorem setIcs_arms {w w₁ : World} (val : U32) (h : w₁.log = w.log) :
    Arms ([icsCall w₁ val].flatMap callArms) w (setIcs w₁ val) := by
  rw [List.flatMap_singleton]
  exact (Arms.of_log h).trans (icsCall_arms w₁ val)

theorem Event.armDelay_of_isRxDma {e : Event} (h : e.isRxDma = true) : e.armDelay = none := by
  cases e <;> simp_all [Event.isRxDma, Event.armDelay]

theorem storeCalls_arms {fuel : Nat} {w : World} {p : RxPacket} {r : Received}
    (h : storePacket fuel w p = .ok r) :
    Arms ((storeCalls fuel w p).flatMap callArms) w r.world := by
  simp only [storePacket] at h
  simp only [storeCalls]
  split_ifs at h ⊢
  · obtain ⟨⟨wrapped, w₁⟩, hloop, hr⟩ := Run.bind_eq_ok.mp h
    have hdma : Arms [] w w₁ :=
      .of_frame (rxLoop_frame hloop).1 fun _ => Event.armDelay_of_isRxDma
    rw [hloop]
    cases wrapped with
    | true =>
        cases hr
        simpa using hdma.trans (icsCall_arms w₁ icrRxo)
    | false =>
        cases hr
        have hcount : Arms [] w { w₁ with dev := countReceived w₁.dev p.size } := hdma
        simpa [receiveDone] using hcount.trans (icsCall_arms _ _)
  · cases h
    simpa using icsCall_arms w icrRxo

theorem receiveCalls_arms {fuel : Nat} {w : World} {iov : Iov} {r : Received}
    (h : e1000ReceiveIov fuel w iov = .ok r) :
    Arms ((receiveCalls fuel w iov).flatMap callArms) w r.world := by
  have hne : iov ≠ [] := by
    rintro rfl
    cases h
  rw [receiveCalls]
  cases hacc : accepted w.dev iov.flatten with
  | false =>
      rw [receive_refused hne hacc] at h
      cases h
      exact .of_log rfl
  | true =>
      obtain ⟨p, hp, -, hrun⟩ := receive_accepted hne hacc
      rw [hrun] at h
      rw [if_pos rfl, hp]
      exact storeCalls_arms h

theorem segCalls_arms {fuel : Nat} {w w' : World} (h : xmitSeg fuel w = .ok w') :
    Arms ((segCalls fuel w).flatMap callArms) w w' := by
  rw [xmitSeg_eq] at h
  obtain ⟨⟨w₁, bytes⟩, hsend, h⟩ := Run.bind_eq_ok.mp h
  cases h
  have hsent : Arms ((segCalls fuel w).flatMap callArms) (w.setTx (frameTx w.dev.tx)) w₁ := by
    rw [e1000SendPacket] at hsend
    rw [segCalls]
    cases hloop : test (w.dev.phyReg Phy.ctrl) miiCrLoopback with
    | true =>
        rw [World.dev_setTx, if_pos hloop] at hsend
        obtain ⟨r, hr, hsend⟩ := Run.bind_eq_ok.mp hsend
        cases hsend
        exact receiveCalls_arms hr
    | false =>
        rw [World.dev_setTx, if_neg (by simp [hloop])] at hsend
        cases hsend
        exact .emit _ (by split_ifs <;> rfl)
  have hback : Arms [] w₁ (countFrame (w₁.setTx (takeBack w₁.dev.tx bytes))) :=
    .of_log (countFrame_log _)
  have hstart : Arms [] w (w.setTx (frameTx w.dev.tx)) := .of_log rfl
  simpa using (hstart.trans hsent).trans hback

theorem arms_txRule (fuel : Nat) :
    TxRule fuel fun w cs w' => Arms ((cs.flatMap (segCalls fuel)).flatMap callArms) w w' where
  refl w := .of_log rfl
  trans h h' := by
    rw [List.flatMap_append, List.flatMap_append]
    exact h.trans h'
  setTx w tp := .of_log rfl
  noteIde w dp := .of_log rfl
  read w buf addr n := .emit w rfl
  writeback w addr bs := ⟨[_], rfl, rfl⟩
  head w v := .of_log rfl
  xmitSeg w w' h := by simpa using segCalls_arms h

theorem startXmitCalls_arms {fuel : Nat} {w w' : World} (h : startXmit fuel w = .ok w') :
    Arms ((startXmitCalls fuel w).flatMap callArms) w w' := by
  rw [startXmitCalls, List.flatMap_append]
  rcases (arms_txRule fuel).startXmit h with ⟨hen, rfl⟩ | ⟨hen, st, hloop, hst, rfl⟩
  · simpa [xmitCalls, hen] using Arms.of_log (w := w') rfl
  · rw [if_pos hen, hloop]
    simpa using hst.trans (icsCall_arms st.world st.cause)

theorem mdicCommand_arms (w : World) (val : U32) : Arms [] w (mdicCommand w val).2 := by
  have hctrl : ∀ v, Arms [] w (setPhyCtrl w v) := by
    intro v
    simp only [setPhyCtrl]
    split_ifs
    · exact ⟨[_], rfl, rfl⟩
    · exact .of_log rfl
  simp only [mdicCommand]
  split_ifs
  all_goals
    first
    | exact .of_log rfl
    | exact (hctrl _).trans (.of_log rfl)

theorem mdicCalls_arms (w : World) (val : U32) :
    Arms ((mdicCalls w val).flatMap callArms) w (setMdic w val) := by
  have hset : Arms [] w ((mdicCommand w val).2.setReg Reg.mdic
      ((mdicCommand w val).1 ||| mdicReady)) := (mdicCommand_arms w val).trans (.of_log rfl)
  simp only [mdicCalls, setMdic]
  split_ifs
  · simpa using hset.trans (icsCall_arms _ icrMdac)
  · exact hset

theorem writeCalls_arms {fuel : Nat} {op : WriteOp} {w w' : World} {index : Nat} {val : U32}
    (h : runWriteOp fuel op w index val = .ok w') :
    Arms ((writeCalls fuel op w index val).flatMap callArms) w w' := by
  cases op with
  | setTctl =>
      have hset : Arms [] w ((w.setReg index val).setReg Reg.tdt
          ((w.setReg index val).reg Reg.tdt &&& 0xffff#32)) := .of_log rfl
      exact hset.trans (startXmitCalls_arms h)
  | setMdic => cases h; exact mdicCalls_arms w val
  | setIcs => cases h; exact setIcs_arms _ rfl
  | setImc => cases h; exact setIcs_arms _ rfl
  | setIms => cases h; exact setIcs_arms _ rfl
  | setIcr =>
      cases h
      rw [writeCalls, List.flatMap_singleton]
      exact setInterruptCause_arms w _
  | macWritereg =>
      cases h
      simp only [writeCalls, macWritereg]
      split_ifs
      · exact ⟨[_], rfl, rfl⟩
      · exact .of_log rfl
  | setRdt =>
      cases h
      simp only [writeCalls, setRdt]
      split_ifs
      · exact ⟨[_], rfl, rfl⟩
      · exact .of_log rfl
  | setRxControl => cases h; exact ⟨[_], rfl, rfl⟩
  | setDlen => cases h; exact .of_log rfl
  | set16bit => cases h; exact .of_log rfl
  | setEecd => cases h; exact .of_log rfl
  | setCtrl => cases h; exact .of_log rfl

theorem linkCalls_arms (w : World) (down : Bool) :
    Arms ((linkCalls w down).flatMap callArms) w (e1000SetLinkStatus w down) := by
  simp only [linkCalls, e1000SetLinkStatus]
  split_ifs
  all_goals
    first
    | exact .of_log rfl
    | exact setIcs_arms icrLsc rfl

theorem mitTimerCall_arms (w : World) :
    Arms ([mitTimerCall w].flatMap callArms) w (e1000MitTimer w) := by
  have hoff : Arms [] w { w with dev := { w.dev with mitTimerOn := false } } := .of_log rfl
  rw [List.flatMap_singleton]
  exact hoff.trans (setInterruptCause_arms _ _)

theorem readCalls_arms {op : ReadOp} (w : World) (index : Nat) :
    Arms ((if op = .macIcrRead then [(w, 0)] else []).flatMap callArms) w
      (runReadOp op w index).1 := by
  cases op with
  | macIcrRead =>
      rw [if_pos rfl, List.flatMap_singleton]
      exact setInterruptCause_arms w 0
  | macReadreg => exact .of_log rfl
  | macReadClr4 => exact .of_log rfl
  | macReadClr8 => exact .of_log rfl
  | getEecd => exact .of_log rfl
  | flashEerdRead => exact .of_log rfl

/-- The delays that a step arms the timer with are those of its calls. -/
theorem step_arms {fuel : Nat} {w w' : World} {op : Op} {reply : Reply}
    (h : step fuel w op = .ok (w', reply)) :
    Arms ((causeCalls fuel w op).flatMap callArms) w w' := by
  cases op with
  | mmioRead addr =>
      cases h
      simp only [causeCalls]
      cases macregReadops (mmioIndex addr) with
      | some op => simpa only [Option.some.injEq] using readCalls_arms w (mmioIndex addr)
      | none => exact .of_log rfl
  | mmioWrite addr val =>
      obtain ⟨w₁, hw, h⟩ := Run.bind_eq_ok.mp h
      cases h
      rw [e1000MmioWrite] at hw
      rw [causeCalls]
      cases hop : macregWriteops (mmioIndex addr) with
      | some op =>
          rw [hop] at hw
          exact writeCalls_arms hw
      | none =>
          rw [hop] at hw
          cases hw
          exact .of_log rfl
  | receive iov =>
      obtain ⟨r, hr, h⟩ := Run.bind_eq_ok.mp h
      cases h
      exact receiveCalls_arms hr
  | linkStatus down => cases h; exact linkCalls_arms w down
  | mitTimer => cases h; exact mitTimerCall_arms w
  | preSave =>
      cases h
      simp only [causeCalls, e1000PreSave]
      split_ifs
      all_goals
        first
        | exact .of_log rfl
        | exact mitTimerCall_arms w
  | autonegTimer =>
      cases h
      exact .of_log rfl
  | reset =>
      cases h
      exact ⟨[_], rfl, rfl⟩
  | guestStore mem => cases h; exact .of_log rfl

/-! ## The registers at a call -/

/-- The registers a delay is taken from are still those of `w`. -/
def KeepsDelays (w w' : World) : Prop := ∀ i ∈ delayRegs, w'.reg i = w.reg i

namespace KeepsDelays

variable {w w' w'' : World}

theorem refl (w : World) : KeepsDelays w w := fun _ _ => rfl

theorem trans (h : KeepsDelays w w') (h' : KeepsDelays w' w'') : KeepsDelays w w'' :=
  fun i hi => (h' i hi).trans (h i hi)

theorem setReg (w : World) {j : Nat} (v : U32) (hj : j ∉ delayRegs) :
    KeepsDelays w (w.setReg j v) := by
  refine fun i hi => World.reg_setReg_of_ne w j i v ?_
  rintro rfl
  exact hj hi

theorem of_frame {regs : List Nat} {ev : Event → Bool} (h : Frame regs ev w w')
    (hregs : ∀ i ∈ delayRegs, i ∉ regs) : KeepsDelays w w' :=
  fun i hi => h.reg i (hregs i hi)

theorem narrowDelays (h : KeepsDelays w w') (hw : NarrowDelays w.dev) : NarrowDelays w'.dev := by
  intro i hi
  have hreg : w'.dev.macReg i = w.dev.macReg i := h i hi
  rw [hreg]
  exact hw i hi

end KeepsDelays

theorem keepsDelays_txRule (fuel : Nat) : TxRule fuel fun w _ w' => KeepsDelays w w' :=
  .of_regs delayRegs (by decide) id .trans fun h => .of_frame (xmitSeg_spec h).1 (by decide)

theorem storeCalls_keepsDelays {fuel : Nat} {w : World} {p : RxPacket} {c : CauseCall}
    (hc : c ∈ storeCalls fuel w p) : KeepsDelays w c.1 := by
  simp only [storeCalls] at hc
  split at hc
  · split at hc
    · next w₁ hloop =>
        rw [List.mem_singleton.mp hc]
        exact .of_frame (rxLoop_frame hloop).1 (by decide)
    · next w₁ hloop =>
        rw [List.mem_singleton.mp hc]
        have hcount : KeepsDelays w₁ { w₁ with dev := countReceived w₁.dev p.size } :=
          fun i hi => countReceived_macReg _ _ ((by decide : ∀ i ∈ delayRegs,
            i ∉ [Reg.gprc, Reg.tpr, Reg.torl, Reg.torh]) i hi)
        exact KeepsDelays.trans (.of_frame (rxLoop_frame hloop).1 (by decide)) hcount
    · cases hc
  · rw [List.mem_singleton.mp hc]
    exact .refl w

theorem receiveCalls_keepsDelays {fuel : Nat} {w : World} {iov : Iov} {c : CauseCall}
    (hc : c ∈ receiveCalls fuel w iov) : KeepsDelays w c.1 := by
  rw [receiveCalls] at hc
  split at hc
  · split at hc
    · exact storeCalls_keepsDelays hc
    · cases hc
  · cases hc

theorem segCalls_keepsDelays {fuel : Nat} {w : World} {c : CauseCall}
    (hc : c ∈ segCalls fuel w) : KeepsDelays w c.1 := by
  rw [segCalls] at hc
  split at hc
  · exact fun i hi => receiveCalls_keepsDelays hc i hi
  · cases hc

theorem startXmitCalls_keepsDelays {fuel : Nat} {w : World} {c : CauseCall}
    (hc : c ∈ startXmitCalls fuel w) : KeepsDelays w c.1 := by
  rw [startXmitCalls] at hc
  rcases List.mem_append.mp hc with hc | hc
  · obtain ⟨w₁, hw₁, hc⟩ := List.mem_flatMap.mp hc
    exact ((keepsDelays_txRule fuel).mem_xmitCalls hw₁).trans (segCalls_keepsDelays hc)
  · split at hc
    · next hen =>
        split at hc
        · next st hloop =>
            have hrun : startXmit fuel w = .ok (setIcs st.world st.cause) := by
              rw [startXmit, if_pos hen, hloop]
              rfl
            rw [List.mem_singleton.mp hc]
            rcases (keepsDelays_txRule fuel).startXmit hrun with
              ⟨hoff, -⟩ | ⟨-, st', hloop', hst, -⟩
            · rw [hen] at hoff
              cases hoff
            · rw [hloop] at hloop'
              cases hloop'
              exact hst
        · cases hc
    · cases hc

theorem mdicCommand_keepsDelays (w : World) (val : U32) :
    KeepsDelays w (mdicCommand w val).2 := by
  intro i hi
  have hstatus : i ≠ Reg.status := (by decide : ∀ i ∈ delayRegs, i ≠ Reg.status) i hi
  simp only [mdicCommand, setPhyCtrl]
  split_ifs <;> first | rfl | exact Function.update_of_ne hstatus _ _

theorem writeCalls_keepsDelays {fuel : Nat} {op : WriteOp} {w : World} {index : Nat} {val : U32}
    (hop : macregWriteops index = some op) {c : CauseCall}
    (hc : c ∈ writeCalls fuel op w index val) : KeepsDelays w c.1 := by
  cases op with
  | setTctl =>
      have hindex : index ∉ delayRegs := notMem_of_macregWriteops hop (by decide)
      exact ((KeepsDelays.setReg w val hindex).trans (.setReg _ _ (by decide))).trans
        (startXmitCalls_keepsDelays hc)
  | setMdic =>
      simp only [writeCalls, mdicCalls, List.mem_ite_nil_right, List.mem_singleton] at hc
      rw [hc.2]
      exact (mdicCommand_keepsDelays w val).trans (.setReg _ _ (by decide))
  | setIcs => rw [List.mem_singleton.mp hc]; exact .refl w
  | setImc => rw [List.mem_singleton.mp hc]; exact .setReg w _ (by decide)
  | setIms => rw [List.mem_singleton.mp hc]; exact .setReg w _ (by decide)
  | setIcr => rw [List.mem_singleton.mp hc]; exact .refl w
  | macWritereg => cases hc
  | setDlen => cases hc
  | set16bit => cases hc
  | setRdt => cases hc
  | setEecd => cases hc
  | setRxControl => cases hc
  | setCtrl => cases hc

theorem linkCalls_keepsDelays {w : World} {down : Bool} {c : CauseCall}
    (hc : c ∈ linkCalls w down) : KeepsDelays w c.1 := by
  simp only [linkCalls, List.mem_ite_nil_right, List.mem_singleton] at hc
  rw [hc.2]
  intro i hi
  have hstatus : i ≠ Reg.status := (by decide : ∀ i ∈ delayRegs, i ≠ Reg.status) i hi
  cases down <;> exact Function.update_of_ne hstatus _ _

theorem causeCalls_keepsDelays {fuel : Nat} {w : World} {op : Op} {c : CauseCall}
    (hc : c ∈ causeCalls fuel w op) : KeepsDelays w c.1 := by
  cases op with
  | mmioRead addr =>
      simp only [causeCalls, List.mem_ite_nil_right, List.mem_singleton] at hc
      rw [hc.2]
      exact .refl w
  | mmioWrite addr val =>
      rw [causeCalls] at hc
      split at hc
      · next hop => exact writeCalls_keepsDelays hop hc
      · cases hc
  | receive iov => exact receiveCalls_keepsDelays hc
  | linkStatus down => exact linkCalls_keepsDelays hc
  | mitTimer => rw [List.mem_singleton.mp hc]; exact .refl w
  | preSave =>
      simp only [causeCalls, List.mem_ite_nil_right, List.mem_singleton] at hc
      rw [hc.2]
      exact .refl w
  | autonegTimer => cases hc
  | reset => cases hc
  | guestStore mem => cases hc

/-! ## The delay -/

/--
Whenever the device detects a rising edge outside a window, the timer is armed if
some enabled delay is set, with 256 times the least of those.
-/
theorem mitigation_delay {w : World} (h : Reachable w) {fuel : Nat} {op : Op} {c : CauseCall}
    (hc : c ∈ causeCalls fuel w op) (hedge : detectsEdge c = true) :
    Mitigates c.sources c.1 (setInterruptCause c.1 c.2) :=
  setInterruptCause_mitigates
    ((causeCalls_keepsDelays hc).narrowDelays h.sinceReset.narrowDelays) hedge

/-- A device with mitigation, all causes enabled, and a throttling rate of 100. -/
def mitReady : World :=
  set16bit (setIms (powerOn (fun _ => 0) e1000FlagMit false Memory.blank) 0xffffffff) Reg.itr 100

theorem reachable_mitReady : Reachable mitReady := by
  refine .mmioWrite ?_ 0xC4#64 .set16bit 100 rfl fun _ => rfl
  refine .mmioWrite ?_ 0xD0#64 .setIms 0xffffffff rfl fun _ => rfl
  exact .powerOn _ _ _ _

theorem mitigation_delay_throttled :
    detectsEdge (icsCall mitReady icrTxdw) = true ∧
      Mitigates (icsCall mitReady icrTxdw).sources mitReady (setIcs mitReady icrTxdw) :=
  ⟨by decide, @mitigation_delay mitReady reachable_mitReady 0 (.mmioWrite 0xC8#64 1) _
    (List.mem_singleton_self _) (by decide)⟩

example : (icsCall mitReady icrTxdw).sources = [100] := by decide

end SE4VM.E1000
