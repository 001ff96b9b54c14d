import SE4VM.E1000.Link
import SE4VM.E1000.Observation
import SE4VM.E1000.Reach
import SE4VM.E1000.SegmentCalls

/-!
# Waking up the receive queue

Packets that the device cannot receive wait in the queue of the network layer
until `qemu_flush_queued_packets`.  The handlers of `RCTL` and `RDT` call it; the
other events that let the device receive again do not.
-/

namespace SE4VM.E1000

open SE4VM.Foundation

/-! ## When the device can receive -/

theorem e1000HasRxbufs_of_eq {s : E1000State} (h : s.macReg Reg.rdh = s.macReg Reg.rdt)
    (totalSize : Nat) : e1000HasRxbufs s totalSize = false := by
  simp only [e1000HasRxbufs, h, bne_self_eq_false, BitVec.lt_irrefl, if_false]
  split_ifs <;> rfl

structure Ready (s : E1000State) : Prop where
  linkUp : s.linkUp = true
  enabled : test (s.macReg Reg.rctl) rctlEn = true
  buffers : s.macReg Reg.rdh ≠ s.macReg Reg.rdt

def gateRegs : List Nat := [Reg.status, Reg.rctl, Reg.rdh, Reg.rdt]

theorem Ready.congr {s s' : E1000State} (h : Ready s')
    (hreg : ∀ i ∈ gateRegs, s'.macReg i = s.macReg i) : Ready s := by
  obtain ⟨hup, hen, hbuf⟩ := h
  rw [E1000State.linkUp, hreg _ (by simp [gateRegs])] at hup
  rw [hreg _ (by simp [gateRegs])] at hen
  rw [hreg _ (by simp [gateRegs]), hreg _ (by simp [gateRegs])] at hbuf
  exact ⟨hup, hen, hbuf⟩

theorem e1000CanReceive_iff {s : E1000State} (hinv : RegInv s) :
    e1000CanReceive s = true ↔ Ready s := by
  constructor
  · intro h
    simp only [e1000CanReceive, Bool.and_eq_true] at h
    refine ⟨h.1.1, h.1.2, fun heq => ?_⟩
    rw [e1000HasRxbufs_of_eq heq] at h
    cases h.2
  · rintro ⟨hup, hen, hbuf⟩
    have hsize : 1 ≤ s.rxbufSize.toNat := by
      rw [hinv.toNat_rxbufSize hen]
      exact rxbufsize_pos _
    simp only [E1000State.linkUp] at hup
    simp only [e1000CanReceive, e1000HasRxbufs, if_pos hsize, hup, hen, Bool.and_self,
      Bool.true_and]
    simpa using hbuf

/-! ## Reception and transmission open nothing -/

/-- With head and tail in the same place, they stay there. -/
def Parked (w w' : World) : Prop :=
  w'.reg Reg.rdt = w.reg Reg.rdt ∧
    (w.reg Reg.rdh = w.reg Reg.rdt → w'.reg Reg.rdh = w.reg Reg.rdh)

theorem Parked.of_eq {w w' : World} (hrdt : w'.reg Reg.rdt = w.reg Reg.rdt)
    (hrdh : w'.reg Reg.rdh = w.reg Reg.rdh) : Parked w w' := ⟨hrdt, fun _ => hrdh⟩

theorem Parked.trans {w w' w'' : World} (h : Parked w w') (h' : Parked w' w'') :
    Parked w w'' := by
  refine ⟨h'.1.trans h.1, fun heq => ?_⟩
  have hmid := h.2 heq
  rw [h'.2 (by rw [hmid, h.1, heq]), hmid]

theorem setIcs_parked (w : World) (val : U32) : Parked w (setIcs w val) :=
  .of_eq ((setInterruptCause_frame w _).reg _ (by decide))
    ((setInterruptCause_frame w _).reg _ (by decide))

theorem e1000ReceiveIov_parked {fuel : Nat} {w : World} {iov : Iov} {r : Received}
    (h : e1000ReceiveIov fuel w iov = .ok r) : Parked w r.world := by
  refine ⟨(e1000ReceiveIov_frame h).1.reg _ (by decide), fun heq => ?_⟩
  simp only [e1000ReceiveIov] at h
  split_ifs at h
  · cases h
    rfl
  · cases h
    rfl
  · obtain ⟨hd, -, h⟩ := Run.bind_eq_ok.mp h
    split_ifs at h
    · cases h
      rfl
    · cases h
      rfl
    · obtain ⟨p, -, h⟩ := Run.bind_eq_ok.mp h
      simp only [storePacket, e1000HasRxbufs_of_eq heq, Bool.false_eq_true, if_false] at h
      cases h
      exact (setIcs_parked w icrRxo).2 heq

theorem parked_of_regs {w w' : World} (h : ∀ i ∈ [Reg.rdt, Reg.rdh], w'.reg i = w.reg i) :
    Parked w w' :=
  .of_eq (h _ (by simp)) (h _ (by simp))

theorem parked_segRule : SegRule Parked :=
  .of_regs [Reg.rdt, Reg.rdh] (by decide) parked_of_regs .trans e1000ReceiveIov_parked

theorem parked_txRule (fuel : Nat) : TxRule fuel fun w _ w' => Parked w w' :=
  .of_regs [Reg.rdt, Reg.rdh] (by decide) parked_of_regs .trans parked_segRule.xmitSeg

theorem startXmit_parked {fuel : Nat} {w w' : World} (h : startXmit fuel w = .ok w') :
    Parked w w' := by
  rcases (parked_txRule fuel).startXmit h with ⟨-, rfl⟩ | ⟨-, st, -, hst, rfl⟩
  · exact .of_eq rfl rfl
  · exact hst.trans (setIcs_parked _ _)

/-! ## What opens the device -/

def Flushes (w w' : World) : Prop :=
  ∃ es, w'.log = es ++ w.log ∧ Event.flushQueuedPackets ∈ es

theorem not_flushes_of_log {w w' : World} (es : List Event) (hlog : w'.log = es ++ w.log)
    (hes : Event.flushQueuedPackets ∉ es) : ¬ Flushes w w' := by
  rintro ⟨es', hlog', hmem⟩
  rw [hlog, List.append_cancel_right_eq] at hlog'
  exact hes (hlog' ▸ hmem)

/-- The device was as ready before, or the queue is flushed. -/
def Woken (w w' : World) : Prop := Ready w'.dev → Ready w.dev ∨ Flushes w w'

theorem Woken.of_eq {w w' : World} (hst : w'.reg Reg.status = w.reg Reg.status)
    (hrctl : w'.reg Reg.rctl = w.reg Reg.rctl) (hpark : Parked w w') : Woken w w' := by
  rintro ⟨hup, hen, hbuf⟩
  refine .inl ⟨?_, ?_, fun heq => hbuf ?_⟩
  · exact (congrArg (test · statusLu) hst).symm.trans hup
  · exact (congrArg (test · rctlEn) hrctl).symm.trans hen
  · exact (hpark.2 heq).trans (heq.trans hpark.1.symm)

theorem Ready.of_setReg {w : World} {i : Nat} {v : U32} (h : Ready (w.setReg i v).dev)
    (hi : i ∉ gateRegs) : Ready w.dev := by
  refine h.congr fun j hj => World.reg_setReg_of_ne w i j v ?_
  rintro rfl
  exact hi hj

theorem Ready.of_setInterruptCause {w : World} {val : U32}
    (h : Ready (setInterruptCause w val).dev) : Ready w.dev := by
  refine h.congr fun i hi => (setInterruptCause_frame w val).reg i ?_
  rintro hmem
  exact absurd hi ((by decide : ∀ i ∈ [Reg.icr, Reg.ics], i ∉ gateRegs) i hmem)

theorem mdicCommand_ready {w : World} {val : U32} (h : Ready (mdicCommand w val).2.dev) :
    Ready w.dev := by
  have hctrl : ∀ v, Ready (setPhyCtrl w v).dev → Ready w.dev := by
    intro v hv
    simp only [setPhyCtrl] at hv
    split_ifs at hv
    · -- A restarted negotiation takes the link down.
      have hup : (e1000LinkDown w.dev).linkUp = true := hv.linkUp
      rw [linkUp_e1000LinkDown] at hup
      cases hup
    · exact hv
  simp only [mdicCommand] at h
  split_ifs at h
  all_goals
    first
    | exact h
    | exact ⟨h.linkUp, h.enabled, h.buffers⟩
    | exact hctrl _ ⟨h.linkUp, h.enabled, h.buffers⟩

theorem setMdic_ready {w : World} {val : U32} (h : Ready (setMdic w val).dev) :
    Ready w.dev := by
  have hmdic : Reg.mdic ∉ gateRegs := by decide
  simp only [setMdic] at h
  split_ifs at h
  · exact mdicCommand_ready (h.of_setInterruptCause.of_setReg hmdic)
  · exact mdicCommand_ready (h.of_setReg hmdic)

theorem runWriteOp_woken {fuel : Nat} {op : WriteOp} {w w' : World} {index : Nat} {val : U32}
    (hop : macregWriteops index = some op) (h : runWriteOp fuel op w index val = .ok w')
    (hrdh : index ≠ Reg.rdh) (hinv : RegInv w'.dev) : Woken w w' := by
  -- `RDH` apart, the registers of `Ready` have handlers of their own.
  have hother : (∀ i ∈ gateRegs, i ≠ Reg.rdh → macregWriteops i ≠ some op) →
      index ∉ gateRegs := fun hregs hmem => hregs index hmem hrdh hop
  cases op with
  | setRxControl =>
      cases h
      exact fun _ => .inr ⟨[_], rfl, by simp⟩
  | setRdt =>
      cases h
      intro hready
      have hcan := (e1000CanReceive_iff hinv).mpr hready
      simp only [setRdt] at hcan ⊢
      split_ifs at hcan ⊢ with hbuf
      · exact .inr ⟨[_], rfl, by simp⟩
      · simp only [e1000CanReceive, Bool.and_eq_true] at hcan
        exact absurd hcan.2 hbuf
  | setTctl =>
      have hframe := startXmit_frame h
      have hpark := startXmit_parked h
      have hkeep : ∀ i ∈ gateRegs, ((w.setReg index val).setReg Reg.tdt
          ((w.setReg index val).reg Reg.tdt &&& 0xffff#32)).reg i = w.reg i := by
        intro i hi
        have htdt : i ≠ Reg.tdt := by
          rintro rfl
          exact absurd hi (by decide)
        have hindex : i ≠ index := by
          rintro rfl
          exact hother (by decide) hi
        rw [World.reg_setReg_of_ne _ _ _ _ htdt, World.reg_setReg_of_ne _ _ _ _ hindex]
      refine .of_eq ?_ ?_ (.trans (.of_eq (hkeep _ (by decide)) (hkeep _ (by decide))) hpark)
      · rw [hframe.reg _ (by decide), hkeep _ (by decide)]
      · rw [hframe.reg _ (by decide), hkeep _ (by decide)]
  | macWritereg =>
      cases h
      intro hready
      refine .inl ?_
      simp only [macWritereg] at hready
      split_ifs at hready <;> exact hready.of_setReg (hother (by decide))
  | setDlen =>
      cases h
      exact fun hready => .inl (hready.of_setReg (hother (by decide)))
  | set16bit =>
      cases h
      exact fun hready => .inl (hready.of_setReg (hother (by decide)))
  | setMdic => cases h; exact fun hready => .inl (setMdic_ready hready)
  | setIcs => cases h; exact fun hready => .inl hready.of_setInterruptCause
  | setImc =>
      cases h
      exact fun hready => .inl (hready.of_setInterruptCause.of_setReg (by decide))
  | setIms =>
      cases h
      exact fun hready => .inl (hready.of_setInterruptCause.of_setReg (by decide))
  | setIcr => cases h; exact fun hready => .inl hready.of_setInterruptCause
  | setEecd => cases h; exact fun hready => .inl (hready.congr fun _ _ => rfl)
  | setCtrl => cases h; exact fun hready => .inl (hready.of_setReg (by decide))

/-! ## Wake-ups that get lost -/

/-- The events after which the device may be able to receive again. -/
def Op.mayOpen : Op → Bool
  | .mmioWrite _ _ => true
  | .linkStatus _ => true
  | .autonegTimer => true
  | _ => false

/-- The link is the only thing that keeps the device from receiving. -/
structure AwaitsLink (s : E1000State) : Prop where
  linkUp : s.linkUp = false
  enabled : test (s.macReg Reg.rctl) rctlEn = true
  buffers : s.macReg Reg.rdh ≠ s.macReg Reg.rdt

/--
The guest moves `RDH` away from `RDT` in a device that waits for nothing else, or
the link comes up in a device that waits for nothing else.
-/
def LostWakeUp (w : World) : Op → Prop
  | .mmioWrite addr val =>
      mmioIndex addr = Reg.rdh ∧ w.dev.linkUp = true ∧
        test (w.reg Reg.rctl) rctlEn = true ∧ w.reg Reg.rdh = w.reg Reg.rdt ∧
        val.setWidth 32 &&& 0xffff#32 ≠ w.reg Reg.rdt
  | .linkStatus down => down = false ∧ AwaitsLink w.dev
  | .autonegTimer => w.dev.linkDown = false ∧ AwaitsLink w.dev
  | _ => False

section Lost

variable {w w' : World}

/-- An event that changes the link alone wakes the device up just when it awaits it. -/
theorem wakes_iff_awaitsLink (up : Bool) (hup : w'.dev.linkUp = (w.dev.linkUp || up))
    (hreg : ∀ i, i ∉ [Reg.status, Reg.icr, Reg.ics] → w'.reg i = w.reg i) :
    (¬ Ready w.dev ∧ Ready w'.dev) ↔ up = true ∧ AwaitsLink w.dev := by
  have hrctl : w'.dev.macReg Reg.rctl = w.dev.macReg Reg.rctl := hreg _ (by decide)
  have hrdh : w'.dev.macReg Reg.rdh = w.dev.macReg Reg.rdh := hreg _ (by decide)
  have hrdt : w'.dev.macReg Reg.rdt = w.dev.macReg Reg.rdt := hreg _ (by decide)
  constructor
  · rintro ⟨hnot, hlink, hen, hbuf⟩
    rw [hrctl] at hen
    rw [hrdh, hrdt] at hbuf
    have hdown : w.dev.linkUp = false := by
      by_contra h
      exact hnot ⟨by simpa using h, hen, hbuf⟩
    rw [hup, hdown, Bool.false_or] at hlink
    exact ⟨hlink, hdown, hen, hbuf⟩
  · rintro ⟨rfl, hdown, hen, hbuf⟩
    refine ⟨fun h => ?_, ⟨by rw [hup, Bool.or_true], by rw [hrctl]; exact hen, ?_⟩⟩
    · rw [h.linkUp] at hdown
      cases hdown
    · rw [hrdh, hrdt]
      exact hbuf

theorem set16bit_rdh_wakes_iff (w : World) (val : U32) :
    (¬ Ready w.dev ∧ Ready (set16bit w Reg.rdh val).dev) ↔
      w.dev.linkUp = true ∧ test (w.reg Reg.rctl) rctlEn = true ∧
        w.reg Reg.rdh = w.reg Reg.rdt ∧ val &&& 0xffff#32 ≠ w.reg Reg.rdt := by
  have hready : Ready (set16bit w Reg.rdh val).dev ↔ w.dev.linkUp = true ∧
      test (w.reg Reg.rctl) rctlEn = true ∧ val &&& 0xffff#32 ≠ w.reg Reg.rdt :=
    ⟨fun h => ⟨h.linkUp, h.enabled, h.buffers⟩, fun h => ⟨h.1, h.2.1, h.2.2⟩⟩
  rw [hready]
  constructor
  · rintro ⟨hnot, hup, hen, hne⟩
    exact ⟨hup, hen, not_not.mp fun hbuf => hnot ⟨hup, hen, hbuf⟩, hne⟩
  · rintro ⟨hup, hen, heq, hne⟩
    exact ⟨fun h => h.buffers heq, hup, hen, hne⟩

end Lost

/--
A step that lets the device receive again flushes the queue, unless it is a write
to `RDH` or the link coming up in a device that waits for nothing else.
-/
theorem wakeUp_flushes_iff {fuel : Nat} {w w' : World} {op : Op} {reply : Reply}
    (hw : Reachable w) (hop : op.mayOpen = true) (h : step fuel w op = .ok (w', reply)) :
    (e1000CanReceive w.dev = false → e1000CanReceive w'.dev = true → Flushes w w') ↔
      ¬ LostWakeUp w op := by
  have hcan := e1000CanReceive_iff hw.regInv
  have hinv' := (hw.step h).regInv
  have hcan' := e1000CanReceive_iff hinv'
  rw [hcan', ← Bool.not_eq_true, hcan]
  -- Where nothing is flushed, the claim fails just in case the device wakes up.
  have hquiet : ¬ Flushes w w' →
      ((¬ Ready w.dev → Ready w'.dev → Flushes w w') ↔ ¬ (¬ Ready w.dev ∧ Ready w'.dev)) :=
    fun hno => ⟨fun himp hwake => hno (himp hwake.1 hwake.2),
      fun hnot hr hr' => absurd ⟨hr, hr'⟩ hnot⟩
  cases op with
  | mmioWrite addr val =>
      obtain ⟨w₁, hwrite, h⟩ := Run.bind_eq_ok.mp h
      cases h
      simp only [LostWakeUp]
      by_cases hindex : mmioIndex addr = Reg.rdh
      · simp only [e1000MmioWrite, hindex,
          show macregWriteops Reg.rdh = some .set16bit from rfl, runWriteOp] at hwrite
        cases hwrite
        rw [hquiet (not_flushes_of_log [] rfl (by simp)), set16bit_rdh_wakes_iff]
        simp only [hindex, true_and]
      · simp only [hindex, false_and, not_false_eq_true, iff_true]
        intro hr hr'
        rw [e1000MmioWrite] at hwrite
        split at hwrite
        · next op hop' =>
            exact (runWriteOp_woken hop' hwrite hindex hinv' hr').resolve_left hr
        · cases hwrite
          exact absurd hr' hr
  | linkStatus down =>
      cases h
      obtain ⟨-, hup, hreg, pins, hpins, hlog⟩ := e1000SetLinkStatus_spec w down
      have hno : Event.flushQueuedPackets ∉ pins := fun hmem => absurd (hpins _ hmem) (by decide)
      rw [hquiet (not_flushes_of_log pins hlog hno)]
      simp only [LostWakeUp]
      cases down with
      | true =>
          refine iff_of_true (fun hwake => ?_) (by simp)
          have := hwake.2.linkUp
          rw [hup] at this
          cases this
      | false =>
          rw [wakes_iff_awaitsLink true (by rw [hup, Bool.or_true]; rfl) hreg]
          simp
  | autonegTimer =>
      cases h
      obtain ⟨-, hup, hreg, hlog⟩ := e1000AutonegTimer_spec w
      rw [hquiet (not_flushes_of_log [] hlog (by simp)), wakes_iff_awaitsLink _ hup
        fun i hi => hreg i (by simp at hi; exact hi.1)]
      simp [LostWakeUp]
  | mmioRead addr => cases hop
  | receive iov => cases hop
  | mitTimer => cases hop
  | preSave => cases hop
  | reset => cases hop
  | guestStore mem => cases hop

theorem wakeUp_flushes_rdt :
    Flushes (rxReady rctlEn 128 0 0 Memory.blank)
      (setRdt (rxReady rctlEn 128 0 0 Memory.blank) Reg.rdt 4) :=
  (wakeUp_flushes_iff (reachable_rxReady rctlEn 128 0 0 Memory.blank)
    (show Op.mayOpen (.mmioWrite 0x2818 4) = true from rfl)
    (show step 0 _ (.mmioWrite 0x2818 4) = .ok (_, .none) from rfl)).mpr
    (fun h => absurd h.1 (by decide)) (by decide) (by decide)

/-- Whether the events since `w` contain a flush. -/
def flushed (w w' : World) : Bool :=
  (w'.log.take (w'.log.length - w.log.length)).contains .flushQueuedPackets

theorem flushed_of_flushes {w w' : World} (h : Flushes w w') : flushed w w' = true := by
  obtain ⟨es, hlog, hmem⟩ := h
  simpa [flushed, hlog] using hmem

/-- The device wakes up in this step and nobody is told. -/
def sleepsOn (w : World) (op : Op) : Bool :=
  match step 0 w op with
  | .ok (w', _) => !e1000CanReceive w.dev && e1000CanReceive w'.dev && !flushed w w'
  | _ => false

theorem not_flushes_of_sleepsOn {w : World} {op : Op} (h : sleepsOn w op = true) :
    ∃ w' reply, step 0 w op = .ok (w', reply) ∧ e1000CanReceive w.dev = false ∧
      e1000CanReceive w'.dev = true ∧ ¬ Flushes w w' := by
  simp only [sleepsOn] at h
  split at h
  · next w' reply hstep =>
      simp only [Bool.and_eq_true, Bool.not_eq_true'] at h
      refine ⟨w', reply, hstep, h.1.1, h.1.2, fun hf => ?_⟩
      rw [flushed_of_flushes hf] at h
      cases h.2
  · cases h

/-- In some reachable state the event makes the device ready without a flush. -/
def LosesWakeUp (op : Op) : Prop :=
  Op.mayOpen op = true ∧ ∃ w w' reply, Reachable w ∧ step 0 w op = .ok (w', reply) ∧
    e1000CanReceive w.dev = false ∧ e1000CanReceive w'.dev = true ∧ ¬ Flushes w w'

theorem losesWakeUp_of_afterSetup {op : Op} (setup : List Op) (hop : Op.mayOpen op = true)
    (hrun : afterSetup 1 false Memory.blank
      ([.mmioWrite 0x2808 128, .mmioWrite 0x100 2] ++ setup) (sleepsOn · op) = .ok true) :
    LosesWakeUp op := by
  obtain ⟨w, hw, hs⟩ := exists_reachable_of_afterSetup hrun
  obtain ⟨w', reply, h⟩ := not_flushes_of_sleepsOn hs
  exact ⟨hop, w, w', reply, hw, h⟩

/-- The guest moves `RDH`, the backend comes up, and a negotiation completes. -/
theorem wakeUp_lost :
    LosesWakeUp (.mmioWrite 0x2810 1) ∧ LosesWakeUp (.linkStatus false) ∧
      LosesWakeUp .autonegTimer := by
  refine ⟨?_, ?_, ?_⟩
  · exact losesWakeUp_of_afterSetup [] rfl (by decide +kernel)
  · exact losesWakeUp_of_afterSetup [.mmioWrite 0x2818 4, .linkStatus true] rfl
      (by decide +kernel)
  · exact losesWakeUp_of_afterSetup [.mmioWrite 0x2818 4, .mmioWrite 0x20 0x04201200] rfl
      (by decide +kernel)

end SE4VM.E1000
