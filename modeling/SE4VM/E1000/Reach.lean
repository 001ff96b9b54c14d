import SE4VM.E1000.Frame

/-!
# Invariants of the reachable device

Most registers change in only two ways: the guest writes them through their own
handler, or the device writes them as part of its work.  A register that
neither touches keeps its reset value for ever, and the buffer size stays the
one that the last write to `RCTL` selected.
-/

namespace SE4VM.E1000

open SE4VM.Foundation

/-! ## What an event leaves alone -/

def devRegs : List Nat := Reg.status :: Reg.tdt :: Reg.ims :: Reg.tdh :: txRegs

/--
Registers the device never writes by itself, and the guest not at all or only
through the two handlers that the receive ring depends on.
-/
def Quiet (i : Nat) : Prop :=
  i ∉ devRegs ∧ (macregWriteops i = none ∨ i = Reg.rctl ∨ i = Reg.rdlen)

instance : DecidablePred Quiet := fun _ => inferInstanceAs (Decidable (_ ∧ _))

theorem Quiet.ne {i j : Nat} (hi : Quiet i) (hj : macregWriteops j ≠ none)
    (hrctl : j ≠ Reg.rctl) (hrdlen : j ≠ Reg.rdlen) : i ≠ j := by
  rintro rfl
  rcases hi.2 with h | h | h
  · exact hj h
  · exact hrctl h
  · exact hrdlen h

structure Keeps (s s' : E1000State) : Prop where
  macReg : ∀ i, Quiet i → s'.macReg i = s.macReg i
  rxbufSize : s'.rxbufSize = s.rxbufSize
  causes : CausesAgree s s'

namespace Keeps

variable {s s' s'' : E1000State} {w w' : World}

theorem refl (s : E1000State) : Keeps s s := ⟨fun _ _ => rfl, rfl, .refl s⟩

theorem trans (h : Keeps s s') (h' : Keeps s' s'') : Keeps s s'' :=
  ⟨fun i hi => (h'.macReg i hi).trans (h.macReg i hi), h'.rxbufSize.trans h.rxbufSize,
    h.causes.trans h'.causes⟩

theorem of_eq (hreg : s'.macReg = s.macReg) (hbuf : s'.rxbufSize = s.rxbufSize) :
    Keeps s s' :=
  ⟨fun i _ => congrFun hreg i, hbuf, .of_eq hreg⟩

theorem of_update {j : Nat} {v : U32} (hj : ∀ i, Quiet i → i ≠ j)
    (hc : j ∉ [Reg.icr, Reg.ics]) (hreg : s'.macReg = Function.update s.macReg j v)
    (hbuf : s'.rxbufSize = s.rxbufSize) : Keeps s s' :=
  ⟨fun i hi => by rw [hreg, Function.update_of_ne (hj i hi)], hbuf, .of_update hc hreg⟩

theorem of_frame {regs : List Nat} {ev : Event → Bool} (h : Frame regs ev w w')
    (hregs : ∀ i ∈ regs, i ∈ devRegs) : Keeps w.dev w'.dev :=
  ⟨fun i hi => h.reg i fun hmem => hi.1 (hregs i hmem), h.rxbufSize, h.causes⟩

end Keeps

theorem Quiet.ne_status (i : Nat) (h : Quiet i) : i ≠ Reg.status := by
  rintro rfl
  exact h.1 (by decide)

theorem setInterruptCause_keeps (w : World) (val : U32) :
    Keeps w.dev (setInterruptCause w val).dev :=
  .of_frame (setInterruptCause_frame w val) (by decide)

theorem setIcs_keeps (w : World) (val : U32) : Keeps w.dev (setIcs w val).dev :=
  setInterruptCause_keeps w _

theorem e1000LinkDown_keeps (s : E1000State) : Keeps s (e1000LinkDown s) :=
  .of_update Quiet.ne_status (by decide) rfl rfl

theorem e1000MitTimer_keeps (w : World) : Keeps w.dev (e1000MitTimer w).dev := by
  have h := setInterruptCause_keeps { w with dev := { w.dev with mitTimerOn := false } }
    (w.reg Reg.icr)
  exact ⟨h.macReg, h.rxbufSize, h.causes⟩

theorem e1000PreSave_keeps (w : World) : Keeps w.dev (e1000PreSave w).dev := by
  have hflush : Keeps w.dev (if w.dev.mitTimerOn then e1000MitTimer w else w).dev := by
    split_ifs
    · exact e1000MitTimer_keeps w
    · exact .refl _
  simp only [e1000PreSave]
  generalize (if w.dev.mitTimerOn then e1000MitTimer w else w) = w₁ at *
  split_ifs
  · exact hflush.trans (.of_eq rfl rfl)
  · exact hflush

theorem e1000SetLinkStatus_keeps (w : World) (down : Bool) :
    Keeps w.dev (e1000SetLinkStatus w down).dev := by
  have hlink : Keeps w.dev (if down then e1000LinkDown { w.dev with linkDown := down }
      else e1000LinkUp { w.dev with linkDown := down }) := by
    cases down <;> exact .of_update Quiet.ne_status (by decide) rfl rfl
  simp only [e1000SetLinkStatus]
  generalize (if down then e1000LinkDown { w.dev with linkDown := down }
      else e1000LinkUp { w.dev with linkDown := down }) = d at *
  split_ifs
  · exact hlink.trans (setIcs_keeps { w with dev := d } _)
  · exact hlink

theorem e1000AutonegTimer_keeps (w : World) : Keeps w.dev (e1000AutonegTimer w).dev := by
  simp only [e1000AutonegTimer]
  split_ifs
  · exact .of_eq rfl rfl
  · exact .of_update Quiet.ne_status (by decide) rfl rfl

theorem setPhyCtrl_keeps (w : World) (val : U16) : Keeps w.dev (setPhyCtrl w val).dev := by
  simp only [setPhyCtrl]
  split_ifs
  · exact (e1000LinkDown_keeps w.dev).trans (.of_eq rfl rfl)
  · exact .refl _

theorem Quiet.ne_mdic (i : Nat) (h : Quiet i) : i ≠ Reg.mdic :=
  h.ne (by decide) (by decide) (by decide)

theorem mdicCommand_keeps (w : World) (val : U32) :
    Keeps w.dev (mdicCommand w val).2.dev := by
  simp only [mdicCommand]
  split_ifs
  all_goals
    first
    | exact .refl _
    | exact .of_eq rfl rfl
    | exact (setPhyCtrl_keeps w _).trans (.of_eq rfl rfl)

theorem setMdic_keeps (w : World) (val : U32) : Keeps w.dev (setMdic w val).dev := by
  have hmdic : Keeps w.dev ((mdicCommand w val).2.setReg Reg.mdic
      ((mdicCommand w val).1 ||| mdicReady)).dev :=
    (mdicCommand_keeps w val).trans (.of_update Quiet.ne_mdic (by decide) rfl rfl)
  simp only [setMdic]
  split_ifs
  · exact hmdic.trans (setIcs_keeps _ _)
  · exact hmdic

theorem setEecd_keeps (s : E1000State) (val : U32) : Keeps s (setEecd s val) :=
  .of_eq rfl rfl

theorem startXmit_keeps {fuel : Nat} {w w' : World} (h : startXmit fuel w = .ok w') :
    Keeps w.dev w'.dev :=
  .of_frame (startXmit_frame h) (by decide)

theorem e1000ReceiveIov_keeps {fuel : Nat} {w : World} {iov : Iov} {r : Received}
    (h : e1000ReceiveIov fuel w iov = .ok r) : Keeps w.dev r.world.dev :=
  .of_frame (e1000ReceiveIov_frame h).1 (by decide)

/-! ## Reads and writes of registers -/

theorem Quiet.ne_dev {i j : Nat} (hi : Quiet i) (hj : j ∈ devRegs) : i ≠ j := by
  rintro rfl
  exact hi.1 hj

theorem runReadOp_keeps {op : ReadOp} (w : World) {index : Nat}
    (hop : macregReadops index = some op) : Keeps w.dev (runReadOp op w index).1.dev := by
  cases op with
  | macReadreg => exact .refl _
  | macReadClr4 =>
      have hmem := (by decide : ∀ i ∈ [Reg.gprc, Reg.gptc, Reg.tpr, Reg.tpt],
        i ∈ devRegs ∧ i ∉ [Reg.icr, Reg.ics]) _ (mem_of_macReadClr4 hop)
      exact .of_update (fun i hi => hi.ne_dev hmem.1) hmem.2 rfl rfl
  | macReadClr8 =>
      have hmem : ∀ i ∈ [index, index - 1], i ∈ devRegs ∧ i ∉ [Reg.icr, Reg.ics] := by
        rcases eq_of_macReadClr8 hop with rfl | rfl <;> decide
      have hset : ∀ (w : World), ∀ i ∈ [index, index - 1], Keeps w.dev (w.setReg i 0).dev :=
        fun w i hi => .of_update (fun j hj => hj.ne_dev (hmem i hi).1) (hmem i hi).2 rfl rfl
      exact (hset w index (by simp)).trans (hset _ (index - 1) (by simp))
  | macIcrRead => exact setInterruptCause_keeps w 0
  | getEecd => exact .refl _
  | flashEerdRead => exact .refl _

theorem e1000MmioRead_keeps (w : World) (addr : U64) :
    Keeps w.dev (e1000MmioRead w addr).1.dev := by
  rw [e1000MmioRead]
  split
  · next op hop => exact runReadOp_keeps w hop
  · exact .refl _

/-- Only two handlers write what the receive ring depends on. -/
inductive WriteEffect (w w' : World) : Prop
  | keeps : Keeps w.dev w'.dev → WriteEffect w w'
  | rxControl (val : U32) : w' = setRxControl w val → WriteEffect w w'
  | rdlen (val : U32) : w' = setDlen w Reg.rdlen val → WriteEffect w w'

theorem macWritereg_keeps (w : World) {index : Nat} (val : U32)
    (hne : ∀ i, Quiet i → i ≠ index) (hc : index ∉ [Reg.icr, Reg.ics]) :
    Keeps w.dev (macWritereg w index val).dev := by
  simp only [macWritereg]
  split_ifs <;> exact .of_update hne hc rfl rfl

theorem setRdt_keeps (w : World) {index : Nat} (val : U32)
    (hne : ∀ i, Quiet i → i ≠ index) (hc : index ∉ [Reg.icr, Reg.ics]) :
    Keeps w.dev (setRdt w index val).dev := by
  simp only [setRdt]
  split_ifs <;> exact .of_update hne hc rfl rfl

theorem setTctl_keeps {fuel : Nat} {w w' : World} {index : Nat} {val : U32}
    (hne : ∀ i, Quiet i → i ≠ index) (hc : index ∉ [Reg.icr, Reg.ics])
    (h : setTctl fuel w index val = .ok w') : Keeps w.dev w'.dev := by
  have hindex : Keeps w.dev (w.setReg index val).dev := .of_update hne hc rfl rfl
  refine (hindex.trans ?_).trans (startXmit_keeps h)
  exact .of_update (fun i hi => hi.ne_dev (by decide)) (by decide) rfl rfl

theorem setMask_keeps (w : World) (val mask : U32) :
    Keeps w.dev (setIcs (w.setReg Reg.ims mask) val).dev := by
  have hims : Keeps w.dev (w.setReg Reg.ims mask).dev :=
    .of_update (fun _ hi => hi.ne_dev (by decide)) (by decide) rfl rfl
  exact hims.trans (setIcs_keeps _ val)

theorem runWriteOp_effect {fuel : Nat} {op : WriteOp} {w w' : World} {index : Nat}
    {val : U32} (hop : macregWriteops index = some op)
    (h : runWriteOp fuel op w index val = .ok w') : WriteEffect w w' := by
  by_cases hctl : op = .setRxControl
  · subst hctl
    exact .rxControl val (Run.ok.inj h).symm
  have hrctl : index ≠ Reg.rctl := by
    rintro rfl
    exact hctl (Option.some.inj hop).symm
  by_cases hrdlen : index = Reg.rdlen
  · obtain rfl : op = .setDlen := by
      rw [hrdlen] at hop
      exact (Option.some.inj hop).symm
    exact .rdlen val (by rw [← hrdlen]; exact (Run.ok.inj h).symm)
  have hne : ∀ i, Quiet i → i ≠ index := fun i hi => hi.ne (by simp [hop]) hrctl hrdlen
  have hcause : (∀ i ∈ [Reg.icr, Reg.ics], macregWriteops i ≠ some op) →
      index ∉ [Reg.icr, Reg.ics] := notMem_of_macregWriteops hop
  refine .keeps ?_
  cases op with
  | setTctl => exact setTctl_keeps hne (hcause (by decide)) h
  | macWritereg => cases h; exact macWritereg_keeps w val hne (hcause (by decide))
  | setDlen => cases h; exact .of_update hne (hcause (by decide)) rfl rfl
  | setMdic => cases h; exact setMdic_keeps w val
  | setIcs => cases h; exact setIcs_keeps w val
  | set16bit => cases h; exact .of_update hne (hcause (by decide)) rfl rfl
  | setRdt => cases h; exact setRdt_keeps w val hne (hcause (by decide))
  | setImc => cases h; exact setMask_keeps w 0 _
  | setIms => cases h; exact setMask_keeps w 0 _
  | setIcr => cases h; exact setInterruptCause_keeps w _
  | setEecd => cases h; exact setEecd_keeps w.dev val
  | setRxControl => exact absurd rfl hctl
  | setCtrl =>
      cases h
      exact .of_update (fun i hi => hi.ne (by decide) (by decide) (by decide)) (by decide)
        rfl rfl

/-! ## Invariants -/

theorem step_effect {fuel : Nat} {w w' : World} {op : Op} {reply : Reply}
    (h : step fuel w op = .ok (w', reply)) : WriteEffect w w' ∨ w' = e1000Reset w := by
  cases op with
  | mmioRead addr =>
      cases h
      exact .inl (.keeps (e1000MmioRead_keeps w addr))
  | mmioWrite addr val =>
      obtain ⟨w₁, hw, h⟩ := Run.bind_eq_ok.mp h
      cases h
      rw [e1000MmioWrite] at hw
      split at hw
      · next op hop => exact .inl (runWriteOp_effect hop hw)
      · cases hw
        exact .inl (.keeps (.refl _))
  | receive iov =>
      obtain ⟨r, hr, h⟩ := Run.bind_eq_ok.mp h
      cases h
      exact .inl (.keeps (e1000ReceiveIov_keeps hr))
  | linkStatus down =>
      cases h
      exact .inl (.keeps (e1000SetLinkStatus_keeps w down))
  | autonegTimer =>
      cases h
      exact .inl (.keeps (e1000AutonegTimer_keeps w))
  | mitTimer =>
      cases h
      exact .inl (.keeps (e1000MitTimer_keeps w))
  | preSave =>
      cases h
      exact .inl (.keeps (e1000PreSave_keeps w))
  | reset =>
      cases h
      exact .inr rfl
  | guestStore mem =>
      cases h
      exact .inl (.keeps (.refl _))

def Idle (i : Nat) : Prop := i ∉ devRegs ∧ macregWriteops i = none

instance : DecidablePred Idle := fun _ => inferInstanceAs (Decidable (_ ∧ _))

structure RegInv (s : E1000State) : Prop where
  /-- While reception is enabled the buffer size is the one `RCTL` encodes. -/
  rxbufSize : test (s.macReg Reg.rctl) rctlEn = true →
    s.rxbufSize = BitVec.ofNat 32 (rxbufsize (s.macReg Reg.rctl))
  rdlen : s.macReg Reg.rdlen &&& 0xfff80#32 = s.macReg Reg.rdlen
  idle : ∀ i, Idle i → s.macReg i = macRegInit i
  causes : s.macReg Reg.ics = s.macReg Reg.icr

theorem RegInv.of_keeps {s s' : E1000State} (h : Keeps s s') (hs : RegInv s) : RegInv s' := by
  have hrctl := h.macReg Reg.rctl (by decide)
  have hrdlen := h.macReg Reg.rdlen (by decide)
  refine ⟨?_, ?_, fun i hi => ?_, ?_⟩
  · rw [hrctl, h.rxbufSize]
    exact hs.rxbufSize
  · rw [hrdlen]
    exact hs.rdlen
  · rw [h.macReg i ⟨hi.1, .inl hi.2⟩]
    exact hs.idle i hi
  · rcases h.causes with ⟨hicr, hics⟩ | hagree
    · rw [hics, hicr]
      exact hs.causes
    · exact hagree

theorem e1000Reset_macReg (w : World) {i : Nat} (hra : i ≠ Reg.ra) (hra' : i ≠ Reg.ra + 1)
    (hst : i ≠ Reg.status) : (e1000Reset w).dev.macReg i = macRegInit i := by
  simp only [e1000Reset, World.dev_emit, World.dev_setReg, Function.update_of_ne hra',
    Function.update_of_ne hra]
  split_ifs
  · simp only [e1000LinkDown, Function.update_of_ne hst]
  · rfl

theorem e1000Reset_rxbufSize (w : World) :
    (e1000Reset w).dev.rxbufSize = w.dev.rxbufSize := by
  simp only [e1000Reset, World.dev_emit, World.dev_setReg]
  split_ifs <;> rfl

theorem e1000Reset_regInv (w : World) : RegInv (e1000Reset w).dev := by
  have hrctl := e1000Reset_macReg w (i := Reg.rctl) (by decide) (by decide) (by decide)
  have hrdlen := e1000Reset_macReg w (i := Reg.rdlen) (by decide) (by decide) (by decide)
  have hicr := e1000Reset_macReg w (i := Reg.icr) (by decide) (by decide) (by decide)
  have hics := e1000Reset_macReg w (i := Reg.ics) (by decide) (by decide) (by decide)
  refine ⟨?_, ?_, fun i hi => e1000Reset_macReg w ?_ ?_ ?_, by rw [hics, hicr]; rfl⟩
  · rw [hrctl]
    exact fun h => absurd h (by decide)
  · rw [hrdlen]
    rfl
  · rintro rfl
    exact absurd hi (by decide)
  · rintro rfl
    exact absurd hi (by decide)
  · rintro rfl
    exact absurd hi (by decide)

theorem Idle.ne {i j : Nat} (h : Idle i) (hj : macregWriteops j ≠ none) : i ≠ j := by
  rintro rfl
  exact hj h.2

theorem setRxControl_regInv {w : World} (val : U32) (h : RegInv w.dev) :
    RegInv (setRxControl w val).dev := by
  refine ⟨fun _ => ?_, ?_, fun i hi => ?_, h.causes⟩
  · simp only [setRxControl, World.dev_emit, World.dev_setReg, Function.update_self]
  · have hne : Reg.rdlen ≠ Reg.rctl := by decide
    simpa only [setRxControl, World.dev_emit, World.dev_setReg, Function.update_of_ne hne]
      using h.rdlen
  · have hne : i ≠ Reg.rctl := hi.ne (by decide)
    simpa only [setRxControl, World.dev_emit, World.dev_setReg, Function.update_of_ne hne]
      using h.idle i hi

theorem setDlen_regInv {w : World} (val : U32) (h : RegInv w.dev) :
    RegInv (setDlen w Reg.rdlen val).dev := by
  have hne : Reg.rctl ≠ Reg.rdlen := by decide
  refine ⟨?_, ?_, fun i hi => ?_, h.causes⟩
  · simpa only [setDlen, World.dev_setReg, Function.update_of_ne hne] using h.rxbufSize
  · simp only [setDlen, World.dev_setReg, Function.update_self, BitVec.and_assoc,
      BitVec.and_self]
  · have hne : i ≠ Reg.rdlen := hi.ne (by decide)
    simpa only [setDlen, World.dev_setReg, Function.update_of_ne hne] using h.idle i hi

theorem SinceReset.regInv {w : World} (h : SinceReset w) : RegInv w.dev := by
  refine SinceReset.invariant (fun w => RegInv w.dev) e1000Reset_regInv ?_ h
  intro fuel w op w' reply hinv hs
  rcases step_effect hs with (hk | ⟨val, rfl⟩ | ⟨val, rfl⟩) | rfl
  · exact .of_keeps hk hinv
  · exact setRxControl_regInv val hinv
  · exact setDlen_regInv val hinv
  · exact e1000Reset_regInv w

theorem Reachable.regInv {w : World} (h : Reachable w) : RegInv w.dev := h.sinceReset.regInv

theorem le_rxbufsize (v : U32) : 256 ≤ rxbufsize v := by
  simp only [rxbufsize]
  split_ifs <;> decide

theorem rxbufsize_pos (v : U32) : 0 < rxbufsize v :=
  (by decide : 0 < 256).trans_le (le_rxbufsize v)

theorem rxbufsize_le (v : U32) : rxbufsize v ≤ 16384 := by
  simp only [rxbufsize]
  split_ifs <;> decide

theorem RegInv.toNat_rxbufSize {s : E1000State} (h : RegInv s)
    (hen : test (s.macReg Reg.rctl) rctlEn = true) :
    s.rxbufSize.toNat = rxbufsize (s.macReg Reg.rctl) := by
  have hle := rxbufsize_le (s.macReg Reg.rctl)
  rw [h.rxbufSize hen, BitVec.toNat_ofNat, Nat.mod_eq_of_lt (by omega)]

theorem RegInv.rxbufSize_le {s : E1000State} (h : RegInv s)
    (hen : test (s.macReg Reg.rctl) rctlEn = true) : s.rxbufSize.toNat ≤ 16384 := by
  rw [h.toNat_rxbufSize hen]
  exact rxbufsize_le _

/-- A reset keeps the buffer size, so it is bounded also while reception is off. -/
theorem Reachable.rxbufSize_le {w : World} (h : Reachable w) :
    w.dev.rxbufSize.toNat ≤ 16384 := by
  refine Reachable.invariant (fun w => w.dev.rxbufSize.toNat ≤ 16384) ?_ ?_ h
  · intro macaddr flags down mem
    rw [E1000.powerOn, e1000Reset_rxbufSize]
    exact Nat.zero_le _
  · intro fuel w op w' reply hw hs
    rcases step_effect hs with (hk | ⟨val, rfl⟩ | ⟨val, rfl⟩) | rfl
    · rw [hk.rxbufSize]
      exact hw
    · refine le_trans (le_of_eq ?_) (rxbufsize_le val)
      have hle := rxbufsize_le val
      exact Nat.mod_eq_of_lt (by omega)
    · exact hw
    · rw [e1000Reset_rxbufSize]
      exact hw

theorem toNat_and_dlenMask_mod (v : U32) : (v &&& 0xfff80#32).toNat % descBytes = 0 := by
  have hlow : (v &&& 0xfff80#32) &&& 0xf#32 = 0#32 := by
    rw [BitVec.and_assoc]
    exact BitVec.and_zero
  have hmod := congrArg BitVec.toNat hlow
  rw [BitVec.toNat_and, BitVec.toNat_ofNat, BitVec.toNat_ofNat] at hmod
  exact (Nat.and_two_pow_sub_one_eq_mod _ 4).symm.trans hmod

theorem RegInv.rdlen_bounds {s : E1000State} (h : RegInv s) :
    (s.macReg Reg.rdlen).toNat % descBytes = 0 ∧
      (s.macReg Reg.rdlen).toNat ≤ 0xfff80 := by
  have hle : ∀ v : U32, (v &&& 0xfff80#32).toNat ≤ 0xfff80 := by
    intro v
    rw [BitVec.toNat_and]
    exact Nat.and_le_right
  rw [← h.rdlen]
  exact ⟨toNat_and_dlenMask_mod _, hle _⟩

/-! ## Registers that only the guest writes -/

/-- What is written by the device, or by a handler that does not look at the index. -/
def ownRegs : List Nat := Reg.mdic :: Reg.rctl :: Reg.ctrl :: devRegs

theorem not_mem_devRegs {i : Nat} (hi : i ∉ ownRegs) : i ∉ devRegs := fun hmem =>
  hi (List.mem_cons_of_mem _ (List.mem_cons_of_mem _ (List.mem_cons_of_mem _ hmem)))

theorem setReg_own {i j : Nat} (w : World) (v : U32) (hi : i ∉ ownRegs) (hj : j ∈ ownRegs) :
    (w.setReg j v).reg i = w.reg i := by
  refine World.reg_setReg_of_ne w j i v ?_
  rintro rfl
  exact hi hj

theorem Frame.reg_own {regs : List Nat} {ev : Event → Bool} {w w' : World} {i : Nat}
    (h : Frame regs ev w w') (hi : i ∉ ownRegs) (hregs : ∀ j ∈ regs, j ∈ devRegs) :
    w'.reg i = w.reg i :=
  h.reg i fun hmem => not_mem_devRegs hi (hregs i hmem)

/-- The part of them that is written outside reception and transmission. -/
def handlerRegs : List Nat :=
  [Reg.mdic, Reg.rctl, Reg.ctrl, Reg.status, Reg.ims, Reg.icr, Reg.ics]

theorem not_mem_handlerRegs {i : Nat} (hi : i ∉ ownRegs) : i ∉ handlerRegs := fun hmem =>
  hi ((by decide : ∀ j ∈ handlerRegs, j ∈ ownRegs) i hmem)

section Handlers

variable {i : Nat} (hi : i ∉ handlerRegs)
include hi

theorem setReg_handler (w : World) {j : Nat} (v : U32) (hj : j ∈ handlerRegs) :
    (w.setReg j v).reg i = w.reg i := by
  refine World.reg_setReg_of_ne w j i v ?_
  rintro rfl
  exact hi hj

theorem ne_status_of_not_mem_handlerRegs : i ≠ Reg.status := by
  rintro rfl
  exact hi (by decide)

theorem setInterruptCause_handler (w : World) (v : U32) :
    (setInterruptCause w v).reg i = w.reg i :=
  (setInterruptCause_frame w v).reg i fun hmem =>
    hi ((by decide : ∀ j ∈ [Reg.icr, Reg.ics], j ∈ handlerRegs) i hmem)

theorem runWriteOp_reg {fuel : Nat} {op : WriteOp} {w w' : World} {index : Nat} {val : U32}
    (htx : op = .setTctl → i ∉ Reg.tdt :: Reg.tdh :: txRegs) (hne : i ≠ index)
    (h : runWriteOp fuel op w index val = .ok w') : w'.reg i = w.reg i := by
  have hset : ∀ v, (w.setReg index v).reg i = w.reg i := fun v =>
    World.reg_setReg_of_ne w index i v hne
  have hcause := setInterruptCause_handler hi
  cases op with
  | macWritereg =>
      cases h
      simp only [macWritereg]
      split_ifs <;> exact hset _
  | setDlen => cases h; exact hset _
  | setTctl =>
      have hout := htx rfl
      rw [(startXmit_frame h).reg i (List.not_mem_of_not_mem_cons hout),
        World.reg_setReg_of_ne _ _ _ _ (List.ne_of_not_mem_cons hout), hset]
  | setMdic =>
      cases h
      have hcommand : (mdicCommand w val).2.reg i = w.reg i := by
        have hstatus := ne_status_of_not_mem_handlerRegs hi
        simp only [mdicCommand, setPhyCtrl]
        split_ifs <;> first | rfl | exact Function.update_of_ne hstatus _ _
      simp only [setMdic]
      split_ifs
      · rw [setIcs, hcause, setReg_handler hi _ _ (by decide), hcommand]
      · rw [setReg_handler hi _ _ (by decide), hcommand]
  | setIcs => cases h; exact hcause _ _
  | set16bit => cases h; exact hset _
  | setRdt =>
      cases h
      simp only [setRdt]
      split_ifs <;> exact hset _
  | setImc => cases h; exact (hcause _ _).trans (setReg_handler hi _ _ (by decide))
  | setIms => cases h; exact (hcause _ _).trans (setReg_handler hi _ _ (by decide))
  | setIcr => cases h; exact hcause _ _
  | setEecd => cases h; rfl
  | setRxControl => cases h; exact setReg_handler hi w _ (by decide)
  | setCtrl => cases h; exact setReg_handler hi w _ (by decide)

theorem e1000SetLinkStatus_reg (w : World) (down : Bool) :
    (e1000SetLinkStatus w down).reg i = w.reg i := by
  have hstatus := ne_status_of_not_mem_handlerRegs hi
  have hcause := setInterruptCause_handler hi
  simp only [e1000SetLinkStatus]
  split_ifs
  · exact (hcause _ _).trans (Function.update_of_ne hstatus _ _)
  · exact Function.update_of_ne hstatus _ _
  · exact (hcause _ _).trans (Function.update_of_ne hstatus _ _)
  · exact Function.update_of_ne hstatus _ _

theorem e1000AutonegTimer_reg (w : World) : (e1000AutonegTimer w).reg i = w.reg i := by
  simp only [e1000AutonegTimer]
  split_ifs
  · rfl
  · exact Function.update_of_ne (ne_status_of_not_mem_handlerRegs hi) _ _

theorem e1000PreSave_reg (w : World) : (e1000PreSave w).reg i = w.reg i := by
  simp only [e1000PreSave]
  split_ifs <;> first | rfl | exact setInterruptCause_handler hi _ _

end Handlers

theorem runReadOp_reg {op : ReadOp} (w : World) {index i : Nat} (hi : i ∉ ownRegs)
    (hop : macregReadops index = some op) : (runReadOp op w index).1.reg i = w.reg i := by
  cases op with
  | macReadreg => rfl
  | macReadClr4 =>
      refine setReg_own w 0 hi ?_
      exact (by decide : ∀ i ∈ [Reg.gprc, Reg.gptc, Reg.tpr, Reg.tpt], i ∈ ownRegs) _
        (mem_of_macReadClr4 hop)
  | macReadClr8 =>
      have hmem : ∀ j ∈ [index, index - 1], j ∈ ownRegs := by
        rcases eq_of_macReadClr8 hop with rfl | rfl <;> decide
      exact (setReg_own _ 0 hi (hmem _ (by simp))).trans (setReg_own w 0 hi (hmem _ (by simp)))
  | macIcrRead => exact (setInterruptCause_frame w 0).reg_own hi (by decide)
  | getEecd => rfl
  | flashEerdRead => rfl

/-- Such a register changes by a guest write that names it, or by a reset. -/
theorem step_reg {fuel : Nat} {w w' : World} {op : Op} {reply : Reply} {i : Nat}
    (hi : i ∉ ownRegs) (h : step fuel w op = .ok (w', reply)) :
    w'.reg i = w.reg i ∨ w' = e1000Reset w ∨
      ∃ addr val, op = .mmioWrite addr val ∧ mmioIndex addr = i := by
  have hhandler := not_mem_handlerRegs hi
  cases op with
  | mmioRead addr =>
      have hread : (e1000MmioRead w addr).1.reg i = w.reg i := by
        rw [e1000MmioRead]
        split
        · next op hop => exact runReadOp_reg w hi hop
        · rfl
      cases h
      exact .inl hread
  | mmioWrite addr val =>
      by_cases hindex : mmioIndex addr = i
      · exact .inr (.inr ⟨addr, val, rfl, hindex⟩)
      · obtain ⟨w₁, hw, h⟩ := Run.bind_eq_ok.mp h
        cases h
        have htx : i ∉ Reg.tdt :: Reg.tdh :: txRegs := fun hmem =>
          hi ((by decide : ∀ j ∈ Reg.tdt :: Reg.tdh :: txRegs, j ∈ ownRegs) i hmem)
        left
        rw [e1000MmioWrite] at hw
        split at hw
        · exact runWriteOp_reg hhandler (fun _ => htx) (Ne.symm hindex) hw
        · cases hw
          rfl
  | receive iov =>
      obtain ⟨r, hr, h⟩ := Run.bind_eq_ok.mp h
      cases h
      exact .inl ((e1000ReceiveIov_frame hr).1.reg_own hi (by decide))
  | linkStatus down => cases h; exact .inl (e1000SetLinkStatus_reg hhandler w down)
  | autonegTimer => cases h; exact .inl (e1000AutonegTimer_reg hhandler w)
  | mitTimer => cases h; exact .inl (setInterruptCause_handler hhandler _ _)
  | preSave => cases h; exact .inl (e1000PreSave_reg hhandler w)
  | reset => cases h; exact .inr (.inl rfl)
  | guestStore mem => cases h; exact .inl rfl

/-! ## Programming the receive ring -/

def rxReady (rctl rdlen rdh rdt : U32) (mem : Memory) : World :=
  setRdt (set16bit (setDlen (setRxControl (powerOn (fun _ => 0) 0 false mem) rctl)
    Reg.rdlen rdlen) Reg.rdh rdh) Reg.rdt rdt

theorem Reachable.mmioWrite {w w' : World} (h : Reachable w) (addr : U64) (op : WriteOp)
    (val : U32) (hop : macregWriteops (mmioIndex addr) = some op)
    (hrun : ∀ fuel, runWriteOp fuel op w (mmioIndex addr) val = .ok w') : Reachable w' := by
  have hwidth : (val.setWidth 64).setWidth 32 = val := by simp
  have hstep : E1000.step 0 w (.mmioWrite addr (val.setWidth 64)) = .ok (w', .none) := by
    rw [E1000.step, e1000MmioWrite, hop, hwidth]
    dsimp only
    rw [hrun 0]
    rfl
  exact .step h hstep

theorem reachable_rxReady (rctl rdlen rdh rdt : U32) (mem : Memory) :
    Reachable (rxReady rctl rdlen rdh rdt mem) := by
  refine .mmioWrite ?_ 0x2818#64 .setRdt rdt rfl fun _ => rfl
  refine .mmioWrite ?_ 0x2810#64 .set16bit rdh rfl fun _ => rfl
  refine .mmioWrite ?_ 0x2808#64 .setDlen rdlen rfl fun _ => rfl
  refine .mmioWrite ?_ 0x100#64 .setRxControl rctl rfl fun _ => rfl
  exact .powerOn _ _ _ _

end SE4VM.E1000
