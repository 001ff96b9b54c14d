import SE4VM.E1000.Link
import SE4VM.E1000.Reach

/-!
# The two copies of the link bit

`STATUS.LU` and the link bit of `PHY_STATUS` are set and cleared together.  No
other bit of the two registers ever moves, except for the negotiation bit, and
the guest reaches only those registers of the PHY that it may write.
-/

namespace SE4VM.E1000

open SE4VM.Foundation

/-! ## The invariant -/

def phyLinkBits : U16 := miiSrLinkStatus ||| miiSrAutonegComplete

structure PhyInv (s : E1000State) : Prop where
  link : test (s.phyReg Phy.status) miiSrLinkStatus = s.linkUp
  status : s.macReg Reg.status &&& ~~~statusLu = macRegInit Reg.status &&& ~~~statusLu
  phyStatus : s.phyReg Phy.status &&& ~~~phyLinkBits = phyRegInit Phy.status &&& ~~~phyLinkBits
  readOnly : ∀ i, phyRegcap i ≠ .readWrite → i ≠ Phy.status → s.phyReg i = phyRegInit i

namespace PhyInv

variable {s s' : E1000State} {w w' : World}

theorem of_eq (h : PhyInv s) (hphy : s'.phyReg = s.phyReg)
    (hst : s'.macReg Reg.status = s.macReg Reg.status) : PhyInv s' := by
  refine ⟨?_, ?_, ?_, ?_⟩
  · rw [hphy, E1000State.linkUp, hst]
    exact h.link
  · rw [hst]
    exact h.status
  · rw [hphy]
    exact h.phyStatus
  · rw [hphy]
    exact h.readOnly

theorem of_frame (h : PhyInv w.dev) {regs : List Nat} {ev : Event → Bool}
    (hf : Frame regs ev w w') (hst : Reg.status ∉ regs) : PhyInv w'.dev :=
  h.of_eq (congrArg Rest.phyReg hf.rest) (hf.reg _ hst)

theorem setReg (h : PhyInv w.dev) {i : Nat} (hi : i ≠ Reg.status) (v : U32) :
    PhyInv (w.setReg i v).dev :=
  h.of_eq rfl (Function.update_of_ne (Ne.symm hi) _ _)

theorem e1000LinkDown (h : PhyInv s) : PhyInv (E1000.e1000LinkDown s) := by
  refine ⟨?_, ?_, ?_, fun i hi hne => ?_⟩
  · rw [linkUp_e1000LinkDown]
    simp only [E1000.e1000LinkDown, Function.update_self]
    exact test_and_not _ _
  · simp only [E1000.e1000LinkDown, Function.update_self]
    rw [and_and_of_subset _ (by decide)]
    exact h.status
  · simp only [E1000.e1000LinkDown, Function.update_self]
    rw [and_and_of_subset _ (by decide)]
    exact h.phyStatus
  · simp only [E1000.e1000LinkDown, Function.update_of_ne hne]
    exact h.readOnly i hi hne

theorem e1000LinkUp (h : PhyInv s) : PhyInv (E1000.e1000LinkUp s) := by
  refine ⟨?_, ?_, ?_, fun i hi hne => ?_⟩
  · rw [linkUp_e1000LinkUp]
    simp only [E1000.e1000LinkUp, Function.update_self]
    exact test_or_self _ (by decide)
  · simp only [E1000.e1000LinkUp, Function.update_self]
    rw [or_and_of_disjoint _ (by decide)]
    exact h.status
  · simp only [E1000.e1000LinkUp, Function.update_self]
    rw [or_and_of_disjoint _ (by decide)]
    exact h.phyStatus
  · simp only [E1000.e1000LinkUp, Function.update_of_ne hne]
    exact h.readOnly i hi hne

/-- The negotiation bit may go either way. -/
theorem setPhyStatus (h : PhyInv s) {v : U16}
    (hlink : v &&& miiSrLinkStatus = s.phyReg Phy.status &&& miiSrLinkStatus)
    (hrest : v &&& ~~~phyLinkBits = s.phyReg Phy.status &&& ~~~phyLinkBits)
    (hphy : s'.phyReg = Function.update s.phyReg Phy.status v)
    (hst : s'.macReg Reg.status = s.macReg Reg.status) : PhyInv s' := by
  refine ⟨?_, ?_, ?_, fun i hi hne => ?_⟩
  · rw [hphy, Function.update_self, E1000State.linkUp, hst, test, hlink]
    exact h.link
  · rw [hst]
    exact h.status
  · rw [hphy, Function.update_self, hrest]
    exact h.phyStatus
  · rw [hphy, Function.update_of_ne hne]
    exact h.readOnly i hi hne

theorem setPhy (h : PhyInv s) {addr : Nat} {v : U16} (haddr : phyRegcap addr = .readWrite)
    (hphy : s'.phyReg = Function.update s.phyReg addr v)
    (hst : s'.macReg Reg.status = s.macReg Reg.status) : PhyInv s' := by
  have hne : Phy.status ≠ addr := by
    rintro rfl
    cases haddr
  refine ⟨?_, ?_, ?_, fun i hi hi' => ?_⟩
  · rw [hphy, Function.update_of_ne hne, E1000State.linkUp, hst]
    exact h.link
  · rw [hst]
    exact h.status
  · rw [hphy, Function.update_of_ne hne]
    exact h.phyStatus
  · have hi'' : i ≠ addr := by
      rintro rfl
      exact hi haddr
    rw [hphy, Function.update_of_ne hi'']
    exact h.readOnly i hi hi'

end PhyInv

theorem e1000Reset_phyInv (w : World) : PhyInv (e1000Reset w).dev := by
  have hra : Reg.status ≠ Reg.ra := by decide
  have hra' : Reg.status ≠ Reg.ra + 1 := by decide
  have hinit : ∀ d : E1000State, d.phyReg = phyRegInit → d.macReg = macRegInit → PhyInv d := by
    intro d hphy hreg
    refine ⟨?_, by rw [hreg], by rw [hphy], fun i _ _ => by rw [hphy]⟩
    rw [hphy, E1000State.linkUp, hreg]
    decide
  have hdev : ∀ d : E1000State, d.phyReg = phyRegInit → d.macReg = macRegInit →
      PhyInv (if d.linkDown then e1000LinkDown d else d) := by
    intro d hphy hreg
    split_ifs
    · exact (hinit d hphy hreg).e1000LinkDown
    · exact hinit d hphy hreg
  refine PhyInv.of_eq (hdev { w.dev with
    autonegTimer := false, mitTimerOn := false, mitIrqLevel := false, mitIde := 0,
    phyReg := phyRegInit, macReg := macRegInit, rxbufMinShift := 1, tx := E1000Tx.zero }
    rfl rfl) rfl ?_
  simp only [e1000Reset, World.dev_emit, World.dev_setReg, Function.update_of_ne hra,
    Function.update_of_ne hra']

/-! ## What each event keeps -/

theorem setInterruptCause_phyInv {w : World} (h : PhyInv w.dev) (val : U32) :
    PhyInv (setInterruptCause w val).dev :=
  h.of_frame (setInterruptCause_frame w val) (by decide)

theorem setIcs_phyInv {w : World} (h : PhyInv w.dev) (val : U32) : PhyInv (setIcs w val).dev :=
  setInterruptCause_phyInv h _

theorem setPhyCtrl_phyInv {w : World} (h : PhyInv w.dev) (val : U16) :
    PhyInv (setPhyCtrl w val).dev := by
  simp only [setPhyCtrl]
  split_ifs
  · exact h.e1000LinkDown.setPhyStatus (and_and_of_subset _ (by decide))
      (and_and_of_subset _ (by decide)) rfl rfl
  · exact h

theorem mdicCommand_phyInv {w : World} (h : PhyInv w.dev) (val : U32) :
    PhyInv (mdicCommand w val).2.dev := by
  simp only [mdicCommand]
  split_ifs with _ _ _ _ hcap
  · exact h
  · exact h
  · exact h
  · exact (setPhyCtrl_phyInv h _).setPhy hcap rfl rfl
  · exact h.setPhy hcap rfl rfl
  · exact h
  · exact h

theorem setMdic_phyInv {w : World} (h : PhyInv w.dev) (val : U32) :
    PhyInv (setMdic w val).dev := by
  have hmdic := (mdicCommand_phyInv h val).setReg (by decide : Reg.mdic ≠ Reg.status)
    ((mdicCommand w val).1 ||| mdicReady)
  simp only [setMdic]
  split_ifs
  · exact setIcs_phyInv hmdic _
  · exact hmdic

theorem runReadOp_phyInv {op : ReadOp} {w : World} {index : Nat} (h : PhyInv w.dev)
    (hop : macregReadops index = some op) : PhyInv (runReadOp op w index).1.dev := by
  have hphy : (runReadOp op w index).1.dev.phyReg = w.dev.phyReg := by
    cases op with
    | macIcrRead => exact congrArg Rest.phyReg (setInterruptCause_frame w 0).rest
    | _ => rfl
  exact h.of_eq hphy (runReadOp_link w hop).status

theorem runWriteOp_phyInv {fuel : Nat} {op : WriteOp} {w w' : World} {index : Nat} {val : U32}
    (hw : PhyInv w.dev) (hop : macregWriteops index = some op)
    (h : runWriteOp fuel op w index val = .ok w') : PhyInv w'.dev := by
  have hne : index ≠ Reg.status := by
    rintro rfl
    rw [show macregWriteops Reg.status = none from rfl] at hop
    cases hop
  cases op with
  | macWritereg =>
      cases h
      simp only [macWritereg]
      split_ifs <;> exact hw.setReg hne _
  | setDlen => cases h; exact hw.setReg hne _
  | setTctl =>
      refine PhyInv.of_frame ?_ (startXmit_frame h) (by decide)
      exact (hw.setReg hne _).setReg (by decide) _
  | setMdic => cases h; exact setMdic_phyInv hw val
  | setIcs => cases h; exact setIcs_phyInv hw val
  | set16bit => cases h; exact hw.setReg hne _
  | setRdt =>
      cases h
      simp only [setRdt]
      split_ifs <;> exact hw.setReg hne _
  | setImc => cases h; exact setIcs_phyInv (hw.setReg (by decide) _) 0
  | setIms => cases h; exact setIcs_phyInv (hw.setReg (by decide) _) 0
  | setIcr => cases h; exact setInterruptCause_phyInv hw _
  | setEecd => cases h; exact hw.of_eq rfl rfl
  | setRxControl =>
      cases h
      exact (hw.setReg (by decide : Reg.rctl ≠ Reg.status) val).of_eq rfl rfl
  | setCtrl => cases h; exact hw.setReg (by decide) _

theorem e1000SetLinkStatus_phyInv {w : World} (h : PhyInv w.dev) (down : Bool) :
    PhyInv (e1000SetLinkStatus w down).dev := by
  have hnc : PhyInv { w.dev with linkDown := down } := h.of_eq rfl rfl
  have hlink : PhyInv (if down then e1000LinkDown { w.dev with linkDown := down }
      else e1000LinkUp { w.dev with linkDown := down }) := by
    split_ifs
    · exact hnc.e1000LinkDown
    · exact hnc.e1000LinkUp
  simp only [e1000SetLinkStatus]
  generalize (if down then e1000LinkDown { w.dev with linkDown := down }
      else e1000LinkUp { w.dev with linkDown := down }) = d at *
  split_ifs
  · exact setIcs_phyInv (w := { w with dev := d }) hlink _
  · exact hlink

theorem e1000AutonegTimer_phyInv {w : World} (h : PhyInv w.dev) :
    PhyInv (e1000AutonegTimer w).dev := by
  have hexpired : PhyInv { w.dev with autonegTimer := false } := h.of_eq rfl rfl
  simp only [e1000AutonegTimer]
  split_ifs
  · exact hexpired.setPhyStatus (or_and_of_disjoint _ (by decide))
      (or_and_of_disjoint _ (by decide)) rfl rfl
  · exact hexpired.e1000LinkUp.setPhyStatus (or_and_of_disjoint _ (by decide))
      (or_and_of_disjoint _ (by decide)) rfl rfl

theorem e1000MitTimer_phyInv {w : World} (h : PhyInv w.dev) : PhyInv (e1000MitTimer w).dev :=
  setInterruptCause_phyInv (w := { w with dev := { w.dev with mitTimerOn := false } })
    (h.of_eq rfl rfl) _

theorem e1000PreSave_phyInv {w : World} (h : PhyInv w.dev) : PhyInv (e1000PreSave w).dev := by
  have hflush : PhyInv (if w.dev.mitTimerOn then e1000MitTimer w else w).dev := by
    split_ifs
    · exact e1000MitTimer_phyInv h
    · exact h
  simp only [e1000PreSave]
  generalize (if w.dev.mitTimerOn then e1000MitTimer w else w) = w₁ at *
  split_ifs
  · exact hflush.setPhyStatus (or_and_of_disjoint _ (by decide))
      (or_and_of_disjoint _ (by decide)) rfl rfl
  · exact hflush

theorem step_phyInv {fuel : Nat} {w w' : World} {op : Op} {reply : Reply} (hw : PhyInv w.dev)
    (h : step fuel w op = .ok (w', reply)) : PhyInv w'.dev := by
  cases op with
  | mmioRead addr =>
      have hread : PhyInv (e1000MmioRead w addr).1.dev := by
        rw [e1000MmioRead]
        split
        · next op hop => exact runReadOp_phyInv hw hop
        · exact hw
      cases h
      exact hread
  | mmioWrite addr val =>
      obtain ⟨w₁, hwrite, h⟩ := Run.bind_eq_ok.mp h
      cases h
      rw [e1000MmioWrite] at hwrite
      split at hwrite
      · next op hop => exact runWriteOp_phyInv hw hop hwrite
      · cases hwrite
        exact hw
  | receive iov =>
      obtain ⟨r, hr, h⟩ := Run.bind_eq_ok.mp h
      cases h
      exact hw.of_frame (e1000ReceiveIov_frame hr).1 (by decide)
  | linkStatus down => cases h; exact e1000SetLinkStatus_phyInv hw down
  | autonegTimer => cases h; exact e1000AutonegTimer_phyInv hw
  | mitTimer => cases h; exact e1000MitTimer_phyInv hw
  | preSave => cases h; exact e1000PreSave_phyInv hw
  | reset => cases h; exact e1000Reset_phyInv w
  | guestStore mem => cases h; exact hw

/-! ## The link of a device since its reset -/

theorem SinceReset.phyInv {w : World} (h : SinceReset w) : PhyInv w.dev :=
  SinceReset.invariant (fun w => PhyInv w.dev) e1000Reset_phyInv
    (fun _ _ _ _ _ hw hs => step_phyInv hw hs) h

theorem link_and_phy_agree {w : World} (h : SinceReset w) :
    (test (w.reg Reg.status) statusLu = test (w.dev.phyReg Phy.status) miiSrLinkStatus) ∧
    (test (w.reg Reg.status) statusLu = true → w.dev.linkDown = false) ∧
    w.reg Reg.status &&& ~~~statusLu = macRegInit Reg.status &&& ~~~statusLu ∧
    (∀ i, phyRegcap i ≠ .readWrite → i ≠ Phy.status → w.dev.phyReg i = phyRegInit i) ∧
    w.dev.phyReg Phy.status &&& ~~~(miiSrLinkStatus ||| miiSrAutonegComplete) =
      phyRegInit Phy.status &&& ~~~(miiSrLinkStatus ||| miiSrAutonegComplete) := by
  have hphy := h.phyInv
  refine ⟨hphy.link.symm, fun hup => ?_, hphy.status, hphy.readOnly, hphy.phyStatus⟩
  cases hdown : w.dev.linkDown with
  | false => rfl
  | true =>
      have hno : test (w.reg Reg.status) statusLu = false := h.linkInv.down hdown
      rw [hno] at hup
      cases hup

/-- The guest has restarted the negotiation. -/
def negotiating : World :=
  setMdic (powerOn (fun _ => 0) e1000FlagAutoneg false Memory.blank) 0x04201200

theorem link_and_phy_agree_negotiating :
    test (negotiating.reg Reg.status) statusLu =
        test (negotiating.dev.phyReg Phy.status) miiSrLinkStatus ∧
      test (negotiating.reg Reg.status) statusLu = false := by
  have hreach : Reachable negotiating :=
    .mmioWrite (.powerOn _ _ _ _) 0x20#64 .setMdic 0x04201200 rfl fun _ => rfl
  exact ⟨(link_and_phy_agree hreach.sinceReset).1, by decide⟩

end SE4VM.E1000
