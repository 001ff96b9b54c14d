import SE4VM.E1000.Link
import SE4VM.E1000.Reach
import SE4VM.E1000.Observation

/-!
# Migration

A saved device is loaded into a freshly reset one with the same configuration.
What the description leaves out is either never written, behind the pin, or
overwritten before it is read, with three exceptions: in `tx` the segmentation bit
of the last context descriptor and a VLAN tag that is due, and `link_down`, which
`e1000_post_load` infers from `STATUS` and the PHY registers.
-/

namespace SE4VM.E1000

open SE4VM.Foundation

/-! ## The description -/

def vmstateRegs : List Nat :=
  [Reg.ctrl, Reg.eecd, Reg.eerd, Reg.gprc, Reg.gptc, Reg.icr, Reg.ics, Reg.imc, Reg.ims,
   Reg.ledctl, Reg.manc, Reg.mdic, Reg.mpc, Reg.pba, Reg.rctl, Reg.rdbah, Reg.rdbal,
   Reg.rdh, Reg.rdlen, Reg.rdt, Reg.status, Reg.swsm, Reg.tctl, Reg.tdbah, Reg.tdbal,
   Reg.tdh, Reg.tdlen, Reg.tdt, Reg.torh, Reg.torl, Reg.toth, Reg.totl, Reg.tpr, Reg.tpt,
   Reg.txdctl, Reg.wufc, Reg.vet]

def mitRegs : List Nat := [Reg.rdtr, Reg.radv, Reg.tadv, Reg.itr]

def e1000MitStateNeeded (s : E1000State) : Bool := test s.compatFlags e1000FlagMit

def vmstateHasReg (mit : Bool) (i : Nat) : Bool :=
  decide (i ∈ vmstateRegs) || inAddressTables i || (mit && decide (i ∈ mitRegs))

def loadTx (src dst : E1000Tx) : E1000Tx :=
  { dst with
    ipcss := src.ipcss
    ipcso := src.ipcso
    ipcse := src.ipcse
    tucss := src.tucss
    tucso := src.tucso
    tucse := src.tucse
    paylen := src.paylen
    hdrLen := src.hdrLen
    mss := src.mss
    size := src.size
    tsoFrames := src.tsoFrames
    sumNeeded := src.sumNeeded
    ip := src.ip
    tcp := src.tcp
    header := src.header
    data := src.data }

def vmstateE1000 (src dst : E1000State) : E1000State :=
  { dst with
    rxbufSize := src.rxbufSize
    rxbufMinShift := src.rxbufMinShift
    eecdState := src.eecdState
    tx := loadTx src.tx dst.tx
    eepromData := src.eepromData
    phyReg := src.phyReg
    macReg := fun i =>
      if vmstateHasReg (e1000MitStateNeeded src) i then src.macReg i else dst.macReg i
    mitIrqLevel :=
      if e1000MitStateNeeded src then src.mitIrqLevel else dst.mitIrqLevel }

def clearMitRegs (macReg : Nat → U32) (i : Nat) : U32 :=
  if i ∈ mitRegs then 0 else macReg i

def e1000PostLoad (w : World) : World :=
  let d := w.dev
  let d :=
    if e1000MitStateNeeded d then d
    else { d with macReg := clearMitRegs d.macReg, mitIrqLevel := false }
  let d := { d with
    mitIde := 0
    mitTimerOn := false
    linkDown := !test (d.macReg Reg.status) statusLu }
  if test d.compatFlags e1000FlagAutoneg && autonegPending d &&
      !test (d.phyReg Phy.status) miiSrAutonegComplete then
    World.emit { w with dev := { d with linkDown := false, autonegTimer := true } }
      .armAutonegTimer
  else { w with dev := d }

/-- Save `w` and load it into a device that has just been reset. -/
def migrate (w : World) (down : Bool) : World :=
  let src := (e1000PreSave w).dev
  let dst := (powerOn w.dev.macaddr w.dev.compatFlags down w.mem).dev
  e1000PostLoad { w with dev := vmstateE1000 src dst }

/-! ## What saving and loading change on purpose -/

/-- `e1000_pre_save` completes a negotiation that the link cannot complete. -/
def settledPhy (s : E1000State) : Nat → U16 :=
  if test s.compatFlags e1000FlagAutoneg && s.linkDown && autonegPending s then
    Function.update s.phyReg Phy.status (s.phyReg Phy.status ||| miiSrAutonegComplete)
  else s.phyReg

/-- Without mitigation `e1000_post_load` clears the four delay registers. -/
def settledRegs (s : E1000State) : Nat → U32 :=
  if e1000MitStateNeeded s then s.macReg else clearMitRegs s.macReg

def settled (w : World) : World :=
  { w with dev := { w.dev with
    phyReg := settledPhy w.dev
    macReg := settledRegs w.dev } }

/-! ## Saving -/

theorem e1000MitTimer_dev {w : World} (hcauses : w.reg Reg.ics = w.reg Reg.icr) :
    ∃ m : MitState, (e1000MitTimer w).dev = w.dev.setMit m := by
  obtain ⟨m, hdev, -, -⟩ := setInterruptCause_spec
    { w with dev := { w.dev with mitTimerOn := false } } (w.reg Reg.icr)
  refine ⟨m, ?_⟩
  rw [e1000MitTimer, hdev]
  simp only [World.dev_setReg, E1000State.setMit, World.reg]
  have hicr : Function.update w.dev.macReg Reg.icr (w.dev.macReg Reg.icr) = w.dev.macReg :=
    Function.update_eq_self _ _
  have hics : Function.update w.dev.macReg Reg.ics (w.dev.macReg Reg.icr) = w.dev.macReg := by
    rw [← show w.dev.macReg Reg.ics = w.dev.macReg Reg.icr from hcauses]
    exact Function.update_eq_self _ _
  rw [hicr, hics]

theorem e1000PreSave_dev {w : World} (hcauses : w.reg Reg.ics = w.reg Reg.icr) :
    ∃ m : MitState,
      (e1000PreSave w).dev = { w.dev.setMit m with phyReg := settledPhy w.dev } := by
  have hflush : ∃ m, (if w.dev.mitTimerOn then e1000MitTimer w else w).dev =
      w.dev.setMit m := by
    split_ifs
    · exact e1000MitTimer_dev hcauses
    · exact ⟨w.dev.mit, rfl⟩
  obtain ⟨m, hm⟩ := hflush
  refine ⟨m, ?_⟩
  simp only [e1000PreSave]
  generalize (if w.dev.mitTimerOn then e1000MitTimer w else w) = w₁ at hm
  have hcond : (test w₁.dev.compatFlags e1000FlagAutoneg && w₁.dev.linkDown &&
      autonegPending w₁.dev) = (test w.dev.compatFlags e1000FlagAutoneg && w.dev.linkDown &&
      autonegPending w.dev) := by
    rw [hm]
    rfl
  simp only [settledPhy, hcond]
  split_ifs
  · simp only [hm]
    rfl
  · rw [hm]
    rfl

/-! ## Loading -/

theorem e1000PostLoad_dev (w : World) :
    ∃ hid, (e1000PostLoad w).dev =
      { w.dev.hide hid with
        macReg := settledRegs w.dev
        linkDown := (e1000PostLoad w).dev.linkDown } := by
  simp only [e1000PostLoad, settledRegs]
  cases e1000MitStateNeeded w.dev with
  | true =>
      simp only [if_true]
      split_ifs
      · exact ⟨⟨true, false, w.dev.mitIrqLevel, 0⟩, rfl⟩
      · exact ⟨⟨w.dev.autonegTimer, false, w.dev.mitIrqLevel, 0⟩, rfl⟩
  | false =>
      simp only [Bool.false_eq_true, if_false]
      split_ifs
      · exact ⟨⟨true, false, false, 0⟩, rfl⟩
      · exact ⟨⟨w.dev.autonegTimer, false, false, 0⟩, rfl⟩

theorem e1000PostLoad_mem (w : World) : (e1000PostLoad w).mem = w.mem := by
  simp only [e1000PostLoad]
  split_ifs <;> rfl

theorem e1000PostLoad_seen (w : World) : (e1000PostLoad w).seen = w.seen := by
  simp only [e1000PostLoad]
  split_ifs <;> rfl

/-- Every register the guest or the device can write is in the description. -/
theorem idle_of_not_vmstateHasReg {i : Nat} (h : vmstateHasReg true i = false) : Idle i := by
  have hdev : ∀ j ∈ devRegs, vmstateHasReg true j = true := by decide
  have hnot : i ∉ devRegs := by
    intro hmem
    rw [hdev i hmem] at h
    cases h
  refine ⟨hnot, ?_⟩
  simp only [vmstateHasReg, vmstateRegs, mitRegs, Bool.true_and, Bool.or_eq_false_iff,
    decide_eq_false_iff_not, List.mem_cons, List.not_mem_nil, or_false, not_or] at h
  simp only [macregWriteops, List.mem_cons, List.not_mem_nil, or_false, h, if_false,
    Bool.false_eq_true]

theorem settledRegs_of_notMem {s : E1000State} {i : Nat} (h : i ∉ mitRegs) :
    settledRegs s i = s.macReg i := by
  rw [settledRegs]
  split_ifs
  · rfl
  · rw [clearMitRegs, if_neg h]

theorem vmstateHasReg_mitRegs : ∀ i ∈ mitRegs, ∀ mit, vmstateHasReg mit i = mit := by
  decide

theorem powerOn_mitRegs (macaddr : Buffer) (flags : U32) (down : Bool) (mem : Memory)
    {i : Nat} (h : i ∈ mitRegs) : (powerOn macaddr flags down mem).dev.macReg i = 0 := by
  have hne : ∀ i ∈ mitRegs, i ≠ Reg.ra ∧ i ≠ Reg.ra + 1 ∧ i ≠ Reg.status := by decide
  have hzero : ∀ i ∈ mitRegs, macRegInit i = 0 := by decide
  obtain ⟨hra, hra', hst⟩ := hne i h
  rw [powerOn, e1000Reset_macReg _ hra hra' hst, hzero i h]

theorem powerOn_idle (macaddr : Buffer) (flags : U32) (down : Bool) (mem : Memory) {i : Nat}
    (h : Idle i) : (powerOn macaddr flags down mem).dev.macReg i = macRegInit i :=
  (e1000Reset_regInv _).idle i h

theorem vmstate_macReg {s : E1000State} (hinv : RegInv s) (macaddr : Buffer) (flags : U32)
    (down : Bool) (mem : Memory) :
    (fun i => if vmstateHasReg (e1000MitStateNeeded s) i then s.macReg i
      else (powerOn macaddr flags down mem).dev.macReg i) = settledRegs s := by
  funext i
  by_cases hmit : i ∈ mitRegs
  · rw [vmstateHasReg_mitRegs i hmit, powerOn_mitRegs _ _ _ _ hmit, settledRegs]
    cases e1000MitStateNeeded s with
    | true => rfl
    | false => rw [if_neg (by decide), if_neg (by decide), clearMitRegs, if_pos hmit]
  · have hsame : vmstateHasReg (e1000MitStateNeeded s) i = vmstateHasReg true i := by
      simp only [vmstateHasReg, hmit, decide_false, Bool.and_false]
    rw [hsame, settledRegs_of_notMem hmit]
    split_ifs with hsaved
    · rfl
    · have hidle : Idle i := idle_of_not_vmstateHasReg (by simpa using hsaved)
      rw [powerOn_idle _ _ _ _ hidle, hinv.idle i hidle]

theorem settledRegs_settled {s d : E1000State} (hflags : d.compatFlags = s.compatFlags)
    (hregs : d.macReg = settledRegs s) : settledRegs d = settledRegs s := by
  rw [settledRegs, hregs, e1000MitStateNeeded, hflags, ← e1000MitStateNeeded]
  split_ifs with hmit
  · rfl
  · funext i
    by_cases hi : i ∈ mitRegs
    · rw [clearMitRegs, if_pos hi, settledRegs, if_neg hmit, clearMitRegs, if_pos hi]
    · rw [clearMitRegs, if_neg hi]

theorem loadTx_zero {tp : E1000Tx} (htse : tp.tse = false) (hvlan : tp.vlanNeeded = false) :
    TxAlike false tp (loadTx tp E1000Tx.zero) := by
  refine ⟨fun _ => 0, fun _ => 0, false, ?_, fun hneeded => ?_, nofun⟩
  · simp only [loadTx, E1000Tx.zero, htse, hvlan]
  · rw [hvlan] at hneeded
    cases hneeded

theorem powerOn_dev (macaddr : Buffer) (flags : U32) (down : Bool) (mem : Memory) :
    (powerOn macaddr flags down mem).dev =
      { pciE1000Init macaddr flags down with
        rxbufMinShift := 1
        phyReg := (powerOn macaddr flags down mem).dev.phyReg
        macReg := (powerOn macaddr flags down mem).dev.macReg } := by
  cases down <;> rfl

def loadedDev (s : E1000State) (down : Bool) (hid : Hidden) : E1000State :=
  { s.hide hid with
    phyReg := settledPhy s
    macReg := settledRegs s
    tx := loadTx s.tx E1000Tx.zero
    linkDown := down }

theorem vmstateE1000_powerOn {s : E1000State} (hinv : RegInv s) (m : MitState)
    (down : Bool) (mem : Memory) :
    ∃ hid, vmstateE1000 { s.setMit m with phyReg := settledPhy s }
      (powerOn s.macaddr s.compatFlags down mem).dev = loadedDev s down hid := by
  have hregs := vmstate_macReg hinv s.macaddr s.compatFlags down mem
  refine ⟨⟨false, false, if e1000MitStateNeeded s then m.irqLevel else false, 0⟩, ?_⟩
  rw [loadedDev, ← hregs, vmstateE1000, powerOn_dev]
  rfl

/-! ## The link of the migrated device -/

/-- Loading this device restarts the negotiation. -/
def resumes (s : E1000State) : Bool :=
  test s.compatFlags e1000FlagAutoneg && autonegPending s &&
    !test (s.phyReg Phy.status) miiSrAutonegComplete

theorem e1000PostLoad_link (w : World) :
    (e1000PostLoad w).dev.linkDown = (!resumes w.dev && !w.dev.linkUp) ∧
      (e1000PostLoad w).dev.autonegTimer = (resumes w.dev || w.dev.autonegTimer) := by
  have hstatus : clearMitRegs w.dev.macReg Reg.status = w.dev.macReg Reg.status :=
    if_neg (by decide)
  simp only [e1000PostLoad]
  cases hr : resumes w.dev <;> cases hm : e1000MitStateNeeded w.dev
  all_goals
    simp only [resumes, autonegPending] at hr
    simp [autonegPending, hr, E1000State.linkUp, hstatus]

theorem resumes_settled {s d : E1000State} (hflags : d.compatFlags = s.compatFlags)
    (hphy : d.phyReg = settledPhy s) : resumes d = (resumes s && !s.linkDown) := by
  have hctrl : settledPhy s Phy.ctrl = s.phyReg Phy.ctrl := by
    rw [settledPhy]
    split_ifs
    · exact Function.update_of_ne (by decide) _ _
    · rfl
  have hpending : autonegPending d = autonegPending s := by
    simp only [autonegPending, hphy, hctrl]
  rw [resumes, resumes, hflags, hpending, hphy, settledPhy]
  cases hflag : test s.compatFlags e1000FlagAutoneg with
  | false => rfl
  | true =>
      cases hdown : s.linkDown with
      | false => simp
      | true =>
          cases hp : autonegPending s with
          | false => rfl
          | true =>
              -- The save has completed the negotiation, so loading does not resume it.
              have hdone : test (s.phyReg Phy.status ||| miiSrAutonegComplete)
                  miiSrAutonegComplete = true := test_or_self _ (by decide)
              simp [hdone]

theorem migrate_link {w : World} (hw : Reachable w) (down : Bool) :
    (migrate w down).dev.linkDown =
        (!(resumes w.dev && !w.dev.linkDown) && !w.dev.linkUp) ∧
      (migrate w down).dev.autonegTimer = (resumes w.dev && !w.dev.linkDown) := by
  obtain ⟨m, hsave⟩ := e1000PreSave_dev hw.regInv.causes
  have hfresh := powerOn_dev w.dev.macaddr w.dev.compatFlags down w.mem
  let loaded := vmstateE1000 (e1000PreSave w).dev
    (powerOn w.dev.macaddr w.dev.compatFlags down w.mem).dev
  have hflags : loaded.compatFlags = w.dev.compatFlags := by
    simp only [loaded, vmstateE1000]
    exact (congrArg E1000State.compatFlags hfresh).trans rfl
  have hphy : loaded.phyReg = settledPhy w.dev := by
    simp only [loaded, vmstateE1000, hsave]
  have hresumes := resumes_settled hflags hphy
  have hup : loaded.linkUp = w.dev.linkUp := by
    have hsaved : ∀ mit, vmstateHasReg mit Reg.status = true := by decide
    have hstatus : loaded.macReg Reg.status = (e1000PreSave w).dev.macReg Reg.status := by
      simp only [loaded, vmstateE1000, hsaved, if_true]
    rw [E1000State.linkUp, hstatus, (e1000PreSave_linkKeeps w).status, E1000State.linkUp]
  have htimer : loaded.autonegTimer = false := by
    simp only [loaded, vmstateE1000]
    exact (congrArg E1000State.autonegTimer hfresh).trans rfl
  obtain ⟨hlink, hauto⟩ := e1000PostLoad_link { w with dev := loaded }
  refine ⟨?_, ?_⟩
  · rw [migrate, hlink, hresumes, hup]
  · rw [migrate, hauto, hresumes, htimer, Bool.or_false]

/-- The link that loading infers is the link that was saved. -/
theorem migrate_linkDown {w : World} (hw : Reachable w)
    (hlink : w.dev.linkDown = true ∨ w.dev.linkUp = true ∨ resumes w.dev = true)
    (down : Bool) : (migrate w down).dev.linkDown = w.dev.linkDown := by
  rw [(migrate_link hw down).1]
  have hdown := hw.linkInv.down
  generalize resumes w.dev = r at *
  generalize w.dev.linkDown = d at *
  generalize w.dev.linkUp = u at *
  revert hlink hdown
  clear hw
  revert r d u
  decide

/-! ## The migrated device -/

theorem migrate_alike {w : World} (hw : Reachable w) (htse : w.dev.tx.tse = false)
    (hvlan : w.dev.tx.vlanNeeded = false)
    (hlink : w.dev.linkDown = true ∨ w.dev.linkUp = true ∨ resumes w.dev = true)
    (down : Bool) : Alike false (settled w) (migrate w down) := by
  obtain ⟨m, hsave⟩ := e1000PreSave_dev hw.regInv.causes
  obtain ⟨hid, hcopy⟩ := vmstateE1000_powerOn hw.regInv m down w.mem
  have hmigrate : migrate w down = e1000PostLoad { w with dev := loadedDev w.dev down hid } := by
    rw [migrate, hsave, ← hcopy]
  have hclear : settledRegs (loadedDev w.dev down hid) = settledRegs w.dev :=
    settledRegs_settled rfl rfl
  obtain ⟨hid', hload⟩ := e1000PostLoad_dev { w with dev := loadedDev w.dev down hid }
  rw [← hmigrate, migrate_linkDown hw hlink, hclear] at hload
  refine ⟨⟨hid', loadTx w.dev.tx E1000Tx.zero, hload, loadTx_zero htse hvlan⟩, ?_, ?_⟩
  · rw [hmigrate, e1000PostLoad_mem]
    rfl
  · rw [hmigrate, e1000PostLoad_seen]
    rfl

/-! ## Concrete moves -/

def tellsApart (ops : List Op) (w : World) : Bool :=
  observe <$> runOps 4 (migrate w w.dev.linkDown) ops ≠ observe <$> runOps 4 w ops

theorem not_indistinguishable_of_tellsApart {ops : List Op} {w : World}
    (hops : ∀ op ∈ ops, Op.guest op = true) (h : tellsApart ops w = true) :
    ¬ Indistinguishable w (migrate w w.dev.linkDown) := by
  intro hsame
  exact of_decide_eq_true h (hsame 4 ops hops)

def ringAtZero (bytes : List U8) : Memory := fun a => bytes.getD a.toNat 0

/-- A context descriptor with `TSE`, then a packet of 20 bytes that asks for it. -/
def tsoRing : Memory := ringAtZero
  [0, 0, 0, 0, 0, 0, 0, 0, 0x00, 0x00, 0x00, 0x24, 0, 0, 0x40, 0,
   0, 0, 0, 0, 0, 0, 0, 0, 0x14, 0x00, 0x10, 0x25, 0, 0, 0, 0]

/-- One packet of 20 bytes. -/
def packetRing : Memory := ringAtZero
  [0, 0, 0, 0, 0, 0, 0, 0, 0x14, 0x00, 0x00, 0x01, 0, 0, 0, 0]

/-- The first half of a packet asks for a tag, the second half ends the packet. -/
def vlanRing : Memory := ringAtZero
  [0, 0, 0, 0, 0, 0, 0, 0, 0x14, 0x00, 0x10, 0x64, 0, 0, 0, 0,
   0, 0, 0, 0, 0, 0, 0, 0, 0x14, 0x00, 0x10, 0x21, 0, 0, 0, 0]

/-! ## Migration and the guest -/

/--
A device saved with no segmentation context and no tag pending goes on, for the
guest and the network, as if it had never been moved, unless its link is live
while `STATUS` and the PHY registers show neither a link nor a negotiation.
-/
theorem migrate_indistinguishable {w : World} (hw : Reachable w)
    (htse : w.dev.tx.tse = false) (hvlan : w.dev.tx.vlanNeeded = false)
    (hlink : w.dev.linkDown = true ∨ w.dev.linkUp = true ∨ resumes w.dev = true)
    (down : Bool) : Indistinguishable (settled w) (migrate w down) :=
  (migrate_alike hw htse hvlan hlink down).indistinguishable

theorem migrate_indistinguishable_rxReady :
    Indistinguishable (settled (rxReady rctlEn 128 0 4 Memory.blank))
      (migrate (rxReady rctlEn 128 0 4 Memory.blank) false) :=
  migrate_indistinguishable (reachable_rxReady _ _ _ _ _) rfl rfl (.inr (.inl rfl)) false

theorem settled_eq_self {w : World} (hmit : e1000MitStateNeeded w.dev = true)
    (hphy : autonegPending w.dev = false) : settled w = w := by
  simp only [settled, settledPhy, settledRegs, hmit, hphy, Bool.and_false, Bool.false_eq_true,
    if_true, if_false]

/--
Five devices that the guest or the network tells from their migrated copy: with a
segmentation context, with a tag due, without mitigation, with a negotiation that
the missing link holds up, and with a negotiation towards a live link that the
guest has hidden in `PHY_CTRL`.
-/
theorem migrate_distinguishable :
    (∃ w, Reachable w ∧ settled w = w ∧ w.dev.tx.tse = true ∧
      ¬ Indistinguishable w (migrate w w.dev.linkDown)) ∧
    (∃ w, Reachable w ∧ settled w = w ∧ w.dev.tx.vlanNeeded = true ∧
      ¬ Indistinguishable w (migrate w w.dev.linkDown)) ∧
    (∃ w, Reachable w ∧ e1000MitStateNeeded w.dev = false ∧
      ¬ Indistinguishable w (migrate w w.dev.linkDown)) ∧
    (∃ w, Reachable w ∧ autonegPending w.dev = true ∧
      ¬ Indistinguishable w (migrate w w.dev.linkDown)) ∧
    (∃ w, Reachable w ∧ settled w = w ∧ w.dev.tx.tse = false ∧
      w.dev.tx.vlanNeeded = false ∧ w.dev.linkDown = false ∧
      ¬ Indistinguishable w (migrate w w.dev.linkDown)) := by
  refine ⟨?_, ?_, ?_, ?_, ?_⟩
  · have hrun : afterSetup 3 false tsoRing
        [.mmioWrite 0x3808 128, .mmioWrite 0x400 2, .mmioWrite 0x3818 1]
        (fun w => e1000MitStateNeeded w.dev && !autonegPending w.dev && w.dev.tx.tse &&
          tellsApart [.mmioWrite 0x3818 2] w) = .ok true := by
      decide +kernel
    obtain ⟨w, hw, h⟩ := exists_reachable_of_afterSetup hrun
    simp only [Bool.and_eq_true, Bool.not_eq_true'] at h
    obtain ⟨⟨⟨hmit, hphy⟩, htse⟩, hops⟩ := h
    exact ⟨w, hw, settled_eq_self hmit hphy, htse,
      not_indistinguishable_of_tellsApart (by simp [Op.guest]) hops⟩
  · have hrun : afterSetup 3 false vlanRing
        [.mmioWrite 0 0x40000000, .mmioWrite 0x3808 128, .mmioWrite 0x400 2,
          .mmioWrite 0x3818 1]
        (fun w => e1000MitStateNeeded w.dev && !autonegPending w.dev &&
          w.dev.tx.vlanNeeded && tellsApart [.mmioWrite 0x3818 2] w) = .ok true := by
      decide +kernel
    obtain ⟨w, hw, h⟩ := exists_reachable_of_afterSetup hrun
    simp only [Bool.and_eq_true, Bool.not_eq_true'] at h
    obtain ⟨⟨⟨hmit, hphy⟩, hvlan⟩, hops⟩ := h
    exact ⟨w, hw, settled_eq_self hmit hphy, hvlan,
      not_indistinguishable_of_tellsApart (by simp [Op.guest]) hops⟩
  · have hrun : afterSetup 0 false Memory.blank [.mmioWrite 0x2820 1]
        (fun w => !e1000MitStateNeeded w.dev && tellsApart [.mmioRead 0x2820] w) =
          .ok true := by
      decide +kernel
    obtain ⟨w, hw, h⟩ := exists_reachable_of_afterSetup hrun
    simp only [Bool.and_eq_true, Bool.not_eq_true'] at h
    exact ⟨w, hw, h.1, not_indistinguishable_of_tellsApart (by simp [Op.guest]) h.2⟩
  · have hrun : afterSetup 3 true Memory.blank [.mmioWrite 0x20 0x04201200]
        (fun w => autonegPending w.dev &&
          tellsApart [.mmioWrite 0x20 0x08210000, .mmioRead 0x20] w) = .ok true := by
      decide +kernel
    obtain ⟨w, hw, h⟩ := exists_reachable_of_afterSetup hrun
    simp only [Bool.and_eq_true] at h
    exact ⟨w, hw, h.1, not_indistinguishable_of_tellsApart (by simp [Op.guest]) h.2⟩
  · have hrun : afterSetup 3 false packetRing
        [.mmioWrite 0x20 0x04201200, .mmioWrite 0x20 0x04201140, .mmioWrite 0x3808 128,
          .mmioWrite 0x400 2]
        (fun w => e1000MitStateNeeded w.dev && !autonegPending w.dev && !w.dev.tx.tse &&
          !w.dev.tx.vlanNeeded && !w.dev.linkDown &&
          tellsApart [.mmioWrite 0x3818 1] w) = .ok true := by
      decide +kernel
    obtain ⟨w, hw, h⟩ := exists_reachable_of_afterSetup hrun
    simp only [Bool.and_eq_true, Bool.not_eq_true'] at h
    obtain ⟨⟨⟨⟨⟨hmit, hphy⟩, htse⟩, hvlan⟩, hdown⟩, hops⟩ := h
    exact ⟨w, hw, settled_eq_self hmit hphy, htse, hvlan, hdown,
      not_indistinguishable_of_tellsApart (by simp [Op.guest]) hops⟩

end SE4VM.E1000
