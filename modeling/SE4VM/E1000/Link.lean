import SE4VM.E1000.Frame

/-!
# The link

`link_down` is the backend's state, `STATUS.LU` what the guest sees of it.  They
differ only while a negotiation is pending, and then the timer is armed.
-/

namespace SE4VM.E1000

open SE4VM.Foundation

/-! ## What an event does to the link -/

def E1000State.linkUp (s : E1000State) : Bool := test (s.macReg Reg.status) statusLu

structure LinkKeeps (s s' : E1000State) : Prop where
  linkDown : s'.linkDown = s.linkDown
  status : s'.macReg Reg.status = s.macReg Reg.status
  autonegTimer : s'.autonegTimer = s.autonegTimer

namespace LinkKeeps

variable {s s' s'' : E1000State}

theorem refl (s : E1000State) : LinkKeeps s s := ⟨rfl, rfl, rfl⟩

theorem trans (h : LinkKeeps s s') (h' : LinkKeeps s' s'') : LinkKeeps s s'' :=
  ⟨h'.linkDown.trans h.linkDown, h'.status.trans h.status,
    h'.autonegTimer.trans h.autonegTimer⟩

theorem linkUp (h : LinkKeeps s s') : s'.linkUp = s.linkUp := by
  rw [E1000State.linkUp, h.status, E1000State.linkUp]

theorem of_frame {regs : List Nat} {ev : Event → Bool} {w w' : World}
    (h : Frame regs ev w w') (hst : Reg.status ∉ regs) : LinkKeeps w.dev w'.dev :=
  ⟨congrArg Rest.linkDown h.rest, h.reg _ hst, congrArg Rest.autonegTimer h.rest⟩

theorem setReg (w : World) {i : Nat} (v : U32) (hi : i ≠ Reg.status) :
    LinkKeeps w.dev (w.setReg i v).dev :=
  ⟨rfl, Function.update_of_ne (Ne.symm hi) _ _, rfl⟩

end LinkKeeps

theorem setIcs_linkKeeps (w : World) (val : U32) : LinkKeeps w.dev (setIcs w val).dev :=
  .of_frame (setIcs_frame_rx w val) (by decide)

theorem e1000MitTimer_linkKeeps (w : World) : LinkKeeps w.dev (e1000MitTimer w).dev := by
  have h := LinkKeeps.of_frame (setInterruptCause_frame
    { w with dev := { w.dev with mitTimerOn := false } } (w.reg Reg.icr)) (by decide)
  exact ⟨h.linkDown, h.status, h.autonegTimer⟩

theorem e1000PreSave_linkKeeps (w : World) : LinkKeeps w.dev (e1000PreSave w).dev := by
  have hflush : LinkKeeps w.dev (if w.dev.mitTimerOn then e1000MitTimer w else w).dev := by
    split_ifs
    · exact e1000MitTimer_linkKeeps w
    · exact .refl _
  simp only [e1000PreSave]
  generalize (if w.dev.mitTimerOn then e1000MitTimer w else w) = w₁ at *
  split_ifs
  · exact hflush.trans ⟨rfl, rfl, rfl⟩
  · exact hflush

/-- The four ways in which an event can leave the link. -/
inductive LinkEffect (s s' : E1000State) : Prop
  | keeps : LinkKeeps s s' → LinkEffect s s'
  | restart : s'.linkDown = s.linkDown → s'.linkUp = false → s'.autonegTimer = true →
      LinkEffect s s'
  | status : s'.linkUp = !s'.linkDown → LinkEffect s s'
  | expired : s'.linkDown = s.linkDown → s'.linkUp = (s.linkUp || !s.linkDown) →
      LinkEffect s s'

theorem LinkEffect.trans_keeps {s s' s'' : E1000State} (h : LinkEffect s s')
    (h' : LinkKeeps s' s'') : LinkEffect s s'' := by
  cases h with
  | keeps hk => exact .keeps (hk.trans h')
  | restart hdown hup htimer =>
      exact .restart (h'.linkDown.trans hdown) (h'.linkUp.trans hup)
        (h'.autonegTimer.trans htimer)
  | status hup => exact .status (by rw [h'.linkUp, h'.linkDown, hup])
  | expired hdown hup =>
      exact .expired (h'.linkDown.trans hdown) (h'.linkUp.trans hup)

theorem linkUp_e1000LinkDown (s : E1000State) : (e1000LinkDown s).linkUp = false := by
  simp only [E1000State.linkUp, e1000LinkDown, Function.update_self]
  exact test_and_not _ _

theorem linkUp_e1000LinkUp (s : E1000State) : (e1000LinkUp s).linkUp = true := by
  simp only [E1000State.linkUp, e1000LinkUp, Function.update_self]
  exact test_or_self _ (by decide)

theorem setPhyCtrl_link (w : World) (val : U16) :
    LinkEffect w.dev (setPhyCtrl w val).dev := by
  simp only [setPhyCtrl]
  split_ifs
  · exact .restart rfl (linkUp_e1000LinkDown w.dev) rfl
  · exact .keeps (.refl _)

theorem mdicCommand_link (w : World) (val : U32) :
    LinkEffect w.dev (mdicCommand w val).2.dev := by
  simp only [mdicCommand]
  split_ifs
  all_goals
    first
    | exact .keeps (.refl _)
    | exact .keeps ⟨rfl, rfl, rfl⟩
    | exact (setPhyCtrl_link w _).trans_keeps ⟨rfl, rfl, rfl⟩

theorem setMdic_link (w : World) (val : U32) : LinkEffect w.dev (setMdic w val).dev := by
  have hmdic : LinkEffect w.dev ((mdicCommand w val).2.setReg Reg.mdic
      ((mdicCommand w val).1 ||| mdicReady)).dev :=
    (mdicCommand_link w val).trans_keeps (.setReg _ _ (by decide))
  simp only [setMdic]
  split_ifs
  · exact hmdic.trans_keeps (setIcs_linkKeeps _ _)
  · exact hmdic

theorem e1000SetLinkStatus_spec (w : World) (down : Bool) :
    (e1000SetLinkStatus w down).dev.linkDown = down ∧
      (e1000SetLinkStatus w down).dev.linkUp = !down ∧
      (∀ i, i ∉ [Reg.status, Reg.icr, Reg.ics] →
        (e1000SetLinkStatus w down).reg i = w.reg i) ∧
      PinsOnly w (e1000SetLinkStatus w down) := by
  have hlink : ∀ d : E1000State, d = (if down then e1000LinkDown { w.dev with linkDown := down }
      else e1000LinkUp { w.dev with linkDown := down }) →
      d.linkDown = down ∧ d.linkUp = (!down) ∧ ∀ i, i ≠ Reg.status → d.macReg i = w.reg i := by
    rintro d rfl
    cases down with
    | true => exact ⟨rfl, linkUp_e1000LinkDown _, fun i hi => Function.update_of_ne hi _ _⟩
    | false => exact ⟨rfl, linkUp_e1000LinkUp _, fun i hi => Function.update_of_ne hi _ _⟩
  simp only [e1000SetLinkStatus]
  generalize hd : (if down then e1000LinkDown { w.dev with linkDown := down }
      else e1000LinkUp { w.dev with linkDown := down }) = d
  obtain ⟨hdown, hup, hreg⟩ := hlink d hd.symm
  split_ifs
  · have hk := setIcs_linkKeeps { w with dev := d } icrLsc
    refine ⟨hk.linkDown.trans hdown, hk.linkUp.trans hup, fun i hi => ?_,
      setInterruptCause_pinsOnly { w with dev := d } _⟩
    simp only [List.mem_cons, List.not_mem_nil, or_false, not_or] at hi
    rw [setIcs, (setInterruptCause_frame { w with dev := d } _).reg i (by simp [hi])]
    exact hreg i hi.1
  · exact ⟨hdown, hup, fun i hi => hreg i (by simp at hi; exact hi.1), [], by simp, rfl⟩

theorem e1000AutonegTimer_spec (w : World) :
    (e1000AutonegTimer w).dev.linkDown = w.dev.linkDown ∧
      (e1000AutonegTimer w).dev.linkUp = (w.dev.linkUp || !w.dev.linkDown) ∧
      (∀ i, i ≠ Reg.status → (e1000AutonegTimer w).reg i = w.reg i) ∧
      (e1000AutonegTimer w).log = w.log := by
  simp only [e1000AutonegTimer]
  split_ifs with hdown
  · refine ⟨rfl, ?_, fun i _ => rfl, trivial⟩
    rw [show w.dev.linkDown = true from hdown, Bool.not_true, Bool.or_false]
    rfl
  · refine ⟨rfl, ?_, fun i hi => Function.update_of_ne hi _ _, trivial⟩
    rw [show w.dev.linkDown = false from by simpa using hdown, Bool.not_false, Bool.or_true]
    exact linkUp_e1000LinkUp { w.dev with autonegTimer := false }

theorem e1000Reset_linkDown (w : World) : (e1000Reset w).dev.linkDown = w.dev.linkDown := by
  simp only [e1000Reset, World.dev_emit, World.dev_setReg]
  split_ifs <;> rfl

theorem e1000Reset_linkUp (w : World) : (e1000Reset w).dev.linkUp = !w.dev.linkDown := by
  have hra : Reg.status ≠ Reg.ra := by decide
  have hra' : Reg.status ≠ Reg.ra + 1 := by decide
  simp only [E1000State.linkUp, e1000Reset, World.dev_emit, World.dev_setReg,
    Function.update_of_ne hra, Function.update_of_ne hra']
  split_ifs with hdown
  · rw [hdown]
    exact linkUp_e1000LinkDown _
  · rw [show w.dev.linkDown = false from by simpa using hdown]
    exact (by decide : test (macRegInit Reg.status) statusLu = true)

theorem runWriteOp_link {fuel : Nat} {op : WriteOp} {w w' : World} {index : Nat} {val : U32}
    (hop : macregWriteops index = some op) (h : runWriteOp fuel op w index val = .ok w') :
    LinkEffect w.dev w'.dev := by
  have hne : index ≠ Reg.status := by
    rintro rfl
    rw [show macregWriteops Reg.status = none from rfl] at hop
    cases hop
  cases op with
  | setMdic => cases h; exact setMdic_link w val
  | setTctl =>
      have hwrite : LinkKeeps w.dev ((w.setReg index val).setReg Reg.tdt
          ((w.setReg index val).reg Reg.tdt &&& 0xffff#32)).dev :=
        (LinkKeeps.setReg w val hne).trans (.setReg _ _ (by decide))
      exact .keeps (hwrite.trans (.of_frame (startXmit_frame h) (by decide)))
  | macWritereg =>
      cases h
      refine .keeps ?_
      simp only [macWritereg]
      split_ifs <;> exact .setReg w val hne
  | setRdt =>
      cases h
      refine .keeps ?_
      simp only [setRdt]
      split_ifs <;> exact .setReg w _ hne
  | setRxControl =>
      cases h
      have hk := LinkKeeps.setReg w (i := Reg.rctl) val (by decide)
      exact .keeps ⟨rfl, hk.status, rfl⟩
  | setCtrl => cases h; exact .keeps (.setReg w _ (by decide))
  | setDlen => cases h; exact .keeps (.setReg w _ hne)
  | set16bit => cases h; exact .keeps (.setReg w _ hne)
  | setIcs => cases h; exact .keeps (setIcs_linkKeeps w val)
  | setImc =>
      cases h
      exact .keeps ((LinkKeeps.setReg w _ (by decide)).trans (setIcs_linkKeeps _ 0))
  | setIms =>
      cases h
      exact .keeps ((LinkKeeps.setReg w _ (by decide)).trans (setIcs_linkKeeps _ 0))
  | setIcr =>
      cases h
      exact .keeps (.of_frame (setInterruptCause_frame w _) (by decide))
  | setEecd => cases h; exact .keeps ⟨rfl, rfl, rfl⟩

theorem runReadOp_link {op : ReadOp} (w : World) {index : Nat}
    (hop : macregReadops index = some op) :
    LinkKeeps w.dev (runReadOp op w index).1.dev := by
  cases op with
  | macReadreg => exact .refl _
  | macReadClr4 =>
      refine .setReg w 0 ?_
      rintro rfl
      rw [show macregReadops Reg.status = some .macReadreg from rfl] at hop
      cases hop
  | macReadClr8 =>
      rcases eq_of_macReadClr8 hop with rfl | rfl <;>
        exact (LinkKeeps.setReg w 0 (by decide)).trans (.setReg _ 0 (by decide))
  | macIcrRead => exact .of_frame (setInterruptCause_frame w 0) (by decide)
  | getEecd => exact .refl _
  | flashEerdRead => exact .refl _

theorem e1000MmioRead_link (w : World) (addr : U64) :
    LinkKeeps w.dev (e1000MmioRead w addr).1.dev := by
  rw [e1000MmioRead]
  split
  · next op hop => exact runReadOp_link w hop
  · exact .refl _

theorem step_link {fuel : Nat} {w w' : World} {op : Op} {reply : Reply}
    (h : step fuel w op = .ok (w', reply)) : LinkEffect w.dev w'.dev := by
  cases op with
  | mmioRead addr =>
      cases h
      exact .keeps (e1000MmioRead_link w addr)
  | mmioWrite addr val =>
      obtain ⟨w₁, hw, h⟩ := Run.bind_eq_ok.mp h
      cases h
      rw [e1000MmioWrite] at hw
      split at hw
      · next op hop => exact runWriteOp_link hop hw
      · cases hw
        exact .keeps (.refl _)
  | receive iov =>
      obtain ⟨r, hr, h⟩ := Run.bind_eq_ok.mp h
      cases h
      exact .keeps (.of_frame (e1000ReceiveIov_frame hr).1 (by decide))
  | linkStatus down =>
      cases h
      obtain ⟨hdown, hup, -⟩ := e1000SetLinkStatus_spec w down
      exact .status (by rw [hup, hdown])
  | autonegTimer =>
      cases h
      obtain ⟨hdown, hup, -⟩ := e1000AutonegTimer_spec w
      exact .expired hdown hup
  | mitTimer => cases h; exact .keeps (e1000MitTimer_linkKeeps w)
  | preSave => cases h; exact .keeps (e1000PreSave_linkKeeps w)
  | reset =>
      cases h
      exact .status (by rw [e1000Reset_linkUp, e1000Reset_linkDown])
  | guestStore mem => cases h; exact .keeps (.refl _)

/-! ## Where the link stands in a reachable device -/

structure LinkInv (s : E1000State) : Prop where
  down : s.linkDown = true → s.linkUp = false
  negotiating : s.linkDown = false → s.linkUp = false → s.autonegTimer = true

theorem LinkInv.of_status {s : E1000State} (hup : s.linkUp = !s.linkDown) : LinkInv s := by
  refine ⟨fun h => by rw [hup, h]; rfl, fun h hno => ?_⟩
  rw [hup, h] at hno
  cases hno

theorem LinkInv.of_effect {s s' : E1000State} (h : LinkEffect s s') (hs : LinkInv s) :
    LinkInv s' := by
  cases h with
  | keeps hk =>
      refine ⟨?_, ?_⟩
      · rw [hk.linkDown, hk.linkUp]
        exact hs.down
      · rw [hk.linkDown, hk.linkUp, hk.autonegTimer]
        exact hs.negotiating
  | restart hdown hup htimer => exact ⟨fun _ => hup, fun _ _ => htimer⟩
  | status hup => exact .of_status hup
  | expired hdown hup =>
      refine ⟨fun h => ?_, fun h hno => ?_⟩
      · rw [hdown] at h
        rw [hup, h, hs.down h]
        rfl
      · rw [hdown] at h
        rw [hup, h, Bool.not_false, Bool.or_true] at hno
        cases hno

theorem SinceReset.linkInv {w : World} (h : SinceReset w) : LinkInv w.dev := by
  refine SinceReset.invariant (fun w => LinkInv w.dev) ?_ ?_ h
  · exact fun w => .of_status (by rw [e1000Reset_linkUp, e1000Reset_linkDown])
  · exact fun fuel w op w' reply hinv hs => .of_effect (step_link hs) hinv

theorem Reachable.linkInv {w : World} (h : Reachable w) : LinkInv w.dev := h.sinceReset.linkInv

end SE4VM.E1000
