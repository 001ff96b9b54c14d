import SE4VM.E1000.Reach
import SE4VM.E1000.SegmentCalls
import SE4VM.E1000.TransmitRing

/-!
# Ranges of the registers

The write handlers cut a value to the width of its register.  The loops advance
the two heads by a rule of their own, which stays below the bound because the
ring lengths do.  What `set_rx_control` derives from `RCTL` is kept in step with
it, across resets as well.
-/

namespace SE4VM.E1000

open SE4VM.Foundation

/-! ## Values a register may hold -/

def wordRegs : List Nat :=
  [Reg.tdh, Reg.tdt, Reg.rdh, Reg.rdt, Reg.rdtr, Reg.radv, Reg.tadv, Reg.itr]

def lengthRegs : List Nat := [Reg.tdlen, Reg.rdlen]

def rangedRegs : List Nat := Reg.ctrl :: lengthRegs ++ wordRegs

def InRange (i : Nat) (v : U32) : Prop :=
  (i ∈ wordRegs → v.toNat < 2 ^ 16) ∧ (i ∈ lengthRegs → v &&& 0xfff80#32 = v) ∧
    (i = Reg.ctrl → test v ctrlRst = false)

instance (i : Nat) (v : U32) : Decidable (InRange i v) :=
  inferInstanceAs (Decidable (_ ∧ _ ∧ _))

theorem inRange_of_notMem {i : Nat} (h : i ∉ rangedRegs) (v : U32) : InRange i v := by
  simp only [rangedRegs, List.cons_append, List.mem_cons, List.mem_append, not_or] at h
  exact ⟨fun hi => absurd hi h.2.2, fun hi => absurd hi h.2.1, fun hi => absurd hi h.1⟩

theorem inRange_zero (i : Nat) : InRange i 0 :=
  ⟨fun _ => by decide, fun _ => rfl, fun _ => rfl⟩

theorem inRange_word {i : Nat} (hi : i ∉ Reg.ctrl :: lengthRegs) {v : U32}
    (hv : v.toNat < 2 ^ 16) : InRange i v := by
  rw [List.mem_cons, not_or] at hi
  exact ⟨fun _ => hv, fun h => absurd h hi.2, fun h => absurd h hi.1⟩

theorem toNat_and_wordMask_lt (v : U32) : (v &&& 0xffff#32).toNat < 2 ^ 16 := by
  rw [BitVec.toNat_and]
  exact Nat.lt_succ_of_le Nat.and_le_right

theorem inRange_length {i : Nat} (hi : i ∉ Reg.ctrl :: wordRegs) (v : U32) :
    InRange i (v &&& 0xfff80#32) := by
  rw [List.mem_cons, not_or] at hi
  exact ⟨fun h => absurd h hi.2, fun _ => by rw [BitVec.and_assoc, BitVec.and_self],
    fun h => absurd h hi.1⟩

theorem ringNext_lt {len : U32} (hlen : len &&& 0xfff80#32 = len) (head : U32) :
    (ringNext len head).toNat < 2 ^ 16 := by
  have hle : len.toNat ≤ 0xfff80 := by
    rw [← hlen, BitVec.toNat_and]
    exact Nat.and_le_right
  rw [toNat_ringNext]
  refine lt_of_lt_of_le (ringSucc_lt (slots_pos len) _) ?_
  simp only [slots, descBytes]
  omega

/-! ## The invariant -/

structure Ranged (s : E1000State) : Prop where
  reg : ∀ i, InRange i (s.macReg i)
  minShift : s.rxbufMinShift = ((s.macReg Reg.rctl / rctlRdmtsQuat) &&& 3#32) + 1

namespace Ranged

variable {s s' : E1000State} {w w' : World}

theorem of_eq (h : Ranged s) (hreg : s'.macReg = s.macReg)
    (hshift : s'.rxbufMinShift = s.rxbufMinShift) : Ranged s' := by
  refine ⟨?_, ?_⟩
  · rw [hreg]
    exact h.reg
  · rw [hreg, hshift]
    exact h.minShift

theorem of_update (h : Ranged s) {j : Nat} {v : U32} (hj : j ≠ Reg.rctl) (hv : InRange j v)
    (hreg : s'.macReg = Function.update s.macReg j v)
    (hshift : s'.rxbufMinShift = s.rxbufMinShift) : Ranged s' := by
  refine ⟨fun i => ?_, ?_⟩
  · rw [hreg]
    by_cases hij : i = j
    · subst hij
      rw [Function.update_self]
      exact hv
    · rw [Function.update_of_ne hij]
      exact h.reg i
  · rw [hreg, hshift, Function.update_of_ne (Ne.symm hj)]
    exact h.minShift

theorem setReg (h : Ranged w.dev) {i : Nat} {v : U32} (hi : i ≠ Reg.rctl) (hv : InRange i v) :
    Ranged (w.setReg i v).dev :=
  h.of_update hi hv rfl rfl

theorem setReg_free (h : Ranged w.dev) {i : Nat} (hi : i ∉ Reg.rctl :: rangedRegs) (v : U32) :
    Ranged (w.setReg i v).dev := by
  rw [List.mem_cons, not_or] at hi
  exact h.setReg hi.1 (inRange_of_notMem hi.2 v)

theorem of_frame (h : Ranged w.dev) {regs : List Nat} {ev : Event → Bool}
    (hf : Frame regs ev w w') (hrctl : Reg.rctl ∉ regs)
    (hregs : ∀ i ∈ regs, InRange i (w'.reg i)) : Ranged w'.dev := by
  refine ⟨fun i => ?_, ?_⟩
  · by_cases hi : i ∈ regs
    · exact hregs i hi
    · have hreg : w'.dev.macReg i = w.dev.macReg i := hf.reg i hi
      rw [hreg]
      exact h.reg i
  · have hreg : w'.dev.macReg Reg.rctl = w.dev.macReg Reg.rctl := hf.reg _ hrctl
    have hshift : w'.dev.rxbufMinShift = w.dev.rxbufMinShift :=
      congrArg Rest.rxbufMinShift hf.rest
    rw [hreg, hshift]
    exact h.minShift

end Ranged

theorem e1000Reset_ranged (w : World) : Ranged (e1000Reset w).dev := by
  have hinit : ∀ i ∈ rangedRegs, (i ≠ Reg.ra ∧ i ≠ Reg.ra + 1 ∧ i ≠ Reg.status) ∧
      InRange i (macRegInit i) := by decide
  refine ⟨fun i => ?_, ?_⟩
  · by_cases hi : i ∈ rangedRegs
    · obtain ⟨⟨hra, hra', hst⟩, hrange⟩ := hinit i hi
      rw [e1000Reset_macReg w hra hra' hst]
      exact hrange
    · exact inRange_of_notMem hi _
  · rw [e1000Reset_macReg w (by decide) (by decide) (by decide)]
    simp only [e1000Reset, World.dev_emit, World.dev_setReg]
    split_ifs <;> rfl

/-! ## The heads -/

/-- The head is where it was, or where the ring's own step has put it. -/
def HeadMoves (len head : Nat) (w w' : World) : Prop :=
  w'.reg len = w.reg len ∧
    (w'.reg head = w.reg head ∨ ∃ v, w'.reg head = ringNext (w.reg len) v)

namespace HeadMoves

variable {len head : Nat} {w w' w'' : World}

theorem of_eq (hlen : w'.reg len = w.reg len) (hhead : w'.reg head = w.reg head) :
    HeadMoves len head w w' := ⟨hlen, .inl hhead⟩

theorem trans (h : HeadMoves len head w w') (h' : HeadMoves len head w' w'') :
    HeadMoves len head w w'' := by
  refine ⟨h'.1.trans h.1, ?_⟩
  rcases h'.2 with heq | ⟨v, hv⟩
  · rw [heq]
    exact h.2
  · exact .inr ⟨v, by rw [hv, h.1]⟩

theorem inRange (h : HeadMoves len head w w') (hw : Ranged w.dev) (hlen : len ∈ lengthRegs)
    (hhead : head ∉ Reg.ctrl :: lengthRegs) : InRange head (w'.reg head) := by
  rcases h.2 with heq | ⟨v, hv⟩
  · rw [heq]
    exact hw.reg head
  · rw [hv]
    exact inRange_word hhead (ringNext_lt ((hw.reg len).2.1 hlen) v)

end HeadMoves

theorem setIcs_headMoves (w : World) (val : U32) :
    HeadMoves Reg.rdlen Reg.rdh w (setIcs w val) :=
  .of_eq ((setInterruptCause_frame w _).reg _ (by decide))
    ((setInterruptCause_frame w _).reg _ (by decide))

theorem rxLoop_headMoves {p : RxParams} {fuel : Nat} {st : RxLoop} {r : Bool × World}
    (h : loop (rxBody p) fuel st = .ok r) : HeadMoves Reg.rdlen Reg.rdh st.world r.2 := by
  have hstep : ∀ {s s₁ : RxLoop}, rxStore p s = .ok s₁ →
      HeadMoves Reg.rdlen Reg.rdh st.world s.world →
      HeadMoves Reg.rdlen Reg.rdh st.world (s₁.world.setReg Reg.rdh
        (ringNext (s.world.reg Reg.rdlen) (s.world.reg Reg.rdh))) := by
    intro s s₁ hstore hs
    have hlen : s₁.world.reg Reg.rdlen = s.world.reg Reg.rdlen := by
      rw [World.reg, (rxStore_frame hstore).2, World.reg]
    refine hs.trans ⟨?_, .inr ⟨s.world.reg Reg.rdh, World.reg_setReg_self _ _ _⟩⟩
    rw [World.reg_setReg_of_ne _ _ _ _ (by decide), hlen]
  refine loop_invariant (fun s => HeadMoves Reg.rdlen Reg.rdh st.world s.world)
    (fun r => HeadMoves Reg.rdlen Reg.rdh st.world r.2) ?_ ?_ (.of_eq rfl rfl) h
  · intro s s' hs hb
    obtain ⟨s₁, hstore, ⟨-, hr⟩ | ⟨-, -, hr⟩ | ⟨-, -, hr⟩⟩ := rxBody_cases hb <;> cases hr
    exact hstep hstore hs
  · intro s r hs hb
    obtain ⟨s₁, hstore, ⟨-, hr⟩ | ⟨-, -, hr⟩ | ⟨-, -, hr⟩⟩ := rxBody_cases hb <;> cases hr
    · exact hstep hstore hs
    · exact hstep hstore hs

theorem receiveDone_headMoves (w : World) (size : Nat) :
    HeadMoves Reg.rdlen Reg.rdh w (receiveDone w size) := by
  have hcount : HeadMoves Reg.rdlen Reg.rdh w { w with dev := countReceived w.dev size } :=
    .of_eq (countReceived_macReg _ _ (by decide)) (countReceived_macReg _ _ (by decide))
  exact hcount.trans (setIcs_headMoves _ _)

theorem storePacket_headMoves {fuel : Nat} {w : World} {p : RxPacket} {r : Received}
    (h : storePacket fuel w p = .ok r) : HeadMoves Reg.rdlen Reg.rdh w r.world := by
  simp only [storePacket] at h
  split_ifs at h
  · obtain ⟨⟨wrapped, w₁⟩, hloop, hr⟩ := Run.bind_eq_ok.mp h
    have hmoves : HeadMoves Reg.rdlen Reg.rdh w w₁ := rxLoop_headMoves hloop
    dsimp only at hr
    split_ifs at hr
    · cases hr
      exact hmoves.trans (setIcs_headMoves _ _)
    · cases hr
      exact hmoves.trans (receiveDone_headMoves _ _)
  · cases h
    exact setIcs_headMoves _ _

theorem e1000ReceiveIov_headMoves {fuel : Nat} {w : World} {iov : Iov} {r : Received}
    (h : e1000ReceiveIov fuel w iov = .ok r) : HeadMoves Reg.rdlen Reg.rdh w r.world := by
  simp only [e1000ReceiveIov] at h
  split_ifs at h
  · cases h
    exact .of_eq rfl rfl
  · cases h
    exact .of_eq rfl rfl
  · obtain ⟨hd, -, h⟩ := Run.bind_eq_ok.mp h
    split_ifs at h
    · cases h
      exact .of_eq rfl rfl
    · cases h
      exact .of_eq rfl rfl
    · obtain ⟨p, -, h⟩ := Run.bind_eq_ok.mp h
      exact storePacket_headMoves h

theorem headMoves_of_regs {w w' : World}
    (h : ∀ i ∈ [Reg.rdlen, Reg.rdh], w'.reg i = w.reg i) : HeadMoves Reg.rdlen Reg.rdh w w' :=
  .of_eq (h _ (by simp)) (h _ (by simp))

theorem headMoves_segRule : SegRule (HeadMoves Reg.rdlen Reg.rdh) :=
  .of_regs [Reg.rdlen, Reg.rdh] (by decide) headMoves_of_regs .trans e1000ReceiveIov_headMoves

theorem headMoves_txRule (fuel : Nat) :
    TxRule fuel fun w _ w' => HeadMoves Reg.rdlen Reg.rdh w w' :=
  .of_regs [Reg.rdlen, Reg.rdh] (by decide) headMoves_of_regs .trans headMoves_segRule.xmitSeg

theorem xmitLoop_headMoves {tdhStart : U32} {fuel : Nat} {st st' : XmitLoop}
    (h : loop (xmitBody tdhStart fuel) fuel st = .ok st') :
    HeadMoves Reg.tdlen Reg.tdh st.world st'.world := by
  have hstep : ∀ {s : XmitLoop} {r : Step XmitLoop XmitLoop} {s' : XmitLoop},
      xmitBody tdhStart fuel s = .ok r → r = .next s' ∨ r = .done s' →
      HeadMoves Reg.tdlen Reg.tdh s.world s'.world := by
    intro s r s' hb hr
    rcases xmitBody_cases hb with ⟨-, rfl⟩ | ⟨-, s₁, hadv, rfl⟩
    · rcases hr with hr | hr <;> cases hr
      exact .of_eq rfl rfl
    · have hs : s' = s₁ := by
        simp only [xmitNext] at hr
        split_ifs at hr <;> rcases hr with hr | hr <;> cases hr <;> rfl
      subst hs
      exact ⟨hadv.tdlen, .inr ⟨_, hadv.tdh⟩⟩
  refine loop_invariant (fun s => HeadMoves Reg.tdlen Reg.tdh st.world s.world)
    (fun s => HeadMoves Reg.tdlen Reg.tdh st.world s.world) ?_ ?_ (.of_eq rfl rfl) h
  · exact fun s s' hs hb => hs.trans (hstep hb (.inl rfl))
  · exact fun s s' hs hb => hs.trans (hstep hb (.inr rfl))

/-! ## What each event keeps -/

theorem setInterruptCause_ranged {w : World} (h : Ranged w.dev) (val : U32) :
    Ranged (setInterruptCause w val).dev :=
  h.of_frame (setInterruptCause_frame w val) (by decide) fun _ hi =>
    inRange_of_notMem ((by decide : ∀ i ∈ [Reg.icr, Reg.ics], i ∉ rangedRegs) _ hi) _

theorem setIcs_ranged {w : World} (h : Ranged w.dev) (val : U32) : Ranged (setIcs w val).dev :=
  setInterruptCause_ranged h _

theorem e1000ReceiveIov_ranged {fuel : Nat} {w : World} {iov : Iov} {r : Received}
    (hw : Ranged w.dev) (h : e1000ReceiveIov fuel w iov = .ok r) : Ranged r.world.dev := by
  refine hw.of_frame (e1000ReceiveIov_frame h).1 (by decide) fun i hi => ?_
  rcases (by decide : ∀ i ∈ rxRegs, i = Reg.rdh ∨ i ∉ rangedRegs) i hi with rfl | hfree
  · exact (e1000ReceiveIov_headMoves h).inRange hw (by decide) (by decide)
  · exact inRange_of_notMem hfree _

theorem startXmit_ranged {fuel : Nat} {w w' : World} (hw : Ranged w.dev)
    (h : startXmit fuel w = .ok w') : Ranged w'.dev := by
  rcases (headMoves_txRule fuel).startXmit h with ⟨-, rfl⟩ | ⟨-, st, hloop, hrdh, rfl⟩
  · exact hw
  · have hics : ∀ i ∉ [Reg.icr, Reg.ics], (setIcs st.world st.cause).reg i = st.world.reg i :=
      (setInterruptCause_frame st.world _).reg
    refine hw.of_frame (startXmit_frame h) (by decide) fun i hi => ?_
    rcases (by decide : ∀ i ∈ Reg.tdh :: txRegs, i = Reg.tdh ∨ i = Reg.rdh ∨ i ∉ rangedRegs)
      i hi with rfl | rfl | hfree
    · rw [hics _ (by decide)]
      exact (xmitLoop_headMoves hloop).inRange hw (by decide) (by decide)
    · rw [hics _ (by decide)]
      exact hrdh.inRange hw (by decide) (by decide)
    · exact inRange_of_notMem hfree _

theorem mdicCommand_ranged {w : World} (h : Ranged w.dev) (val : U32) :
    Ranged (mdicCommand w val).2.dev := by
  have hdown : Ranged (e1000LinkDown w.dev) :=
    h.of_update (by decide) (inRange_of_notMem (by decide : Reg.status ∉ rangedRegs) _) rfl rfl
  simp only [mdicCommand, setPhyCtrl]
  split_ifs
  all_goals
    first
    | exact h
    | exact h.of_eq rfl rfl
    | exact hdown.of_eq rfl rfl

theorem setMdic_ranged {w : World} (h : Ranged w.dev) (val : U32) :
    Ranged (setMdic w val).dev := by
  have hmdic := (mdicCommand_ranged h val).setReg_free
    (by decide : Reg.mdic ∉ Reg.rctl :: rangedRegs) ((mdicCommand w val).1 ||| mdicReady)
  simp only [setMdic]
  split_ifs
  · exact setIcs_ranged hmdic _
  · exact hmdic

/-- `set_tctl` stores the whole value first; for `TDT` the mask follows before anything runs. -/
theorem setTctl_ranged {fuel : Nat} {w w' : World} {index : Nat} {val : U32}
    (hw : Ranged w.dev) (hindex : index ∉ Reg.rctl :: rangedRegs.erase Reg.tdt)
    (h : setTctl fuel w index val = .ok w') : Ranged w'.dev := by
  rw [List.mem_cons, not_or] at hindex
  refine startXmit_ranged ⟨fun i => ?_, ?_⟩ h
  · by_cases htdt : i = Reg.tdt
    · subst htdt
      simp only [World.dev_setReg, Function.update_self]
      exact inRange_word (by decide) (toNat_and_wordMask_lt _)
    · simp only [World.dev_setReg, Function.update_of_ne htdt]
      by_cases hi : i = index
      · subst hi
        rw [Function.update_self]
        refine inRange_of_notMem (fun hmem => hindex.2 ?_) val
        exact (List.mem_erase_of_ne htdt).mpr hmem
      · rw [Function.update_of_ne hi]
        exact hw.reg i
  · have htdt : Reg.rctl ≠ Reg.tdt := by decide
    simp only [World.dev_setReg, Function.update_of_ne htdt,
      Function.update_of_ne (Ne.symm hindex.1)]
    exact hw.minShift

theorem runReadOp_ranged {op : ReadOp} {w : World} {index : Nat} (h : Ranged w.dev)
    (hop : macregReadops index = some op) : Ranged (runReadOp op w index).1.dev := by
  cases op with
  | macReadreg => exact h
  | macReadClr4 =>
      refine h.setReg ?_ (inRange_zero _)
      rintro rfl
      rw [show macregReadops Reg.rctl = some .macReadreg from rfl] at hop
      cases hop
  | macReadClr8 =>
      have hne : index ≠ Reg.rctl ∧ index - 1 ≠ Reg.rctl := by
        rcases eq_of_macReadClr8 hop with rfl | rfl <;> decide
      exact (h.setReg hne.1 (inRange_zero _)).setReg hne.2 (inRange_zero _)
  | macIcrRead => exact setInterruptCause_ranged h 0
  | getEecd => exact h
  | flashEerdRead => exact h

theorem runWriteOp_ranged {fuel : Nat} {op : WriteOp} {w w' : World} {index : Nat} {val : U32}
    (hw : Ranged w.dev) (hop : macregWriteops index = some op)
    (h : runWriteOp fuel op w index val = .ok w') : Ranged w'.dev := by
  have hnot : ∀ {regs : List Nat}, (∀ i ∈ regs, macregWriteops i ≠ some op) → index ∉ regs :=
    notMem_of_macregWriteops hop
  have hrctl : (∀ i ∈ [Reg.rctl], macregWriteops i ≠ some op) → index ≠ Reg.rctl :=
    fun hne => by simpa using hnot hne
  cases op with
  | macWritereg =>
      cases h
      have hset := hw.setReg_free (hnot (by decide)) val
      simp only [macWritereg]
      split_ifs <;> exact hset
  | setDlen =>
      cases h
      exact hw.setReg (hrctl (by decide)) (inRange_length (hnot (by decide)) val)
  | setTctl => exact setTctl_ranged hw (hnot (by decide)) h
  | setMdic => cases h; exact setMdic_ranged hw val
  | setIcs => cases h; exact setIcs_ranged hw val
  | set16bit =>
      cases h
      exact hw.setReg (hrctl (by decide))
        (inRange_word (hnot (by decide)) (toNat_and_wordMask_lt val))
  | setRdt =>
      cases h
      have hset := hw.setReg (hrctl (by decide))
        (inRange_word (hnot (by decide)) (toNat_and_wordMask_lt val))
      simp only [setRdt]
      split_ifs <;> exact hset
  | setImc => cases h; exact setIcs_ranged (hw.setReg_free (by decide) _) 0
  | setIms => cases h; exact setIcs_ranged (hw.setReg_free (by decide) _) 0
  | setIcr => cases h; exact setInterruptCause_ranged hw _
  | setEecd => cases h; exact hw.of_eq rfl rfl
  | setRxControl =>
      cases h
      have hset : ∀ i, InRange i (Function.update w.dev.macReg Reg.rctl val i) := by
        intro i
        by_cases hi : i = Reg.rctl
        · exact inRange_of_notMem (by rw [hi]; decide) _
        · rw [Function.update_of_ne hi]
          exact hw.reg i
      refine ⟨hset, ?_⟩
      simp only [setRxControl, World.dev_emit, World.dev_setReg, Function.update_self]
  | setCtrl =>
      cases h
      exact hw.setReg (by decide)
        ⟨fun hmem => absurd hmem (by decide), fun hmem => absurd hmem (by decide),
          fun _ => test_and_not _ _⟩

theorem e1000SetLinkStatus_ranged {w : World} (h : Ranged w.dev) (down : Bool) :
    Ranged (e1000SetLinkStatus w down).dev := by
  have hlink : Ranged (if down then e1000LinkDown { w.dev with linkDown := down }
      else e1000LinkUp { w.dev with linkDown := down }) := by
    cases down <;> exact h.of_update (by decide)
      (inRange_of_notMem (by decide : Reg.status ∉ rangedRegs) _) rfl rfl
  simp only [e1000SetLinkStatus]
  generalize (if down then e1000LinkDown { w.dev with linkDown := down }
      else e1000LinkUp { w.dev with linkDown := down }) = d at *
  split_ifs
  · exact setIcs_ranged (w := { w with dev := d }) hlink _
  · exact hlink

theorem e1000AutonegTimer_ranged {w : World} (h : Ranged w.dev) :
    Ranged (e1000AutonegTimer w).dev := by
  simp only [e1000AutonegTimer]
  split_ifs
  · exact h.of_eq rfl rfl
  · exact h.of_update (by decide) (inRange_of_notMem (by decide : Reg.status ∉ rangedRegs) _)
      rfl rfl

theorem e1000MitTimer_ranged {w : World} (h : Ranged w.dev) : Ranged (e1000MitTimer w).dev :=
  setInterruptCause_ranged (w := { w with dev := { w.dev with mitTimerOn := false } })
    (h.of_eq rfl rfl) _

theorem e1000PreSave_ranged {w : World} (h : Ranged w.dev) : Ranged (e1000PreSave w).dev := by
  have hflush : Ranged (if w.dev.mitTimerOn then e1000MitTimer w else w).dev := by
    split_ifs
    · exact e1000MitTimer_ranged h
    · exact h
  simp only [e1000PreSave]
  generalize (if w.dev.mitTimerOn then e1000MitTimer w else w) = w₁ at *
  split_ifs
  · exact hflush.of_eq rfl rfl
  · exact hflush

theorem step_ranged {fuel : Nat} {w w' : World} {op : Op} {reply : Reply} (hw : Ranged w.dev)
    (h : step fuel w op = .ok (w', reply)) : Ranged w'.dev := by
  cases op with
  | mmioRead addr =>
      have hread : Ranged (e1000MmioRead w addr).1.dev := by
        rw [e1000MmioRead]
        split
        · next op hop => exact runReadOp_ranged hw hop
        · exact hw
      cases h
      exact hread
  | mmioWrite addr val =>
      obtain ⟨w₁, hwrite, h⟩ := Run.bind_eq_ok.mp h
      cases h
      rw [e1000MmioWrite] at hwrite
      split at hwrite
      · next op hop => exact runWriteOp_ranged hw hop hwrite
      · cases hwrite
        exact hw
  | receive iov =>
      obtain ⟨r, hr, h⟩ := Run.bind_eq_ok.mp h
      cases h
      exact e1000ReceiveIov_ranged hw hr
  | linkStatus down => cases h; exact e1000SetLinkStatus_ranged hw down
  | autonegTimer => cases h; exact e1000AutonegTimer_ranged hw
  | mitTimer => cases h; exact e1000MitTimer_ranged hw
  | preSave => cases h; exact e1000PreSave_ranged hw
  | reset => cases h; exact e1000Reset_ranged w
  | guestStore mem => cases h; exact hw

theorem SinceReset.ranged {w : World} (h : SinceReset w) : Ranged w.dev :=
  SinceReset.invariant (fun w => Ranged w.dev) e1000Reset_ranged
    (fun _ _ _ _ _ hw hs => step_ranged hw hs) h

/-! ## The ranges of a device since its reset -/

theorem toNat_and_dlenMask_mod_128 (v : U32) : (v &&& 0xfff80#32).toNat % 128 = 0 := by
  have hlow : (v &&& 0xfff80#32) &&& 0x7f#32 = 0#32 := by
    rw [BitVec.and_assoc]
    exact BitVec.and_zero
  have hmod := congrArg BitVec.toNat hlow
  rw [BitVec.toNat_and, BitVec.toNat_ofNat, BitVec.toNat_ofNat] at hmod
  exact (Nat.and_two_pow_sub_one_eq_mod _ 7).symm.trans hmod

theorem registers_in_range {w : World} (h : SinceReset w) :
    (∀ i ∈ [Reg.tdh, Reg.tdt, Reg.rdh, Reg.rdt, Reg.rdtr, Reg.radv, Reg.tadv, Reg.itr],
      (w.reg i).toNat < 2 ^ 16) ∧
    (∀ i ∈ [Reg.tdlen, Reg.rdlen], (w.reg i).toNat % 128 = 0 ∧ (w.reg i).toNat < 2 ^ 20) ∧
    test (w.reg Reg.ctrl) ctrlRst = false ∧
    (test (w.reg Reg.rctl) rctlEn = true →
      w.dev.rxbufSize.toNat = rxbufsize (w.reg Reg.rctl) ∧ 0 < rxbufsize (w.reg Reg.rctl)) ∧
    w.dev.rxbufMinShift = ((w.reg Reg.rctl / rctlRdmtsQuat) &&& 3#32) + 1 := by
  have hranged := h.ranged
  refine ⟨fun i hi => (hranged.reg i).1 hi, fun i hi => ?_, (hranged.reg _).2.2 rfl,
    fun hen => ⟨h.regInv.toNat_rxbufSize hen, rxbufsize_pos _⟩, hranged.minShift⟩
  have hmask : w.reg i &&& 0xfff80#32 = w.reg i := (hranged.reg i).2.1 hi
  have hle : (w.reg i).toNat ≤ 0xfff80 := by
    rw [← hmask, BitVec.toNat_and]
    exact Nat.and_le_right
  refine ⟨?_, by omega⟩
  rw [← hmask]
  exact toNat_and_dlenMask_mod_128 _

theorem registers_in_range_rxReady :
    ((rxReady 0x30302 0xfffff 0x1ffff 0x20003 Memory.blank).reg Reg.rdh).toNat < 2 ^ 16 ∧
      (rxReady 0x30302 0xfffff 0x1ffff 0x20003 Memory.blank).dev.rxbufSize.toNat =
        rxbufsize 0x30302 := by
  have h := registers_in_range
    (reachable_rxReady 0x30302 0xfffff 0x1ffff 0x20003 Memory.blank).sinceReset
  exact ⟨h.1 Reg.rdh (by decide), (h.2.2.2.1 (by decide)).1⟩

end SE4VM.E1000
