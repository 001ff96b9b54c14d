import SE4VM.E1000.Device

/-!
# Frame conditions and fuel

What reception and transmission leave alone: all registers outside a short
list, every device field besides registers, `tx` and the mitigation
bookkeeping, and the older part of the log.  Every operation that takes fuel is
shown to only gain answers from more of it.
-/

namespace SE4VM.E1000

open SE4VM.Foundation

/-! ## Frames -/

/-- The device fields that neither receiving nor transmitting ever writes. -/
structure Rest where
  macaddr : Buffer
  linkDown : Bool
  phyReg : Nat → U16
  eepromData : Nat → U16
  rxbufSize : U32
  rxbufMinShift : U32
  eecdState : EecdState
  autonegTimer : Bool
  compatFlags : U32

def E1000State.rest (s : E1000State) : Rest :=
  ⟨s.macaddr, s.linkDown, s.phyReg, s.eepromData, s.rxbufSize, s.rxbufMinShift,
    s.eecdState, s.autonegTimer, s.compatFlags⟩

/-- `ICR` and its copy `ICS` have not changed, or agree after the change. -/
def CausesAgree (s s' : E1000State) : Prop :=
  (s'.macReg Reg.icr = s.macReg Reg.icr ∧ s'.macReg Reg.ics = s.macReg Reg.ics) ∨
    s'.macReg Reg.ics = s'.macReg Reg.icr

namespace CausesAgree

variable {s s' s'' : E1000State}

theorem refl (s : E1000State) : CausesAgree s s := .inl ⟨rfl, rfl⟩

theorem trans (h : CausesAgree s s') (h' : CausesAgree s' s'') : CausesAgree s s'' := by
  rcases h' with ⟨hicr, hics⟩ | h'
  · rcases h with h | h
    · exact .inl ⟨hicr.trans h.1, hics.trans h.2⟩
    · exact .inr (by rw [hics, hicr, h])
  · exact .inr h'

theorem of_eq (h : s'.macReg = s.macReg) : CausesAgree s s' :=
  .inl ⟨congrFun h _, congrFun h _⟩

theorem of_update {i : Nat} {v : U32} (hi : i ∉ [Reg.icr, Reg.ics])
    (h : s'.macReg = Function.update s.macReg i v) : CausesAgree s s' := by
  simp only [List.mem_cons, List.not_mem_nil, or_false, not_or] at hi
  refine .inl ⟨?_, ?_⟩
  · rw [h, Function.update_of_ne (Ne.symm hi.1)]
  · rw [h, Function.update_of_ne (Ne.symm hi.2)]

end CausesAgree

/-- `w'` differs from `w` in the listed registers and emits only `ev` events. -/
structure Frame (regs : List Nat) (ev : Event → Bool) (w w' : World) : Prop where
  reg : ∀ i, i ∉ regs → w'.reg i = w.reg i
  rest : w'.dev.rest = w.dev.rest
  causes : CausesAgree w.dev w'.dev
  log : ∃ es, w'.log = es ++ w.log ∧ ∀ e ∈ es, ev e = true

namespace Frame

variable {regs regs' : List Nat} {ev ev' : Event → Bool} {w w' w'' : World}

theorem refl (regs : List Nat) (ev : Event → Bool) (w : World) : Frame regs ev w w :=
  ⟨fun _ _ => rfl, rfl, .refl _, [], rfl, by simp⟩

theorem trans (h : Frame regs ev w w') (h' : Frame regs ev w' w'') :
    Frame regs ev w w'' := by
  refine ⟨fun i hi => (h'.reg i hi).trans (h.reg i hi), h'.rest.trans h.rest,
    h.causes.trans h'.causes, ?_⟩
  obtain ⟨es, hes, hev⟩ := h.log
  obtain ⟨es', hes', hev'⟩ := h'.log
  refine ⟨es' ++ es, by rw [hes', hes, List.append_assoc], ?_⟩
  intro e he
  rcases List.mem_append.mp he with he | he
  · exact hev' e he
  · exact hev e he

theorem mono (h : Frame regs ev w w') (hregs : ∀ i ∈ regs, i ∈ regs')
    (hev : ∀ e, ev e = true → ev' e = true) : Frame regs' ev' w w' := by
  refine ⟨fun i hi => h.reg i (fun hmem => hi (hregs i hmem)), h.rest, h.causes, ?_⟩
  obtain ⟨es, hes, hall⟩ := h.log
  exact ⟨es, hes, fun e he => hev e (hall e he)⟩

theorem setReg {i : Nat} (hi : i ∈ regs) (hc : i ∉ [Reg.icr, Reg.ics]) (v : U32) :
    Frame regs ev w (w.setReg i v) := by
  refine ⟨fun j hj => ?_, rfl, .of_update hc rfl, [], rfl, by simp⟩
  exact World.reg_setReg_of_ne w i j v (fun h => hj (h ▸ hi))

theorem emit {e : Event} (he : ev e = true) : Frame regs ev w (w.emit e) :=
  ⟨fun _ _ => rfl, rfl, .refl _, [e], rfl, by simpa using he⟩

theorem setTx (tx : E1000Tx) : Frame regs ev w (w.setTx tx) :=
  ⟨fun _ _ => rfl, rfl, .of_eq rfl, [], rfl, by simp⟩

theorem dmaWrite {buf : HostBuf} {addr : U64} {bs : List U8}
    (he : ev (.dmaWrite buf addr bs) = true) :
    Frame regs ev w (w.dmaWrite buf addr bs) :=
  ⟨fun _ _ => rfl, rfl, .refl _, [_], rfl, by simpa using he⟩

theorem rxbufSize (h : Frame regs ev w w') : w'.dev.rxbufSize = w.dev.rxbufSize :=
  congrArg Rest.rxbufSize h.rest

end Frame

/-! ## Interrupt causes -/

theorem setInterruptCause_frame (w : World) (val : U32) :
    Frame [Reg.icr, Reg.ics] Event.isPin w (setInterruptCause w val) := by
  obtain ⟨m, hdev, -, pins, hpins, hlog⟩ := setInterruptCause_spec w val
  refine ⟨fun i hi => ?_, ?_, .inr ?_, pins, hlog, hpins⟩
  · simp only [List.mem_cons, List.not_mem_nil, or_false, not_or] at hi
    simp [World.reg, hdev, E1000State.setMit, hi.1, hi.2]
  · rw [hdev]
    rfl
  · simp [hdev, E1000State.setMit, Function.update]

theorem setInterruptCause_mem (w : World) (val : U32) :
    (setInterruptCause w val).mem = w.mem :=
  (setInterruptCause_spec w val).choose_spec.2.1

theorem setInterruptCause_pinsOnly (w : World) (val : U32) :
    PinsOnly w (setInterruptCause w val) :=
  (setInterruptCause_spec w val).choose_spec.2.2

theorem setInterruptCause_tx (w : World) (val : U32) :
    (setInterruptCause w val).dev.tx = w.dev.tx := by
  obtain ⟨m, hdev, -⟩ := setInterruptCause_spec w val
  rw [hdev]
  rfl

theorem setInterruptCause_icr (w : World) (val : U32) :
    (setInterruptCause w val).reg Reg.icr = val := by
  obtain ⟨m, hdev, -⟩ := setInterruptCause_spec w val
  simp [World.reg, hdev, E1000State.setMit, Function.update]

/-! ## Reception -/

def rxRegs : List Nat :=
  [Reg.rdh, Reg.gprc, Reg.tpr, Reg.torl, Reg.torh, Reg.icr, Reg.ics]

def Event.isRx : Event → Bool
  | .dmaRead .rxDesc _ _ => true
  | .dmaWrite .rxDesc _ _ => true
  | .dmaWrite .rxData _ _ => true
  | e => e.isPin

def Event.isRxDma : Event → Bool
  | .dmaRead .rxDesc _ _ => true
  | .dmaWrite .rxDesc _ _ => true
  | .dmaWrite .rxData _ _ => true
  | _ => false

theorem Event.isRx_of_isRxDma {e : Event} (h : e.isRxDma = true) : e.isRx = true := by
  cases e with
  | dmaRead buf => cases buf <;> simp_all [Event.isRxDma, Event.isRx]
  | dmaWrite buf => cases buf <;> simp_all [Event.isRxDma, Event.isRx]
  | _ => simp_all [Event.isRxDma]

theorem Event.isRx_of_isPin {e : Event} (h : e.isPin = true) : e.isRx = true := by
  cases e <;> simp_all [Event.isPin, Event.isRx]

theorem setIcs_frame_rx (w : World) (val : U32) :
    Frame rxRegs Event.isRx w (setIcs w val) :=
  (setInterruptCause_frame w _).mono (by simp [rxRegs]) fun _ => Event.isRx_of_isPin

theorem setIcs_tx (w : World) (val : U32) : (setIcs w val).dev.tx = w.dev.tx :=
  setInterruptCause_tx w _

theorem setIcs_mem (w : World) (val : U32) : (setIcs w val).mem = w.mem :=
  setInterruptCause_mem w _

theorem receiveDone_mem (w : World) (size : Nat) : (receiveDone w size).mem = w.mem := by
  rw [receiveDone, setIcs_mem]

theorem copyFragments_frame {w w' : World} {ba : U64} {n ofs ofs' : Nat}
    {iov iov' : Iov} (h : copyFragments w ba n iov ofs = .ok (w', iov', ofs')) :
    Frame [] Event.isRxDma w w' ∧ w'.dev = w.dev := by
  induction iov generalizing w ba n ofs with
  | nil => simp [copyFragments] at h
  | cons frag rest ih =>
      simp only [copyFragments] at h
      have hwrite : Frame [] Event.isRxDma w
          (w.dmaWrite .rxData ba
            ((frag.drop ofs).take (min n (frag.length - ofs)))) :=
        Frame.dmaWrite rfl
      split_ifs at h
      · cases h
        exact ⟨hwrite, rfl⟩
      · cases h
        exact ⟨hwrite, rfl⟩
      · obtain ⟨hrest, hdev⟩ := ih h
        exact ⟨hwrite.trans hrest, hdev⟩

theorem fillBuffer_frame {p : RxParams} {st : RxLoop} {w w' : World} {ba : U64}
    {iov : Iov} {ofs : Nat} (h : fillBuffer p st w ba = .ok (w', iov, ofs)) :
    Frame [] Event.isRxDma w w' ∧ w'.dev = w.dev := by
  simp only [fillBuffer] at h
  split_ifs at h
  · exact copyFragments_frame h
  · cases h
    exact ⟨Frame.refl _ _ _, rfl⟩

theorem rxStore_cases {p : RxParams} {st st' : RxLoop} (h : rxStore p st = .ok st') :
    let base := rxHeadAddr st.world
    let desc := markDesc p (RxDesc.fetch st.world.mem base)
    let w := st.world.emit (.dmaRead .rxDesc base descBytes)
    let descSize := min (p.totalSize - st.descOffset) st.world.dev.rxbufSize.toNat
    (desc.bufferAddr = 0#64 ∧
      st' = { st with world := w.dmaWrite .rxDesc base desc.toBytes }) ∨
    (desc.bufferAddr ≠ 0#64 ∧ ∃ w' iov ofs,
      fillBuffer p st w desc.bufferAddr = .ok (w', iov, ofs) ∧
      st' = ⟨w'.dmaWrite .rxDesc base
          (fillDesc p (st.descOffset + descSize) descSize desc).toBytes,
        st.descOffset + descSize, iov, ofs⟩) := by
  intro base desc w descSize
  unfold rxStore at h
  by_cases hnull : desc.bufferAddr = 0#64
  · replace h := (if_pos hnull).symm.trans h
    exact .inl ⟨hnull, (Run.ok.inj h).symm⟩
  · replace h := (if_neg hnull).symm.trans h
    obtain ⟨⟨w', iov, ofs⟩, hfill, hok⟩ := Run.bind_eq_ok.mp h
    exact .inr ⟨hnull, w', iov, ofs, hfill, (Run.ok.inj hok).symm⟩

theorem rxStore_frame {p : RxParams} {st st' : RxLoop} (h : rxStore p st = .ok st') :
    Frame [] Event.isRxDma st.world st'.world ∧ st'.world.dev = st.world.dev := by
  have hread : Frame [] Event.isRxDma st.world
      (st.world.emit (.dmaRead .rxDesc (rxHeadAddr st.world) descBytes)) :=
    Frame.emit rfl
  rcases rxStore_cases h with ⟨-, rfl⟩ | ⟨-, w, iov, ofs, hfill, rfl⟩
  · exact ⟨hread.trans (Frame.dmaWrite rfl), rfl⟩
  · obtain ⟨hframe, hdev⟩ := fillBuffer_frame hfill
    exact ⟨(hread.trans hframe).trans (Frame.dmaWrite rfl), hdev⟩

theorem rxBody_cases {p : RxParams} {st : RxLoop} {r : Step RxLoop (Bool × World)}
    (h : rxBody p st = .ok r) :
    ∃ st', rxStore p st = .ok st' ∧
      let rdh := ringNext (st.world.reg Reg.rdlen) (st.world.reg Reg.rdh)
      let w := st'.world.setReg Reg.rdh rdh
      ((rdh = p.rdhStart ∧ r = .done (true, w)) ∨
        (rdh ≠ p.rdhStart ∧ st'.descOffset < p.totalSize ∧
          r = .next { st' with world := w }) ∨
        (rdh ≠ p.rdhStart ∧ p.totalSize ≤ st'.descOffset ∧ r = .done (false, w))) := by
  obtain ⟨st', hstore, hr⟩ := Run.bind_eq_ok.mp h
  refine ⟨st', hstore, ?_⟩
  have hdev := (rxStore_frame hstore).2
  have hreg : ∀ i, st'.world.reg i = st.world.reg i := fun i => by
    simp only [World.reg, hdev]
  simp only [hreg] at hr
  split_ifs at hr with hwrap hmore
  · cases hr
    exact .inl ⟨hwrap, rfl⟩
  · cases hr
    exact .inr (.inl ⟨hwrap, hmore, rfl⟩)
  · cases hr
    exact .inr (.inr ⟨hwrap, Nat.le_of_not_lt hmore, rfl⟩)

theorem rxLoop_frame {p : RxParams} {fuel : Nat} {st : RxLoop} {wrapped : Bool}
    {w : World} (h : loop (rxBody p) fuel st = .ok (wrapped, w)) :
    Frame [Reg.rdh] Event.isRxDma st.world w ∧
      w.dev.tx = st.world.dev.tx ∧ w.dev.mit = st.world.dev.mit := by
  have hstep : ∀ {s s₁ : RxLoop} (v : U32), rxStore p s = .ok s₁ →
      (Frame [Reg.rdh] Event.isRxDma st.world s.world ∧
        s.world.dev.tx = st.world.dev.tx ∧ s.world.dev.mit = st.world.dev.mit) →
      Frame [Reg.rdh] Event.isRxDma st.world (s₁.world.setReg Reg.rdh v) ∧
        (s₁.world.setReg Reg.rdh v).dev.tx = st.world.dev.tx ∧
        (s₁.world.setReg Reg.rdh v).dev.mit = st.world.dev.mit := by
    rintro s s₁ v hstore ⟨hframe, htx, hmit⟩
    obtain ⟨hf, hdev⟩ := rxStore_frame hstore
    rw [← hdev] at htx hmit
    exact ⟨(hframe.trans (hf.mono (by simp) fun _ he => he)).trans
      (Frame.setReg (by simp) (by decide) _), htx, hmit⟩
  refine loop_invariant
    (fun s => Frame [Reg.rdh] Event.isRxDma st.world s.world ∧
      s.world.dev.tx = st.world.dev.tx ∧ s.world.dev.mit = st.world.dev.mit)
    (fun r => Frame [Reg.rdh] Event.isRxDma st.world r.2 ∧
      r.2.dev.tx = st.world.dev.tx ∧ r.2.dev.mit = st.world.dev.mit) ?_ ?_
    ⟨Frame.refl _ _ _, rfl, rfl⟩ h
  · intro s s' hs hb
    obtain ⟨s₁, hstore, ⟨-, hr⟩ | ⟨-, -, hr⟩ | ⟨-, -, hr⟩⟩ := rxBody_cases hb <;> cases hr
    exact hstep _ hstore hs
  · intro s r hs hb
    obtain ⟨s₁, hstore, ⟨-, hr⟩ | ⟨-, -, hr⟩ | ⟨-, -, hr⟩⟩ := rxBody_cases hb <;> cases hr
    · exact hstep _ hstore hs
    · exact hstep _ hstore hs

theorem countReceived_macReg (s : E1000State) (size : Nat) {i : Nat}
    (hi : i ∉ [Reg.gprc, Reg.tpr, Reg.torl, Reg.torh]) :
    (countReceived s size).macReg i = s.macReg i := by
  simp only [List.mem_cons, List.not_mem_nil, or_false, not_or] at hi
  obtain ⟨hg, ht, hl, hh⟩ := hi
  simp only [countReceived]
  split_ifs <;> simp [hg, ht, hl, hh]

theorem receiveDone_frame (w : World) (size : Nat) :
    Frame rxRegs Event.isRx w (receiveDone w size) ∧
      (receiveDone w size).dev.tx = w.dev.tx := by
  have hcount : Frame rxRegs Event.isRx w { w with dev := countReceived w.dev size } := by
    refine ⟨fun i hi => countReceived_macReg w.dev size fun h => hi ?_, rfl,
      .inl ⟨countReceived_macReg _ _ (by decide), countReceived_macReg _ _ (by decide)⟩,
      [], rfl, by simp⟩
    simp only [rxRegs, List.mem_cons, List.not_mem_nil, or_false] at h ⊢
    omega
  refine ⟨hcount.trans (setIcs_frame_rx _ _), ?_⟩
  rw [receiveDone, setIcs_tx]
  rfl

theorem receiveDone_pinsOnly (w : World) (size : Nat) : PinsOnly w (receiveDone w size) := by
  rw [receiveDone, setIcs]
  exact setInterruptCause_pinsOnly { w with dev := countReceived w.dev size } _

theorem storePacket_frame {fuel : Nat} {w : World} {p : RxPacket} {r : Received}
    (h : storePacket fuel w p = .ok r) :
    Frame rxRegs Event.isRx w r.world ∧ r.world.dev.tx = w.dev.tx := by
  simp only [storePacket] at h
  split_ifs at h
  · obtain ⟨⟨wrapped, w₁⟩, hloop, hr⟩ := Run.bind_eq_ok.mp h
    obtain ⟨hdma, htx, -⟩ := rxLoop_frame hloop
    have hf : Frame rxRegs Event.isRx w w₁ :=
      hdma.mono (by simp [rxRegs]) fun _ => Event.isRx_of_isRxDma
    dsimp only at hr
    split_ifs at hr
    · cases hr
      exact ⟨hf.trans (setIcs_frame_rx _ _), by rw [setIcs_tx, htx]⟩
    · cases hr
      obtain ⟨hd, hdtx⟩ := receiveDone_frame w₁ p.size
      exact ⟨hf.trans hd, by rw [hdtx, htx]⟩
  · cases h
    exact ⟨setIcs_frame_rx _ _, setIcs_tx _ _⟩

theorem e1000ReceiveIov_frame {fuel : Nat} {w : World} {iov : Iov} {r : Received}
    (h : e1000ReceiveIov fuel w iov = .ok r) :
    Frame rxRegs Event.isRx w r.world ∧ r.world.dev.tx = w.dev.tx := by
  simp only [e1000ReceiveIov] at h
  split_ifs at h
  · cases h
    exact ⟨Frame.refl _ _ _, rfl⟩
  · cases h
    exact ⟨Frame.refl _ _ _, rfl⟩
  · obtain ⟨hd, -, h⟩ := Run.bind_eq_ok.mp h
    split_ifs at h
    · cases h
      exact ⟨Frame.refl _ _ _, rfl⟩
    · cases h
      exact ⟨Frame.refl _ _ _, rfl⟩
    · obtain ⟨p, -, h⟩ := Run.bind_eq_ok.mp h
      exact storePacket_frame h

/-! ## Transmission -/

def txRegs : List Nat := [Reg.tpt, Reg.gptc, Reg.totl, Reg.toth] ++ rxRegs

def Event.isXmit : Event → Bool
  | .sendPacket _ => true
  | .dropPacket _ => true
  | e => e.isRx

theorem Event.isXmit_of_isRx {e : Event} (h : e.isRx = true) : e.isXmit = true := by
  cases e <;> simp_all [Event.isXmit, Event.isRx]

def Event.isTx : Event → Bool
  | .dmaRead .txData _ _ => true
  | e => e.isXmit

theorem Event.isTx_of_isXmit {e : Event} (h : e.isXmit = true) : e.isTx = true := by
  cases e with
  | dmaRead buf => cases buf <;> simp_all [Event.isTx, Event.isXmit, Event.isRx]
  | _ => simp_all [Event.isTx, Event.isXmit]

theorem mem_txRegs_of_mem_rxRegs {i : Nat} (h : i ∈ rxRegs) : i ∈ txRegs :=
  List.mem_append_right _ h

theorem e1000SendPacket_frame {fuel : Nat} {w w' : World} {frame bytes : List U8}
    (h : e1000SendPacket fuel w frame = .ok (w', bytes)) :
    Frame txRegs Event.isXmit w w' ∧ w'.dev.tx = w.dev.tx := by
  simp only [e1000SendPacket] at h
  split_ifs at h
  · obtain ⟨r, hr, h⟩ := Run.bind_eq_ok.mp h
    cases h
    obtain ⟨hf, htx⟩ := e1000ReceiveIov_frame hr
    exact ⟨hf.mono (fun _ => mem_txRegs_of_mem_rxRegs) fun _ => Event.isXmit_of_isRx, htx⟩
  · cases h
    exact ⟨Frame.emit (by cases w.dev.linkDown <;> rfl), rfl⟩

/-- `tp'` may differ from `tp` in the frame's buffers and in the segment count. -/
def E1000Tx.Edited (tp tp' : E1000Tx) : Prop :=
  ∃ vlan data frames, tp' = { tp with vlan := vlan, data := data, tsoFrames := frames }

theorem E1000Tx.Edited.refl (tp : E1000Tx) : tp.Edited tp := ⟨_, _, _, rfl⟩

theorem E1000Tx.Edited.trans {tp tp' tp'' : E1000Tx} (h : tp.Edited tp')
    (h' : tp'.Edited tp'') : tp.Edited tp'' := by
  obtain ⟨vlan, data, frames, rfl⟩ := h
  obtain ⟨vlan', data', frames', rfl⟩ := h'
  exact ⟨vlan', data', frames', rfl⟩

theorem sendFrame_spec {fuel : Nat} {w w' : World} (h : sendFrame fuel w = .ok w') :
    Frame txRegs Event.isXmit w w' ∧ w.dev.tx.Edited w'.dev.tx := by
  simp only [sendFrame] at h
  split_ifs at h
  · obtain ⟨⟨w₁, bytes⟩, hsend, h⟩ := Run.bind_eq_ok.mp h
    cases h
    obtain ⟨hf, htx⟩ := e1000SendPacket_frame hsend
    refine ⟨((Frame.setTx _).trans hf).trans (Frame.setTx _),
      w₁.dev.tx.vlan.store 0 (bytes.take 4), w₁.dev.tx.data.store 0 (bytes.drop 4),
      w.dev.tx.tsoFrames, ?_⟩
    simp only [World.dev_setTx, htx, insertVlan]
  · obtain ⟨⟨w₁, bytes⟩, hsend, h⟩ := Run.bind_eq_ok.mp h
    cases h
    obtain ⟨hf, htx⟩ := e1000SendPacket_frame hsend
    refine ⟨hf.trans (Frame.setTx _), w.dev.tx.vlan, w₁.dev.tx.data.store 0 bytes,
      w.dev.tx.tsoFrames, ?_⟩
    simp only [World.dev_setTx, htx]

theorem countFrame_frame (w : World) :
    Frame txRegs Event.isXmit w (countFrame w) ∧ (countFrame w).dev.tx = w.dev.tx := by
  have hset : ∀ (i : Nat) (v : U32) (w : World), i ∈ txRegs ∧ i ∉ [Reg.icr, Reg.ics] →
      Frame txRegs Event.isXmit w (w.setReg i v) := fun i v w hi => Frame.setReg hi.1 hi.2 v
  have ht : Reg.tpt ∈ txRegs ∧ Reg.tpt ∉ [Reg.icr, Reg.ics] := by decide
  have hg : Reg.gptc ∈ txRegs ∧ Reg.gptc ∉ [Reg.icr, Reg.ics] := by decide
  have hl : Reg.totl ∈ txRegs ∧ Reg.totl ∉ [Reg.icr, Reg.ics] := by decide
  have hh : Reg.toth ∈ txRegs ∧ Reg.toth ∉ [Reg.icr, Reg.ics] := by decide
  simp only [countFrame]
  split_ifs
  · refine ⟨Frame.trans ?_ (hset _ _ _ hh), rfl⟩
    exact ((hset _ _ _ ht).trans (hset _ _ _ hg)).trans (hset _ _ _ hl)
  · exact ⟨((hset _ _ _ ht).trans (hset _ _ _ hg)).trans (hset _ _ _ hl), rfl⟩

theorem checksumIf_data (tp : E1000Tx) (opt sloc css : U8) (cse : U16) :
    ∃ data, (if test tp.sumNeeded opt then checksumTx tp sloc css cse else tp) =
      { tp with data := data } := by
  split_ifs
  · exact ⟨_, rfl⟩
  · exact ⟨tp.data, rfl⟩

/-- The checksums change the data of what the header edits have left. -/
theorem finishFrame_data (tp : E1000Tx) :
    ∃ data, finishFrame tp =
      { (if tp.tse && tp.cptse then segmentHeader tp else tp) with data := data } := by
  rw [finishFrame]
  generalize (if tp.tse && tp.cptse then segmentHeader tp else tp) = tp₁
  obtain ⟨data₁, h₁⟩ := checksumIf_data tp₁ txdPoptsTxsm tp₁.tucso tp₁.tucss tp₁.tucse
  obtain ⟨data₂, h₂⟩ := checksumIf_data { tp₁ with data := data₁ } txdPoptsIxsm tp₁.ipcso
    tp₁.ipcss tp₁.ipcse
  exact ⟨data₂, by simp only [h₁]; exact h₂⟩

theorem finishFrame_edited (tp : E1000Tx) : tp.Edited (finishFrame tp) := by
  obtain ⟨data, h⟩ := finishFrame_data tp
  rw [h]
  split_ifs
  · exact ⟨_, _, _, rfl⟩
  · exact ⟨_, _, _, rfl⟩

/-- The fields of `tx` that decide how a descriptor is cut survive a segment. -/
theorem xmitSeg_spec {fuel : Nat} {w w' : World} (h : xmitSeg fuel w = .ok w') :
    Frame txRegs Event.isXmit w w' ∧ w.dev.tx.Edited w'.dev.tx := by
  obtain ⟨w₁, hsend, h⟩ := Run.bind_eq_ok.mp h
  cases h
  obtain ⟨hf, hsent⟩ := sendFrame_spec hsend
  obtain ⟨hc, hctx⟩ := countFrame_frame w₁
  refine ⟨((Frame.setTx _).trans hf).trans hc, ?_⟩
  rw [hctx]
  exact (finishFrame_edited w.dev.tx).trans hsent

theorem flushSegment_frame {fuel : Nat} {complete : Bool} {w w' : World}
    (h : flushSegment fuel complete w = .ok w') : Frame txRegs Event.isXmit w w' := by
  simp only [flushSegment] at h
  split_ifs at h
  · obtain ⟨w₁, hxmit, h⟩ := Run.bind_eq_ok.mp h
    cases h
    exact (xmitSeg_spec hxmit).1.trans (Frame.setTx _)
  · cases h
    exact Frame.refl _ _ _

def tsoWorld : Step TsoLoop World → World
  | .next st => st.world
  | .done w => w

theorem tsoBody_frame {msh : U32} {fuel : Nat} {st : TsoLoop} {r : Step TsoLoop World}
    (h : tsoBody msh fuel st = .ok r) :
    Frame txRegs Event.isTx st.world (tsoWorld r) := by
  simp only [tsoBody, World.fst_dmaRead, World.snd_dmaRead] at h
  obtain ⟨w, hflush, h⟩ := Run.bind_eq_ok.mp h
  have hread : ∀ n tp, Frame txRegs Event.isTx st.world
      ((st.world.emit (.dmaRead .txData st.addr n)).setTx tp) := fun n tp =>
    (Frame.emit rfl).trans (Frame.setTx _)
  have hframe : Frame txRegs Event.isTx st.world w :=
    (hread _ _).trans
      ((flushSegment_frame hflush).mono (fun _ hi => hi) fun _ => Event.isTx_of_isXmit)
  split_ifs at h <;> cases h <;> exact hframe

theorem fetchData_frame {fuel : Nat} {w w' : World} {dp : TxDesc}
    (h : fetchData fuel w dp = .ok w') : Frame txRegs Event.isTx w w' := by
  simp only [fetchData] at h
  split_ifs at h
  · refine loop_invariant (fun st => Frame txRegs Event.isTx w st.world)
      (fun w' => Frame txRegs Event.isTx w w') ?_ ?_ (Frame.refl _ _ _) h
    · exact fun s s' hs hb => hs.trans (tsoBody_frame hb)
    · exact fun s b hs hb => hs.trans (tsoBody_frame hb)
  · cases h
    exact Frame.refl _ _ _
  · cases h
    exact (Frame.emit rfl).trans (Frame.setTx _)

theorem endPacket_frame {fuel : Nat} {w w' : World} (h : endPacket fuel w = .ok w') :
    Frame txRegs Event.isTx w w' := by
  obtain ⟨w₁, hsend, h⟩ := Run.bind_eq_ok.mp h
  cases h
  refine Frame.trans ?_ (Frame.setTx _)
  simp only [sendLast] at hsend
  split_ifs at hsend
  · cases hsend
    exact Frame.refl _ _ _
  · exact (xmitSeg_spec hsend).1.mono (fun _ hi => hi) fun _ => Event.isTx_of_isXmit

theorem beginDesc_frame (w : World) (dp : TxDesc) :
    Frame txRegs Event.isTx w (beginDesc w dp) :=
  ⟨fun _ _ => rfl, rfl, .of_eq rfl, [], rfl, by simp⟩

theorem processTxDesc_frame {fuel : Nat} {w w' : World} {dp : TxDesc}
    (h : processTxDesc fuel w dp = .ok w') : Frame txRegs Event.isTx w w' := by
  simp only [processTxDesc] at h
  split_ifs at h with hctx heop
  · cases h
    exact ⟨fun _ _ => rfl, rfl, .of_eq rfl, [], rfl, by simp⟩
  · obtain ⟨w₁, hfetch, h⟩ := Run.bind_eq_ok.mp h
    exact ((beginDesc_frame w dp).trans (fetchData_frame hfetch)).trans (endPacket_frame h)
  · obtain ⟨w₁, hfetch, h⟩ := Run.bind_eq_ok.mp h
    cases h
    exact (beginDesc_frame w dp).trans (fetchData_frame hfetch)

theorem finishDesc_frame (cause : U32) (base : U64) (dp : TxDesc) (w : World) :
    Frame (Reg.tdh :: txRegs) (fun _ => true) w (finishDesc cause base dp w).world := by
  simp only [finishDesc, txdescWriteback]
  split_ifs
  · exact (Frame.dmaWrite rfl).trans (Frame.setReg (by simp) (by decide) _)
  · exact Frame.setReg (by simp) (by decide) _

theorem xmitBody_frame {tdhStart : U32} {fuel : Nat} {st : XmitLoop}
    {r : Step XmitLoop XmitLoop} (h : xmitBody tdhStart fuel st = .ok r) :
    ∃ st', (r = .done st' ∨ r = .next st') ∧
      Frame (Reg.tdh :: txRegs) (fun _ => true) st.world st'.world := by
  simp only [xmitBody] at h
  split_ifs at h
  · exact ⟨st, .inl (Run.ok.inj h).symm, Frame.refl _ _ _⟩
  · obtain ⟨w₁, hproc, h⟩ := Run.bind_eq_ok.mp h
    have hproc' : Frame (Reg.tdh :: txRegs) (fun _ => true) st.world w₁ :=
      (Frame.emit rfl).trans
        ((processTxDesc_frame hproc).mono (by simp +contextual) fun _ _ => rfl)
    refine ⟨finishDesc st.cause (txHeadAddr st.world)
      (TxDesc.fetch st.world.mem (txHeadAddr st.world)) w₁, ?_,
      hproc'.trans (finishDesc_frame _ _ _ _)⟩
    rw [← Run.ok.inj h]
    split_ifs
    · exact .inl rfl
    · exact .inr rfl

theorem startXmit_frame {fuel : Nat} {w w' : World} (h : startXmit fuel w = .ok w') :
    Frame (Reg.tdh :: txRegs) (fun _ => true) w w' := by
  simp only [startXmit] at h
  split_ifs at h
  · obtain ⟨st, hloop, h⟩ := Run.bind_eq_ok.mp h
    cases h
    have hframe : Frame (Reg.tdh :: txRegs) (fun _ => true) w st.world := by
      refine loop_invariant
        (fun st => Frame (Reg.tdh :: txRegs) (fun _ => true) w st.world)
        (fun st => Frame (Reg.tdh :: txRegs) (fun _ => true) w st.world)
        ?_ ?_ (Frame.refl _ _ _) hloop
      · intro s s' hs hbody
        obtain ⟨st', hr | hr, hf⟩ := xmitBody_frame hbody <;> cases hr
        exact hs.trans hf
      · intro s s' hs hbody
        obtain ⟨st', hr | hr, hf⟩ := xmitBody_frame hbody <;> cases hr
        exact hs.trans hf
    refine hframe.trans ((setIcs_frame_rx _ _).mono ?_ fun _ _ => rfl)
    exact fun i hi => List.mem_cons_of_mem _ (mem_txRegs_of_mem_rxRegs hi)
  · cases h
    exact Frame.refl _ _ _

/-! ## Fuel -/

section Fuel

variable {m n : Nat} (hmn : m ≤ n)
include hmn

theorem e1000ReceiveIov_le (w : World) (iov : Iov) :
    Run.Le (e1000ReceiveIov m w iov) (e1000ReceiveIov n w iov) := by
  simp only [e1000ReceiveIov]
  split_ifs
  · exact .refl _
  · exact .refl _
  · exact .refl _
  · refine .bind (.refl _) fun h => ?_
    split_ifs
    · exact .refl _
    · exact .refl _
    · refine .bind (.refl _) fun p => ?_
      simp only [storePacket]
      split_ifs
      · exact .bind (loop_mono (fun s => .refl _) hmn _) fun _ => .refl _
      · exact .refl _

theorem e1000SendPacket_le (w : World) (frame : List U8) :
    Run.Le (e1000SendPacket m w frame) (e1000SendPacket n w frame) := by
  simp only [e1000SendPacket]
  split_ifs
  · exact .bind (e1000ReceiveIov_le hmn w [frame]) fun _ => .refl _
  · exact .refl _

theorem xmitSeg_le (w : World) : Run.Le (xmitSeg m w) (xmitSeg n w) := by
  refine .bind ?_ fun _ => .refl _
  simp only [sendFrame]
  split_ifs
  · exact .bind (e1000SendPacket_le hmn _ _) fun _ => .refl _
  · exact .bind (e1000SendPacket_le hmn _ _) fun _ => .refl _

theorem tsoBody_le (msh : U32) (st : TsoLoop) :
    Run.Le (tsoBody msh m st) (tsoBody msh n st) := by
  refine .bind ?_ fun _ => .refl _
  simp only [flushSegment]
  split_ifs
  · exact .bind (xmitSeg_le hmn _) fun _ => .refl _
  · exact .refl _

theorem fetchData_le (w : World) (dp : TxDesc) :
    Run.Le (fetchData m w dp) (fetchData n w dp) := by
  simp only [fetchData]
  split_ifs
  · exact loop_mono (tsoBody_le hmn _) hmn _
  · exact .refl _
  · exact .refl _

theorem endPacket_le (w : World) : Run.Le (endPacket m w) (endPacket n w) := by
  refine .bind ?_ fun _ => .refl _
  simp only [sendLast]
  split_ifs
  · exact .refl _
  · exact xmitSeg_le hmn _

theorem processTxDesc_le (w : World) (dp : TxDesc) :
    Run.Le (processTxDesc m w dp) (processTxDesc n w dp) := by
  simp only [processTxDesc]
  split_ifs
  · exact .refl _
  · exact .bind (fetchData_le hmn _ dp) fun _ => endPacket_le hmn _
  · exact .bind (fetchData_le hmn _ dp) fun _ => .refl _

theorem xmitBody_le (tdhStart : U32) (st : XmitLoop) :
    Run.Le (xmitBody tdhStart m st) (xmitBody tdhStart n st) := by
  simp only [xmitBody]
  split_ifs
  · exact .refl _
  · exact .bind (processTxDesc_le hmn _ _) fun _ => .refl _

end Fuel

end SE4VM.E1000
