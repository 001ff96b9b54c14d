import SE4VM.E1000.Frame

/-!
# What the guest and the network can tell apart

Frames that get through, DMA writes and register reads are visible; timers and the
interrupt pin are not.  Two worlds that differ only in the fields behind the pin, in
a pending negotiation and in the scratch fields of `tx` stay alike under every guest
operation.
-/

namespace SE4VM.E1000

open SE4VM.Foundation

/-! ## Alike devices -/

def Event.visible : Event → Bool
  | .sendPacket _ => true
  | .dmaWrite _ _ _ => true
  | _ => false

def World.seen (w : World) : List Event := w.log.filter Event.visible

/-- The fields that no frame, DMA write or register read depends on. -/
structure Hidden where
  autonegTimer : Bool
  mitTimerOn : Bool
  mitIrqLevel : Bool
  mitIde : U32

def E1000State.hide (s : E1000State) (h : Hidden) : E1000State :=
  { s with
    autonegTimer := h.autonegTimer
    mitTimerOn := h.mitTimerOn
    mitIrqLevel := h.mitIrqLevel
    mitIde := h.mitIde }

/--
`vlan` is written before it is read.  `vlanHeader` counts once a tag is due, and
`cptse` counts while a descriptor is processed, which `busy` says.
-/
def TxAlike (busy : Bool) (tp tp' : E1000Tx) : Prop :=
  ∃ vlan vlanHeader cptse,
    tp' = { tp with vlan := vlan, vlanHeader := vlanHeader, cptse := cptse } ∧
    (tp.vlanNeeded = true → vlanHeader.slice 0 4 = tp.vlanHeader.slice 0 4) ∧
    (busy = true → cptse = tp.cptse)

structure Alike (busy : Bool) (w w' : World) : Prop where
  dev : ∃ h tp, w'.dev = { w.dev.hide h with tx := tp } ∧ TxAlike busy w.dev.tx tp
  mem : w'.mem = w.mem
  seen : w'.seen = w.seen

namespace Alike

variable {busy : Bool} {w w' : World}

theorem tx (h : Alike busy w w') : TxAlike busy w.dev.tx w'.dev.tx := by
  obtain ⟨hid, tp, hdev, htx⟩ := h.dev
  rw [hdev]
  exact htx

theorem congr {α : Type} (h : Alike busy w w') (f : E1000State → α)
    (hf : ∀ s hid tp, f { s.hide hid with tx := tp } = f s) : f w'.dev = f w.dev := by
  obtain ⟨hid, tp, hdev, -⟩ := h.dev
  rw [hdev]
  exact hf _ _ _

theorem reg (h : Alike busy w w') (i : Nat) : w'.reg i = w.reg i :=
  h.congr (fun s => s.macReg i) fun _ _ _ => rfl

theorem setReg (h : Alike busy w w') (i : Nat) (v : U32) :
    Alike busy (w.setReg i v) (w'.setReg i v) := by
  obtain ⟨hid, tp, hdev, htx⟩ := h.dev
  refine ⟨⟨hid, tp, ?_, htx⟩, h.mem, h.seen⟩
  rw [World.dev_setReg, World.dev_setReg, hdev]
  rfl

theorem setTx (h : Alike busy w w') {busy' : Bool} {tp tp' : E1000Tx}
    (htx : TxAlike busy' tp tp') : Alike busy' (w.setTx tp) (w'.setTx tp') := by
  obtain ⟨hid, tp₀, hdev, -⟩ := h.dev
  refine ⟨⟨hid, tp', ?_, htx⟩, h.mem, h.seen⟩
  rw [World.dev_setTx, World.dev_setTx, hdev]
  rfl

theorem emit (h : Alike busy w w') (e : Event) : Alike busy (w.emit e) (w'.emit e) := by
  refine ⟨h.dev, h.mem, ?_⟩
  have hseen : w'.log.filter Event.visible = w.log.filter Event.visible := h.seen
  simp only [World.seen, World.log_emit, List.filter_cons, hseen]

theorem dmaWrite (h : Alike busy w w') (buf : HostBuf) (addr : U64) (bs : List U8) :
    Alike busy (w.dmaWrite buf addr bs) (w'.dmaWrite buf addr bs) := by
  refine ⟨h.dev, ?_, ?_⟩
  · rw [World.mem_dmaWrite, World.mem_dmaWrite, h.mem]
  · have hseen : w'.log.filter Event.visible = w.log.filter Event.visible := h.seen
    simp only [World.seen, World.log_dmaWrite, List.filter_cons, hseen]

end Alike

theorem Event.not_visible_of_isPin {e : Event} (h : e.isPin = true) : e.visible = false := by
  cases e <;> simp_all [Event.isPin, Event.visible]

theorem PinsOnly.seen {w w' : World} (h : PinsOnly w w') : w'.seen = w.seen := by
  obtain ⟨pins, hpins, hlog⟩ := h
  have hnone : pins.filter Event.visible = [] :=
    List.filter_eq_nil_iff.mpr fun e he => by simp [Event.not_visible_of_isPin (hpins e he)]
  rw [World.seen, hlog, List.filter_append, hnone, List.nil_append, World.seen]

theorem Alike.setInterruptCause {busy : Bool} {w w' : World} (h : Alike busy w w')
    (val : U32) :
    Alike busy (E1000.setInterruptCause w val) (E1000.setInterruptCause w' val) := by
  obtain ⟨m, hdev, hmem, hpins⟩ := setInterruptCause_spec w val
  obtain ⟨m', hdev', hmem', hpins'⟩ := setInterruptCause_spec w' val
  obtain ⟨hid, tp, hw, htx⟩ := h.dev
  refine ⟨⟨⟨hid.autonegTimer, m'.timerOn, m'.irqLevel, m'.ide⟩, tp, ?_, ?_⟩, ?_, ?_⟩
  · rw [hdev, hdev']
    simp only [World.dev_setReg, hw]
    rfl
  · rw [setInterruptCause_tx]
    exact htx
  · rw [hmem, hmem', h.mem]
  · rw [hpins.seen, hpins'.seen, h.seen]

theorem Alike.setIcs {busy : Bool} {w w' : World} (h : Alike busy w w') (val : U32) :
    Alike busy (E1000.setIcs w val) (E1000.setIcs w' val) := by
  rw [E1000.setIcs, E1000.setIcs, h.reg]
  exact h.setInterruptCause _

/-! ## Reception -/

section Reception

variable {busy : Bool} {w w' : World}

theorem Alike.copyFragments (h : Alike busy w w') (ba : U64) (n : Nat) (iov : Iov)
    (ofs : Nat) :
    Run.Rel (fun r r' => Alike busy r.1 r'.1 ∧ r'.2 = r.2)
      (E1000.copyFragments w ba n iov ofs) (E1000.copyFragments w' ba n iov ofs) := by
  induction iov generalizing w w' ba n ofs with
  | nil => exact .fault
  | cons frag rest ih =>
      simp only [E1000.copyFragments]
      split_ifs
      · exact .ok ⟨h.dmaWrite _ _ _, rfl⟩
      · exact .ok ⟨h.dmaWrite _ _ _, rfl⟩
      · exact ih (h.dmaWrite _ _ _) _ _ _

def RxAlike (busy : Bool) (st st' : RxLoop) : Prop :=
  ∃ w', st' = { st with world := w' } ∧ Alike busy st.world w'

theorem rxHeadAddr_alike (h : Alike busy w w') : rxHeadAddr w' = rxHeadAddr w := by
  rw [rxHeadAddr, rxHeadAddr, h.reg, h.congr rxDescBase fun _ _ _ => rfl]

theorem rxbufSize_alike (h : Alike busy w w') : w'.dev.rxbufSize = w.dev.rxbufSize :=
  h.congr E1000State.rxbufSize fun _ _ _ => rfl

theorem fillBuffer_alike {p : RxParams} {st st' : RxLoop} (hst : RxAlike busy st st')
    (h : Alike busy w w') (ba : U64) :
    Run.Rel (fun r r' => Alike busy r.1 r'.1 ∧ r'.2 = r.2)
      (fillBuffer p st w ba) (fillBuffer p st' w' ba) := by
  obtain ⟨v, rfl, -⟩ := hst
  simp only [fillBuffer, rxbufSize_alike h]
  split_ifs
  · exact h.copyFragments _ _ _ _
  · exact .ok ⟨h, rfl⟩

theorem rxStore_alike {p : RxParams} {st st' : RxLoop} (hst : RxAlike busy st st') :
    Run.Rel (RxAlike busy) (rxStore p st) (rxStore p st') := by
  obtain ⟨v, rfl, h⟩ := id hst
  simp only [rxStore, rxHeadAddr_alike h, rxbufSize_alike h, h.mem]
  have hread := h.emit (.dmaRead .rxDesc (rxHeadAddr st.world) descBytes)
  by_cases hnull : (markDesc p (RxDesc.fetch st.world.mem (rxHeadAddr st.world))).bufferAddr =
      0#64
  · rw [if_pos hnull, if_pos hnull]
    exact .ok ⟨_, rfl, hread.dmaWrite _ _ _⟩
  · rw [if_neg hnull, if_neg hnull]
    refine (fillBuffer_alike hst hread _).bind ?_
    rintro ⟨u, iov, ofs⟩ ⟨u', iov', ofs'⟩ ⟨hu, heq⟩
    cases heq
    exact .ok ⟨_, rfl, hu.dmaWrite _ _ _⟩

theorem rxBody_alike {p : RxParams} {st st' : RxLoop} (hst : RxAlike busy st st') :
    Run.Rel (fun x y =>
      (∃ a b, x = .next a ∧ y = .next b ∧ RxAlike busy a b) ∨
      (∃ a b, x = .done a ∧ y = .done b ∧ b.1 = a.1 ∧ Alike busy a.2 b.2))
      (rxBody p st) (rxBody p st') := by
  refine (rxStore_alike hst).bind ?_
  rintro u u' ⟨v, rfl, h⟩
  simp only [h.reg]
  split_ifs
  · exact .ok (.inr ⟨_, _, rfl, rfl, rfl, h.setReg _ _⟩)
  · exact .ok (.inl ⟨_, _, rfl, rfl, _, rfl, h.setReg _ _⟩)
  · exact .ok (.inr ⟨_, _, rfl, rfl, rfl, h.setReg _ _⟩)

theorem receiveDone_alike (h : Alike busy w w') (size : Nat) :
    Alike busy (receiveDone w size) (receiveDone w' size) := by
  have hmin : rxDescMinimum (countReceived w'.dev size) =
      rxDescMinimum (countReceived w.dev size) :=
    h.congr (fun s => rxDescMinimum (countReceived s size)) fun _ _ _ => rfl
  have hcount : Alike busy { w with dev := countReceived w.dev size }
      { w' with dev := countReceived w'.dev size } := by
    obtain ⟨hid, tp, hdev, htx⟩ := h.dev
    refine ⟨⟨hid, tp, ?_, htx⟩, h.mem, h.seen⟩
    rw [hdev]
    rfl
  simp only [receiveDone, hmin]
  exact hcount.setIcs _

def ReceivedAlike (busy : Bool) (r r' : Received) : Prop :=
  r'.ret = r.ret ∧ r'.callerIov = r.callerIov ∧ Alike busy r.world r'.world

theorem storePacket_alike (h : Alike busy w w') (fuel : Nat) (p : RxPacket) :
    Run.Rel (ReceivedAlike busy) (storePacket fuel w p) (storePacket fuel w' p) := by
  have hfcs : fcsLen w'.dev = fcsLen w.dev := h.congr fcsLen fun _ _ _ => rfl
  have hroom := h.congr (fun s => e1000HasRxbufs s (p.size + fcsLen w.dev)) fun _ _ _ => rfl
  simp only [storePacket, hfcs, hroom, h.reg]
  split_ifs
  · refine Run.Rel.bind (loop_rel (fun s s' hs => rxBody_alike hs) fuel ⟨w', rfl, h⟩) ?_
    rintro ⟨wrapped, v⟩ ⟨wrapped', v'⟩ ⟨heq, hv⟩
    obtain rfl : wrapped' = wrapped := heq
    dsimp only
    split_ifs
    · exact .ok ⟨rfl, rfl, hv.setIcs _⟩
    · exact .ok ⟨rfl, rfl, receiveDone_alike hv _⟩
  · exact .ok ⟨rfl, rfl, h.setIcs _⟩

theorem e1000ReceiveIov_alike (h : Alike busy w w') (fuel : Nat) (iov : Iov) :
    Run.Rel (ReceivedAlike busy) (e1000ReceiveIov fuel w iov) (e1000ReceiveIov fuel w' iov) := by
  have hover := fun n => h.congr (fun s => oversized s n) fun _ _ _ => rfl
  have hfilter := fun buf => h.congr (fun s => receiveFilter s buf) fun _ _ _ => rfl
  have hstrip := fun hd => h.congr (fun s => stripVlan s iov hd) fun _ _ _ => rfl
  simp only [e1000ReceiveIov, h.reg, hover, hfilter, hstrip]
  split_ifs
  · exact .fault
  · exact .ok ⟨rfl, rfl, h⟩
  · exact .ok ⟨rfl, rfl, h⟩
  · cases receiveHeader iov with
    | fault => exact .fault
    | timeout => exact .timeout
    | ok hd =>
        simp only [Run.ok_bind]
        split_ifs
        · exact .ok ⟨rfl, rfl, h⟩
        · exact .ok ⟨rfl, rfl, h⟩
        · cases stripVlan w.dev iov hd with
          | fault => exact .fault
          | timeout => exact .timeout
          | ok p => exact storePacket_alike h fuel p

end Reception

/-! ## Editing `tx` -/

namespace TxAlike

variable {busy : Bool} {tp tp' : E1000Tx}

theorem size (h : TxAlike busy tp tp') : tp'.size = tp.size := by
  obtain ⟨v, vh, c, rfl, -, -⟩ := h
  rfl

theorem idle (h : TxAlike busy tp tp') : TxAlike false tp tp' := by
  obtain ⟨v, vh, c, heq, htag, -⟩ := h
  exact ⟨v, vh, c, heq, htag, nofun⟩

theorem segmentHeader (h : TxAlike busy tp tp') :
    TxAlike busy (E1000.segmentHeader tp) (E1000.segmentHeader tp') := by
  obtain ⟨v, vh, c, rfl, htag, hc⟩ := h
  exact ⟨v, vh, c, rfl, htag, hc⟩

theorem checksumTx (h : TxAlike busy tp tp') (sloc css : U8) (cse : U16) :
    TxAlike busy (E1000.checksumTx tp sloc css cse) (E1000.checksumTx tp' sloc css cse) := by
  obtain ⟨v, vh, c, rfl, htag, hc⟩ := h
  exact ⟨v, vh, c, rfl, htag, hc⟩

theorem finishFrame (h : TxAlike true tp tp') :
    TxAlike true (E1000.finishFrame tp) (E1000.finishFrame tp') := by
  have hsegment : ∀ {tp tp' : E1000Tx}, TxAlike true tp tp' → TxAlike true
      (if tp.tse && tp.cptse then E1000.segmentHeader tp else tp)
      (if tp'.tse && tp'.cptse then E1000.segmentHeader tp' else tp') := by
    intro tp tp' h
    obtain ⟨v, vh, c, rfl, -, hc⟩ := id h
    obtain rfl := hc rfl
    dsimp only
    split_ifs
    · exact h.segmentHeader
    · exact h
  have htucs : ∀ {tp tp' : E1000Tx}, TxAlike true tp tp' → TxAlike true
      (if test tp.sumNeeded txdPoptsTxsm then
        E1000.checksumTx tp tp.tucso tp.tucss tp.tucse else tp)
      (if test tp'.sumNeeded txdPoptsTxsm then
        E1000.checksumTx tp' tp'.tucso tp'.tucss tp'.tucse else tp') := by
    intro tp tp' h
    obtain ⟨v, vh, c, rfl, -, -⟩ := id h
    dsimp only
    split_ifs
    · exact h.checksumTx _ _ _
    · exact h
  have hipcs : ∀ {tp tp' : E1000Tx}, TxAlike true tp tp' → TxAlike true
      (if test tp.sumNeeded txdPoptsIxsm then
        E1000.checksumTx tp tp.ipcso tp.ipcss tp.ipcse else tp)
      (if test tp'.sumNeeded txdPoptsIxsm then
        E1000.checksumTx tp' tp'.ipcso tp'.ipcss tp'.ipcse else tp') := by
    intro tp tp' h
    obtain ⟨v, vh, c, rfl, -, -⟩ := id h
    dsimp only
    split_ifs
    · exact h.checksumTx _ _ _
    · exact h
  exact hipcs (htucs (hsegment h))

theorem insertVlan (h : TxAlike busy tp tp') (hneeded : tp.vlanNeeded = true) :
    TxAlike busy (E1000.insertVlan tp) (E1000.insertVlan tp') ∧
      (E1000.insertVlan tp').vlan.slice 0 4 = (E1000.insertVlan tp).vlan.slice 0 4 ∧
      (E1000.insertVlan tp').data = (E1000.insertVlan tp).data := by
  obtain ⟨v, vh, c, rfl, htag, hc⟩ := h
  have hdata : ∀ b : Buffer, b.store 8 (vh.slice 0 4) = b.store 8 (tp.vlanHeader.slice 0 4) :=
    fun b => by rw [htag hneeded]
  refine ⟨⟨v.store 0 (tp.data.slice 0 4), vh, c, ?_, htag, hc⟩, ?_, ?_⟩
  · simp only [E1000.insertVlan, hdata]
  · simp only [E1000.insertVlan]
    rw [Buffer.slice_store_self _ _ (by simp), Buffer.slice_store_self _ _ (by simp)]
  · simp only [E1000.insertVlan, hdata]

theorem beginData (h : TxAlike busy tp tp') (dp : TxDesc) (dataDesc : Bool) :
    TxAlike true (E1000.beginData tp dp dataDesc) (E1000.beginData tp' dp dataDesc) := by
  obtain ⟨v, vh, c, rfl, htag, -⟩ := h
  cases dataDesc with
  | true => exact ⟨v, vh, _, rfl, htag, fun _ => rfl⟩
  | false => exact ⟨v, vh, _, rfl, htag, fun _ => rfl⟩

theorem tagTx (h : TxAlike true tp tp') {s s' : E1000State} (hs : s'.macReg = s.macReg)
    (dp : TxDesc) : TxAlike true (E1000.tagTx s tp dp) (E1000.tagTx s' tp' dp) := by
  obtain ⟨v, vh, c, rfl, htag, hc⟩ := id h
  obtain rfl := hc rfl
  have hvme : vlanEnabled s' = vlanEnabled s := by rw [vlanEnabled, hs, vlanEnabled]
  cases hcond : vlanEnabled s && isVlanTxd dp && (tp.cptse || txdEop dp) with
  | true =>
      simp only [E1000.tagTx, hvme, hcond, if_true]
      refine ⟨v, _, tp.cptse, rfl, fun _ => ?_, fun _ => rfl⟩
      rw [slice_tag, slice_tag, hs]
  | false =>
      simp only [E1000.tagTx, hvme, hcond, Bool.false_eq_true, if_false]
      exact h

theorem contextTx (h : TxAlike busy tp tp') (dp : TxDesc) :
    TxAlike busy (E1000.contextTx tp dp) (E1000.contextTx tp' dp) := by
  obtain ⟨v, vh, c, rfl, htag, hc⟩ := h
  exact ⟨v, vh, c, rfl, htag, hc⟩

theorem restoreHeader (h : TxAlike busy tp tp') :
    TxAlike busy (E1000.restoreHeader tp) (E1000.restoreHeader tp') := by
  obtain ⟨v, vh, c, rfl, htag, hc⟩ := h
  exact ⟨v, vh, c, rfl, htag, hc⟩

theorem appendChunk (h : TxAlike busy tp tp') (chunk : List U8) :
    TxAlike busy (E1000.appendChunk tp chunk) (E1000.appendChunk tp' chunk) := by
  obtain ⟨v, vh, c, rfl, htag, hc⟩ := h
  exact ⟨v, vh, c, rfl, htag, hc⟩

end TxAlike

/-! ## Transmission -/

section Transmission

variable {busy : Bool} {w w' : World}

theorem Alike.idle (h : Alike busy w w') : Alike false w w' := by
  obtain ⟨hid, tp, hdev, htx⟩ := h.dev
  exact ⟨⟨hid, tp, hdev, htx.idle⟩, h.mem, h.seen⟩

theorem qemuSendPacket_alike (h : Alike busy w w') (frame : List U8) :
    Alike busy (qemuSendPacket w frame) (qemuSendPacket w' frame) := by
  have hlink : w'.dev.linkDown = w.dev.linkDown := h.congr E1000State.linkDown fun _ _ _ => rfl
  rw [qemuSendPacket, qemuSendPacket, hlink]
  exact h.emit _

theorem e1000SendPacket_alike (h : Alike busy w w') (fuel : Nat) (frame : List U8) :
    Run.Rel (fun r r' => Alike busy r.1 r'.1 ∧ r'.2 = r.2)
      (e1000SendPacket fuel w frame) (e1000SendPacket fuel w' frame) := by
  have hphy : w'.dev.phyReg = w.dev.phyReg := h.congr E1000State.phyReg fun _ _ _ => rfl
  simp only [e1000SendPacket, hphy]
  split_ifs
  · refine (e1000ReceiveIov_alike h fuel [frame]).bind ?_
    rintro r r' ⟨-, hcaller, hworld⟩
    exact .ok ⟨hworld, by rw [hcaller]⟩
  · exact .ok ⟨qemuSendPacket_alike h frame, rfl⟩

/-- The receiver never touches `tx`, so the frame's owner still finds it there. -/
theorem sendFrame_alike (h : Alike busy w w') (fuel : Nat) :
    Run.Rel (Alike busy) (sendFrame fuel w) (sendFrame fuel w') := by
  have hsize := h.tx.size
  obtain ⟨v, vh, c, htp, -, -⟩ := h.tx
  have hneeded : w'.dev.tx.vlanNeeded = w.dev.tx.vlanNeeded := by rw [htp]
  have hdata : w'.dev.tx.data = w.dev.tx.data := by rw [htp]
  simp only [sendFrame, hneeded, hsize]
  split_ifs with htag
  · obtain ⟨hins, hvlan, hbytes⟩ := h.tx.insertVlan htag
    rw [hvlan, hbytes]
    refine (e1000SendPacket_alike (h.setTx hins) fuel _).bind ?_
    rintro ⟨u, bytes⟩ ⟨u', bytes'⟩ ⟨hu, heq⟩
    obtain rfl : bytes' = bytes := heq
    refine .ok (hu.setTx ?_)
    obtain ⟨v', vh', c', htp', htag', hc'⟩ := hu.tx
    rw [htp']
    exact ⟨_, vh', c', rfl, htag', hc'⟩
  · rw [hdata]
    refine (e1000SendPacket_alike h fuel _).bind ?_
    rintro ⟨u, bytes⟩ ⟨u', bytes'⟩ ⟨hu, heq⟩
    obtain rfl : bytes' = bytes := heq
    refine .ok (hu.setTx ?_)
    obtain ⟨v', vh', c', htp', htag', hc'⟩ := hu.tx
    rw [htp']
    exact ⟨v', vh', c', rfl, htag', hc'⟩

theorem Alike.ite {c c' : Prop} [Decidable c] [Decidable c'] {u u' : World} (hc : c' ↔ c)
    (ht : Alike busy w w') (he : Alike busy u u') :
    Alike busy (if c then w else u) (if c' then w' else u') := by
  by_cases h : c
  · rw [if_pos h, if_pos (hc.2 h)]
    exact ht
  · rw [if_neg h, if_neg (mt hc.1 h)]
    exact he

theorem Alike.bump (h : Alike busy w w') (i : Nat) (f : U32 → U32) :
    Alike busy (w.setReg i (f (w.reg i))) (w'.setReg i (f (w'.reg i))) := by
  rw [h.reg]
  exact h.setReg i _

theorem countFrame_alike (h : Alike busy w w') : Alike busy (countFrame w) (countFrame w') := by
  have hsize : w'.dev.tx.size = w.dev.tx.size := h.tx.size
  have hgptc := (h.bump Reg.tpt (· + 1)).bump Reg.gptc (· + 1)
  have htotl := hgptc.bump Reg.totl (· + w.dev.tx.size.setWidth 32)
  simp only [countFrame, World.dev_setReg, hsize]
  exact .ite (by rw [htotl.reg, hgptc.reg]) (htotl.bump Reg.toth (· + 1)) htotl

theorem xmitSeg_alike (h : Alike true w w') (fuel : Nat) :
    Run.Rel (Alike true) (xmitSeg fuel w) (xmitSeg fuel w') := by
  refine (sendFrame_alike (h.setTx h.tx.finishFrame) fuel).bind ?_
  exact fun u u' hu => .ok (countFrame_alike hu)

theorem flushSegment_alike (h : Alike true w w') (fuel : Nat) (complete : Bool) :
    Run.Rel (Alike true) (flushSegment fuel complete w) (flushSegment fuel complete w') := by
  simp only [flushSegment]
  split_ifs
  · refine (xmitSeg_alike h fuel).bind ?_
    exact fun u u' hu => .ok (hu.setTx hu.tx.restoreHeader)
  · exact .ok h

theorem tsoBytes_alike {tp tp' : E1000Tx} (h : TxAlike busy tp tp') (msh splitSize : U32) :
    tsoBytes tp' msh splitSize = tsoBytes tp msh splitSize := by
  simp only [tsoBytes, h.size]

theorem tsoBody_alike {msh : U32} {fuel : Nat} {st st' : TsoLoop}
    (hst : ∃ w', st' = { st with world := w' } ∧ Alike true st.world w') :
    Run.Rel (fun x y =>
      (∃ a b, x = .next a ∧ y = .next b ∧
        ∃ w', b = { a with world := w' } ∧ Alike true a.world w') ∨
      (∃ a b, x = .done a ∧ y = .done b ∧ Alike true a b))
      (tsoBody msh fuel st) (tsoBody msh fuel st') := by
  obtain ⟨v, rfl, h⟩ := hst
  simp only [tsoBody, tsoBytes_alike h.tx, h.tx.size, World.fst_dmaRead, World.snd_dmaRead,
    h.mem]
  refine (flushSegment_alike ((h.emit _).setTx (h.tx.appendChunk _)) fuel _).bind ?_
  intro u u' hu
  split_ifs
  · exact .ok (.inl ⟨_, _, rfl, rfl, _, rfl, hu⟩)
  · exact .ok (.inr ⟨_, _, rfl, rfl, hu⟩)

theorem fetchData_alike (h : Alike true w w') (fuel : Nat) (dp : TxDesc) :
    Run.Rel (Alike true) (fetchData fuel w dp) (fetchData fuel w' dp) := by
  obtain ⟨v, vh, c, htp, htag, hc⟩ := h.tx
  obtain rfl := hc rfl
  have htse : w'.dev.tx.tse = w.dev.tx.tse := by rw [htp]
  have hcptse : w'.dev.tx.cptse = w.dev.tx.cptse := by rw [htp]
  have hmsh : tsoMsh w'.dev.tx = tsoMsh w.dev.tx := by rw [htp]; rfl
  simp only [fetchData, htse, hcptse, hmsh, h.tx.size, World.fst_dmaRead, World.snd_dmaRead,
    h.mem]
  split_ifs
  · exact loop_rel (fun st st' hst => tsoBody_alike hst) fuel ⟨w', rfl, h⟩
  · exact .ok h
  · refine .ok ((h.emit _).setTx ?_)
    rw [htp]
    exact ⟨v, vh, _, rfl, htag, fun _ => rfl⟩

theorem sendLast_alike (h : Alike true w w') (fuel : Nat) :
    Run.Rel (Alike true) (sendLast fuel w) (sendLast fuel w') := by
  obtain ⟨v, vh, c, htp, -, hc⟩ := h.tx
  obtain rfl := hc rfl
  have htse : w'.dev.tx.tse = w.dev.tx.tse := by rw [htp]
  have hcptse : w'.dev.tx.cptse = w.dev.tx.cptse := by rw [htp]
  have hlen : w'.dev.tx.hdrLen = w.dev.tx.hdrLen := by rw [htp]
  simp only [sendLast, htse, hcptse, hlen, h.tx.size]
  split_ifs
  · exact .ok h
  · exact xmitSeg_alike h fuel

theorem endPacket_alike (h : Alike true w w') (fuel : Nat) :
    Run.Rel (Alike true) (endPacket fuel w) (endPacket fuel w') := by
  refine (sendLast_alike h fuel).bind ?_
  intro u u' hu
  refine .ok (hu.setTx ?_)
  obtain ⟨v, vh, c, htp, -, -⟩ := hu.tx
  rw [htp]
  exact ⟨v, vh, false, rfl, nofun, fun _ => rfl⟩

theorem Alike.edit (h : Alike busy w w') (f : E1000State → E1000State)
    (hf : ∀ s hid tp, ∃ hid', f { s.hide hid with tx := tp } =
      { (f s).hide hid' with tx := tp })
    (htx : ∀ s, (f s).tx = s.tx) :
    Alike busy { w with dev := f w.dev } { w' with dev := f w'.dev } := by
  obtain ⟨hid, tp, hdev, hlike⟩ := h.dev
  obtain ⟨hid', hedit⟩ := hf w.dev hid tp
  refine ⟨⟨hid', tp, ?_, ?_⟩, h.mem, h.seen⟩
  · rw [hdev]
    exact hedit
  · rw [htx]
    exact hlike

theorem noteIde_alike (h : Alike busy w w') (dp : TxDesc) :
    Alike busy (noteIde w dp) (noteIde w' dp) :=
  h.edit (fun s => { s with mitIde := s.mitIde ||| (dp.lower &&& txdCmdIde) })
    (fun _ hid _ => ⟨{ hid with mitIde := _ }, rfl⟩) fun _ => rfl

/-- `cptse` is written first, so a descriptor starts from a settled `tx`. -/
theorem beginDesc_alike (h : Alike false w w') (dp : TxDesc) :
    Alike true (beginDesc w dp) (beginDesc w' dp) := by
  have hide := noteIde_alike h dp
  have hregs : (noteIde w' dp).dev.macReg = (noteIde w dp).dev.macReg :=
    hide.congr E1000State.macReg fun _ _ _ => rfl
  exact hide.setTx ((hide.tx.beginData dp _).tagTx hregs dp)

theorem processTxDesc_alike (h : Alike false w w') (fuel : Nat) (dp : TxDesc) :
    Run.Rel (Alike false) (processTxDesc fuel w dp) (processTxDesc fuel w' dp) := by
  simp only [processTxDesc]
  split_ifs
  · have hide := noteIde_alike h dp
    exact .ok (hide.setTx (hide.tx.contextTx dp))
  · refine (fetchData_alike (beginDesc_alike h dp) fuel dp).bind ?_
    intro u u' hu
    exact (endPacket_alike hu fuel).mono fun _ _ hv => hv.idle
  · refine (fetchData_alike (beginDesc_alike h dp) fuel dp).bind ?_
    exact fun u u' hu => .ok hu.idle

theorem txHeadAddr_alike (h : Alike busy w w') : txHeadAddr w' = txHeadAddr w := by
  rw [txHeadAddr, txHeadAddr, h.reg, h.congr txDescBase fun _ _ _ => rfl]

def XmitAlike (st st' : XmitLoop) : Prop :=
  st'.cause = st.cause ∧ Alike false st.world st'.world

theorem finishDesc_alike (h : Alike false w w') (cause : U32) (base : U64) (dp : TxDesc) :
    XmitAlike (finishDesc cause base dp w) (finishDesc cause base dp w') := by
  simp only [finishDesc, txdescWriteback]
  split_ifs
  · refine ⟨rfl, ?_⟩
    simp only [World.reg_dmaWrite, h.reg]
    exact (h.dmaWrite _ _ _).setReg _ _
  · refine ⟨rfl, ?_⟩
    simp only [h.reg]
    exact h.setReg _ _

theorem xmitBody_alike {tdhStart : U32} {fuel : Nat} {st st' : XmitLoop}
    (hst : XmitAlike st st') :
    Run.Rel (fun x y =>
      (∃ a b, x = .next a ∧ y = .next b ∧ XmitAlike a b) ∨
      (∃ a b, x = .done a ∧ y = .done b ∧ XmitAlike a b))
      (xmitBody tdhStart fuel st) (xmitBody tdhStart fuel st') := by
  obtain ⟨hcause, h⟩ := id hst
  simp only [xmitBody, h.reg, txHeadAddr_alike h, h.mem, hcause]
  split_ifs
  · exact .ok (.inr ⟨_, _, rfl, rfl, hst⟩)
  · refine (processTxDesc_alike (h.emit _) fuel _).bind ?_
    intro u u' hu
    have hfin := finishDesc_alike hu st.cause (txHeadAddr st.world)
      (TxDesc.fetch st.world.mem (txHeadAddr st.world))
    rw [hfin.2.reg]
    split_ifs
    · exact .ok (.inr ⟨_, _, rfl, rfl, hfin⟩)
    · exact .ok (.inl ⟨_, _, rfl, rfl, hfin⟩)

theorem startXmit_alike (h : Alike false w w') (fuel : Nat) :
    Run.Rel (Alike false) (startXmit fuel w) (startXmit fuel w') := by
  simp only [startXmit, h.reg]
  split_ifs
  · refine Run.Rel.bind (loop_rel (fun st st' hst => xmitBody_alike hst) fuel ⟨rfl, h⟩) ?_
    rintro st st' ⟨hcause, hv⟩
    rw [hcause]
    exact .ok (hv.setIcs _)
  · exact .ok h

end Transmission

/-! ## The register interface -/

section Registers

variable {w w' : World}

theorem macWritereg_alike (h : Alike false w w') (i : Nat) (val : U32) :
    Alike false (macWritereg w i val) (macWritereg w' i val) := by
  have hset := h.setReg i val
  simp only [macWritereg, hset.reg]
  split_ifs
  · exact hset.emit _
  · exact hset

theorem setPhyCtrl_alike (h : Alike false w w') (val : U16) :
    Alike false (setPhyCtrl w val) (setPhyCtrl w' val) := by
  have hflags : w'.dev.compatFlags = w.dev.compatFlags :=
    h.congr E1000State.compatFlags fun _ _ _ => rfl
  simp only [setPhyCtrl, hflags]
  split_ifs
  · exact (h.edit (fun s => { e1000LinkDown s with
      phyReg := Function.update (e1000LinkDown s).phyReg Phy.status
        ((e1000LinkDown s).phyReg Phy.status &&& ~~~miiSrAutonegComplete)
      autonegTimer := true })
      (fun _ hid _ => ⟨{ hid with autonegTimer := true }, rfl⟩) fun _ => rfl).emit _
  · exact h

theorem phyWrite_alike (h : Alike false w w') (addr : Nat) (v : U16) :
    Alike false
      { w with dev := { w.dev with phyReg := Function.update w.dev.phyReg addr v } }
      { w' with dev := { w'.dev with phyReg := Function.update w'.dev.phyReg addr v } } :=
  h.edit (fun s => { s with phyReg := Function.update s.phyReg addr v })
    (fun _ hid _ => ⟨hid, rfl⟩) fun _ => rfl

theorem mdicCommand_alike (h : Alike false w w') (val : U32) :
    (mdicCommand w' val).1 = (mdicCommand w val).1 ∧
      Alike false (mdicCommand w val).2 (mdicCommand w' val).2 := by
  have hphy : w'.dev.phyReg = w.dev.phyReg := h.congr E1000State.phyReg fun _ _ _ => rfl
  simp only [mdicCommand, h.reg, hphy]
  split_ifs
  · exact ⟨rfl, h⟩
  · exact ⟨rfl, h⟩
  · exact ⟨rfl, h⟩
  · exact ⟨rfl, phyWrite_alike (setPhyCtrl_alike h _) _ _⟩
  · exact ⟨rfl, phyWrite_alike h _ _⟩
  · exact ⟨rfl, h⟩
  · exact ⟨rfl, h⟩

theorem setMdic_alike (h : Alike false w w') (val : U32) :
    Alike false (setMdic w val) (setMdic w' val) := by
  obtain ⟨hval, hphy⟩ := mdicCommand_alike h val
  have hset := hphy.setReg Reg.mdic ((mdicCommand w val).1 ||| mdicReady)
  simp only [setMdic, hval]
  split_ifs
  · exact hset.setIcs _
  · exact hset

theorem setEecd_alike (h : Alike false w w') (val : U32) :
    Alike false { w with dev := setEecd w.dev val } { w' with dev := setEecd w'.dev val } :=
  h.edit (setEecd · val) (fun _ hid _ => ⟨hid, rfl⟩) fun _ => rfl

theorem setRxControl_alike (h : Alike false w w') (val : U32) :
    Alike false (setRxControl w val) (setRxControl w' val) :=
  ((h.setReg Reg.rctl val).edit (fun s => { s with
    rxbufSize := BitVec.ofNat 32 (rxbufsize val)
    rxbufMinShift := ((val / rctlRdmtsQuat) &&& 3#32) + 1 })
    (fun _ hid _ => ⟨hid, rfl⟩) fun _ => rfl).emit _

theorem setRdt_alike (h : Alike false w w') (i : Nat) (val : U32) :
    Alike false (setRdt w i val) (setRdt w' i val) := by
  have hset := h.setReg i (val &&& 0xffff#32)
  have hroom := hset.congr (fun s => e1000HasRxbufs s 1) fun _ _ _ => rfl
  simp only [setRdt, hroom]
  split_ifs
  · exact hset.emit _
  · exact hset

theorem setTctl_alike (h : Alike false w w') (fuel i : Nat) (val : U32) :
    Run.Rel (Alike false) (setTctl fuel w i val) (setTctl fuel w' i val) :=
  startXmit_alike ((h.setReg i val).bump Reg.tdt (· &&& 0xffff#32)) fuel

theorem setIcr_alike (h : Alike false w w') (val : U32) :
    Alike false (setIcr w val) (setIcr w' val) := by
  rw [setIcr, setIcr, h.reg]
  exact h.setInterruptCause _

theorem runReadOp_alike (h : Alike false w w') (op : ReadOp) (i : Nat) :
    (runReadOp op w' i).2 = (runReadOp op w i).2 ∧
      Alike false (runReadOp op w i).1 (runReadOp op w' i).1 := by
  cases op with
  | macReadreg => exact ⟨h.reg i, h⟩
  | macReadClr4 => exact ⟨h.reg i, h.setReg _ _⟩
  | macReadClr8 => exact ⟨h.reg i, (h.setReg _ _).setReg _ _⟩
  | macIcrRead => exact ⟨h.reg _, h.setInterruptCause _⟩
  | getEecd => exact ⟨h.congr E1000.getEecd fun _ _ _ => rfl, h⟩
  | flashEerdRead => exact ⟨h.congr E1000.flashEerdRead fun _ _ _ => rfl, h⟩

theorem runWriteOp_alike (h : Alike false w w') (fuel : Nat) (op : WriteOp) (i : Nat)
    (val : U32) :
    Run.Rel (Alike false) (runWriteOp fuel op w i val) (runWriteOp fuel op w' i val) := by
  cases op with
  | macWritereg => exact .ok (macWritereg_alike h i val)
  | setDlen => exact .ok (h.setReg _ _)
  | setTctl => exact setTctl_alike h fuel i val
  | setMdic => exact .ok (setMdic_alike h val)
  | setIcs => exact .ok (h.setIcs val)
  | set16bit => exact .ok (h.setReg _ _)
  | setRdt => exact .ok (setRdt_alike h i val)
  | setImc => exact .ok ((h.bump Reg.ims (· &&& ~~~val)).setIcs 0)
  | setIms => exact .ok ((h.bump Reg.ims (· ||| val)).setIcs 0)
  | setIcr => exact .ok (setIcr_alike h val)
  | setEecd => exact .ok (setEecd_alike h val)
  | setRxControl => exact .ok (setRxControl_alike h val)
  | setCtrl => exact .ok (h.setReg _ _)

end Registers

/-! ## Guest runs -/

/-- The operations of the guest and of the network, as opposed to host events. -/
def Op.guest : Op → Bool
  | .mmioRead _ => true
  | .mmioWrite _ _ => true
  | .receive _ => true
  | .guestStore _ => true
  | _ => false

def runOps (fuel : Nat) (w : World) : List Op → Run (World × List Reply)
  | [] => .ok (w, [])
  | op :: ops => do
      let (w, reply) ← step fuel w op
      let (w, replies) ← runOps fuel w ops
      .ok (w, reply :: replies)

/-- The frames sent and the DMA writes made so far, and the answers given. -/
def observe (r : World × List Reply) : List Event × List Reply := (r.1.seen, r.2)

theorem step_alike {w w' : World} (h : Alike false w w') (fuel : Nat) {op : Op}
    (hop : op.guest = true) :
    Run.Rel (fun r r' => Alike false r.1 r'.1 ∧ r'.2 = r.2) (step fuel w op)
      (step fuel w' op) := by
  cases op with
  | mmioRead addr =>
      simp only [step, e1000MmioRead]
      cases macregReadops (mmioIndex addr) with
      | none => exact .ok ⟨h, rfl⟩
      | some op =>
          obtain ⟨hval, hworld⟩ := runReadOp_alike h op (mmioIndex addr)
          exact .ok ⟨hworld, by simp only [hval]⟩
  | mmioWrite addr val =>
      simp only [step, e1000MmioWrite]
      cases macregWriteops (mmioIndex addr) with
      | none => exact .ok ⟨h, rfl⟩
      | some op =>
          refine (runWriteOp_alike h fuel op _ _).bind ?_
          exact fun u u' hu => .ok ⟨hu, rfl⟩
  | receive iov =>
      refine (e1000ReceiveIov_alike h fuel iov).bind ?_
      rintro r r' ⟨hret, -, hworld⟩
      exact .ok ⟨hworld, by rw [hret]⟩
  | guestStore mem => exact .ok ⟨⟨h.dev, rfl, h.seen⟩, rfl⟩
  | linkStatus down => cases hop
  | autonegTimer => cases hop
  | mitTimer => cases hop
  | preSave => cases hop
  | reset => cases hop

theorem runOps_alike {w w' : World} (h : Alike false w w') (fuel : Nat) {ops : List Op}
    (hops : ∀ op ∈ ops, op.guest = true) :
    Run.Rel (fun r r' => Alike false r.1 r'.1 ∧ r'.2 = r.2) (runOps fuel w ops)
      (runOps fuel w' ops) := by
  induction ops generalizing w w' with
  | nil => exact .ok ⟨h, rfl⟩
  | cons op ops ih =>
      obtain ⟨hop, hrest⟩ := List.forall_mem_cons.mp hops
      refine (step_alike h fuel hop).bind ?_
      rintro ⟨u, reply⟩ ⟨u', reply'⟩ ⟨hu, heq⟩
      obtain rfl : reply' = reply := heq
      refine (ih hu hrest).bind ?_
      rintro ⟨v, replies⟩ ⟨v', replies'⟩ ⟨hv, heq⟩
      obtain rfl : replies' = replies := heq
      exact .ok ⟨hv, rfl⟩

/-- No guest operations, whatever their number, tell the two worlds apart. -/
def Indistinguishable (w w' : World) : Prop :=
  ∀ fuel ops, (∀ op ∈ ops, Op.guest op = true) →
    observe <$> runOps fuel w' ops = observe <$> runOps fuel w ops

theorem Alike.indistinguishable {w w' : World} (h : Alike false w w') :
    Indistinguishable w w' := by
  intro fuel ops hops
  have hrel := runOps_alike h fuel hops
  generalize runOps fuel w ops = x at hrel
  generalize runOps fuel w' ops = y at hrel
  cases hrel with
  | ok hab => rw [Run.map_ok, Run.map_ok, observe, observe, hab.1.seen, hab.2]
  | fault => rfl
  | timeout => rfl

/-! ## Concrete runs -/

theorem Reachable.runOps {fuel : Nat} {w w' : World} {ops : List Op} {replies : List Reply}
    (h : Reachable w) (hrun : E1000.runOps fuel w ops = .ok (w', replies)) :
    Reachable w' := by
  induction ops generalizing w replies with
  | nil =>
      cases hrun
      exact h
  | cons op ops ih =>
      obtain ⟨⟨u, reply⟩, hstep, hrun⟩ := Run.bind_eq_ok.mp hrun
      obtain ⟨⟨v, rest⟩, hrest, hrun⟩ := Run.bind_eq_ok.mp hrun
      cases hrun
      exact ih (.step h hstep) hrest

def afterSetup (flags : U32) (down : Bool) (mem : Memory) (setup : List Op)
    (check : World → Bool) : Run Bool :=
  runOps 4 (powerOn (fun _ => 0) flags down mem) setup >>= fun r => .ok (check r.1)

theorem exists_reachable_of_afterSetup {flags : U32} {down : Bool} {mem : Memory}
    {setup : List Op} {check : World → Bool}
    (h : afterSetup flags down mem setup check = .ok true) :
    ∃ w, Reachable w ∧ check w = true := by
  obtain ⟨⟨w, replies⟩, hrun, hcheck⟩ := Run.bind_eq_ok.mp h
  exact ⟨w, Reachable.runOps (.powerOn _ _ _ _) hrun, by simpa using hcheck⟩

end SE4VM.E1000
