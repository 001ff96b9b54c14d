import SE4VM.E1000.ReceiveStored
import SE4VM.E1000.SegmentCalls

/-!
# A tag inserted and stripped

In PHY loopback a tagged frame comes back to the device that sent it.  The
receiver takes out what the transmitter put in: the guest gets the frame back and
finds the tag of its own descriptor in those of the receive ring.
-/

namespace SE4VM.E1000

open SE4VM.Foundation

/-! ## The frame with its tag -/

def tagFrame (tag frame : List U8) : List U8 := frame.take 12 ++ (tag ++ frame.drop 12)

theorem insertVlan_data (data vlanHeader : Buffer) (n : Nat) :
    ((data.store 0 (data.slice 4 8)).store 8 (vlanHeader.slice 0 4)).slice 0 (12 + n) =
      data.slice 4 8 ++ (vlanHeader.slice 0 4 ++ data.slice 12 n) := by
  have haddr : ((data.store 0 (data.slice 4 8)).store 8 (vlanHeader.slice 0 4)).slice 0 8 =
      data.slice 4 8 := by
    rw [Buffer.slice_store_of_disjoint _ (.inl (by decide)),
      Buffer.slice_store_self _ _ (Buffer.length_slice _ _ _)]
  have htag : ((data.store 0 (data.slice 4 8)).store 8 (vlanHeader.slice 0 4)).slice 8 4 =
      vlanHeader.slice 0 4 := Buffer.slice_store_self _ _ (Buffer.length_slice _ _ _)
  have hrest : ((data.store 0 (data.slice 4 8)).store 8 (vlanHeader.slice 0 4)).slice 12 n =
      data.slice 12 n := by
    rw [Buffer.slice_store_of_disjoint _ (.inr (by rw [Buffer.length_slice])),
      Buffer.slice_store_of_disjoint _ (.inr (by rw [Buffer.length_slice]; decide))]
  rw [show 12 + n = 8 + (4 + n) by omega, Buffer.slice_append, Buffer.slice_append, haddr,
    Nat.zero_add, htag, hrest]

/-- The tagged frame starts in `vlan` and continues in `data`. -/
theorem frameSent_tagged {tp : E1000Tx} (htag : tp.vlanNeeded = true)
    (hsize : 12 ≤ tp.size.toNat) :
    frameSent tp = tagFrame (tp.vlanHeader.slice 0 4)
      ((finishFrame tp).data.slice 0 tp.size.toNat) := by
  obtain ⟨vlan, data, frames, hedit⟩ := finishFrame_edited tp
  obtain ⟨n, hn⟩ := Nat.exists_eq_add_of_le hsize
  have htake : (data.slice 0 (12 + n)).take 12 = data.slice 0 4 ++ data.slice 4 8 := by
    rw [Buffer.take_slice _ _ (Nat.le_add_right _ _), show (12 : Nat) = 4 + 8 from rfl,
      Buffer.slice_append]
  have hdrop : (data.slice 0 (12 + n)).drop 12 = data.slice 12 n := by
    rw [Buffer.drop_slice _ _ (Nat.le_add_right _ _), Nat.zero_add, Nat.add_sub_cancel_left]
  have hvlan : (vlan.store 0 (data.slice 0 4)).slice 0 4 = data.slice 0 4 :=
    Buffer.slice_store_self _ _ (Buffer.length_slice _ _ _)
  rw [tagFrame, hedit]
  simp only [frameSent, frameTx, hedit, htag, if_true, insertVlan, hn]
  rw [hvlan, insertVlan_data, htake, hdrop, List.append_assoc]

section Tag

variable {vet : U16} (special : U16) {frame : List U8}

theorem length_tagFrame {tag : List U8} (htag : tag.length = 4) :
    (tagFrame tag frame).length = frame.length + 4 := by
  simp only [tagFrame, List.length_append, List.length_take, List.length_drop, htag]
  omega

theorem append_toBe (v : U16) (xs ys : List U8) :
    be16 (xs ++ (toBe 2 v.toNat ++ ys)) xs.length = v := by
  have hv := v.isLt
  have hhigh : (xs ++ (toBe 2 v.toNat ++ ys)).getD xs.length 0 =
      BitVec.ofNat 8 (v.toNat / 256) := by
    simp [toBe, toLe]
  have hlow : (xs ++ (toBe 2 v.toNat ++ ys)).getD (xs.length + 1) 0 = BitVec.ofNat 8 v.toNat := by
    simp [toBe, toLe]
  rw [be16, hhigh, hlow]
  refine BitVec.eq_of_toNat_eq ?_
  rw [BitVec.toNat_append, ← Nat.shiftLeft_add_eq_or_of_lt (BitVec.isLt _), Nat.shiftLeft_eq,
    BitVec.toNat_ofNat, BitVec.toNat_ofNat]
  omega

variable (hlen : 56 ≤ frame.length)

include hlen

theorem be16_tagFrame :
    be16 (tagFrame (toBe 2 vet.toNat ++ toBe 2 special.toNat) frame) 12 = vet ∧
      be16 (tagFrame (toBe 2 vet.toNat ++ toBe 2 special.toNat) frame) 14 = special := by
  have haddr : (frame.take 12).length = 12 := List.length_take_of_le (by omega)
  have hvet := append_toBe vet (frame.take 12) (toBe 2 special.toNat ++ frame.drop 12)
  have hspecial := append_toBe special (frame.take 12 ++ toBe 2 vet.toNat) (frame.drop 12)
  rw [haddr] at hvet
  rw [List.length_append, haddr, length_toBe] at hspecial
  rw [tagFrame, List.append_assoc]
  exact ⟨hvet, by rw [← List.append_assoc]; exact hspecial⟩

theorem padFrame_tagFrame {tag : List U8} (htag : tag.length = 4) :
    padFrame (tagFrame tag frame) = tagFrame tag frame := by
  refine padFrame_of_le ?_
  rw [length_tagFrame htag]
  simp only [minBufSize]
  omega

/-- Stripping undoes the insertion, and what is stripped is what was inserted. -/
theorem frame_tagFrame {s : E1000State} (hvme : vlanEnabled s = true)
    (hvet : (s.macReg Reg.vet).setWidth 16 = vet) :
    let pkt := tagFrame (toBe 2 vet.toNat ++ toBe 2 special.toNat) frame
    tagged s pkt = true ∧ frameBytes s pkt = frame ∧ frameSpecial s pkt = special := by
  obtain ⟨hbe, hspecial⟩ : be16 (tagFrame (toBe 2 vet.toNat ++ toBe 2 special.toNat) frame) 12 =
      vet ∧ be16 (tagFrame (toBe 2 vet.toNat ++ toBe 2 special.toNat) frame) 14 = special :=
    be16_tagFrame special hlen
  have htaglen : (toBe 2 vet.toNat ++ toBe 2 special.toNat).length = 4 := by
    rw [List.length_append, length_toBe, length_toBe]
  have hpad := padFrame_tagFrame hlen htaglen
  have htag : tagged s (tagFrame (toBe 2 vet.toNat ++ toBe 2 special.toNat) frame) = true := by
    rw [tagged, hpad, hvme, isVlanPacket, hbe, hvet, beq_self_eq_true]
    rfl
  have haddr : (frame.take 12).length = 12 := List.length_take_of_le (by omega)
  refine ⟨htag, ?_, ?_⟩
  · rw [frameBytes, if_pos htag, hpad, tagFrame, List.take_left' haddr, ← List.append_assoc,
      List.drop_left' (by rw [List.length_append, haddr, htaglen]), List.take_append_drop]
  · rw [frameSpecial, if_pos htag, hpad, hspecial]

end Tag

/-! ## The way through the device -/

/--
The descriptor `dp` ends a packet that is not segmented and is to be tagged; `w₁`
is reached when its data is gathered.  The device loops the frame back to itself,
accepts it and has buffers for it among the slots that the guest handed over.
-/
structure TaggedLoopback (w : World) (dp : TxDesc) (w₁ : World) : Prop where
  not_context : descType dp ≠ txdCmdDext
  eop : txdEop dp = true
  vle : isVlanTxd dp = true
  vme : vlanEnabled w.dev = true
  not_tso : ((beginDesc w dp).dev.tx.tse && (beginDesc w dp).dev.tx.cptse) = false
  fetch : fetchData 0 (beginDesc w dp) dp = .ok w₁
  size : 56 ≤ w₁.dev.tx.size.toNat
  loopback : test (w.dev.phyReg Phy.ctrl) miiCrLoopback = true
  accepted : accepted w.dev (frameSent w₁.dev.tx) = true
  rdh : (w.reg Reg.rdh).toNat < rxSlots w
  rdt : (w.reg Reg.rdt).toNat < rxSlots w
  room : (frameParams w (frameSent w₁.dev.tx)).totalSize ≤ ownedRoom w (frameSent w₁.dev.tx)

/-- `w` with another `tx`, another note about `IDE` and another log. -/
def withTx (w : World) (tp : E1000Tx) (ide : U32) (log : List Event) : World :=
  { w with dev := { w.dev with tx := tp, mitIde := ide }, log := log }

section Loopback

variable {w w₁ : World} {dp : TxDesc}

/-- Gathering the data changes no register and no memory. -/
theorem TaggedLoopback.gathered (h : TaggedLoopback w dp w₁) :
    (w₁.dev.tx.tse && w₁.dev.tx.cptse) = false ∧ w₁.dev.tx.vlanNeeded = true ∧
      w₁.dev.tx.vlanHeader.slice 0 4 =
        toBe 2 ((w.dev.macReg Reg.vet).setWidth 16 : U16).toNat ++ toBe 2 dp.special.toNat ∧
      ∃ ide log, w₁ = withTx w w₁.dev.tx ide log := by
  have htag : (beginDesc w dp).dev.tx.vlanNeeded = true ∧
      (beginDesc w dp).dev.tx.vlanHeader.slice 0 4 =
        toBe 2 ((w.dev.macReg Reg.vet).setWidth 16 : U16).toNat ++ toBe 2 dp.special.toNat := by
    have hcond : ∀ tp : E1000Tx, (vlanEnabled (noteIde w dp).dev && isVlanTxd dp &&
        (tp.cptse || txdEop dp)) = true := by
      intro tp
      rw [show vlanEnabled (noteIde w dp).dev = vlanEnabled w.dev from rfl, h.vme, h.vle, h.eop,
        Bool.or_true]
      rfl
    simp only [beginDesc, World.dev_setTx, tagTx, if_pos (hcond _)]
    exact ⟨trivial, slice_tag _ _ _⟩
  have hfetch := h.fetch
  simp only [fetchData, h.not_tso, Bool.false_eq_true, if_false] at hfetch
  split_ifs at hfetch with hcptse
  · cases hfetch
    exact ⟨h.not_tso, htag.1, htag.2, _, _, rfl⟩
  · cases hfetch
    exact ⟨h.not_tso, htag.1, htag.2, _, _, rfl⟩

/-- The frame as it was before the tag, with its checksums. -/
def untaggedFrame (tp : E1000Tx) : List U8 := (finishFrame tp).data.slice 0 tp.size.toNat

theorem xmitSeg_storedTagged (hinv : RegInv w.dev) (h : TaggedLoopback w dp w₁) :
    ∃ fuel w' vs, xmitSeg fuel w₁ = .ok w' ∧
      StoredTagged w w' (untaggedFrame w₁.dev.tx) dp.special vs := by
  obtain ⟨-, hneeded, hheader, ide, log, hw₁⟩ := h.gathered
  have hsize := h.size
  have hsent := frameSent_tagged hneeded (show 12 ≤ w₁.dev.tx.size.toNat by omega)
  rw [hheader] at hsent
  have hlen : 56 ≤ (untaggedFrame w₁.dev.tx).length := by
    rw [untaggedFrame, Buffer.length_slice]
    exact hsize
  have hframe := frame_tagFrame dp.special hlen h.vme rfl
  dsimp only at hframe
  rw [untaggedFrame, ← hsent] at hframe
  obtain ⟨htag, hbytes, hspecial⟩ := hframe
  have hworld : w₁.setTx (frameTx w₁.dev.tx) = withTx w (frameTx w₁.dev.tx) ide log :=
    congrArg (·.setTx (frameTx w₁.dev.tx)) hw₁
  -- The receiver finds the registers and the memory of `w`.
  have hrecv := receive_storedTagged (w := withTx w (frameTx w₁.dev.tx) ide log)
    (List.cons_ne_nil (frameSent w₁.dev.tx) [])
    ⟨hinv.rxbufSize, hinv.rdlen, hinv.idle, hinv.causes⟩ h.rdh h.rdt
    (by rw [List.flatten_singleton]; exact h.accepted)
    (by rw [List.flatten_singleton]; exact h.room)
    (by rw [List.flatten_singleton]; exact htag)
  rw [List.flatten_singleton] at hrecv
  obtain ⟨fuel, r, vs, hr, hmem, hchunks, hdesc, hvisible⟩ := hrecv
  have hstored : StoredTagged w r.world (untaggedFrame w₁.dev.tx) dp.special vs :=
    ⟨hmem, hchunks.trans hbytes, hspecial ▸ hdesc, hvisible⟩
  have hsend : e1000SendPacket fuel (w₁.setTx (frameTx w₁.dev.tx)) (frameSent w₁.dev.tx) =
      .ok (r.world, r.callerIov.headD []) := by
    rw [hworld, e1000SendPacket, if_pos (by exact h.loopback), e1000Receive, hr]
    rfl
  refine ⟨fuel, countFrame (r.world.setTx (takeBack r.world.dev.tx (r.callerIov.headD []))), vs,
    ?_, hstored.of_mem_eq ?_⟩
  · rw [xmitSeg_eq, hsend]
    rfl
  · rw [countFrame_mem, World.mem_setTx]

/--
What is sent with a tag in loopback comes back without it: the receive buffers
hold the frame, and the receive descriptors tell the tag of the transmit one.
-/
theorem processTxDesc_storedTagged (hinv : RegInv w.dev) (h : TaggedLoopback w dp w₁) :
    ∃ fuel w' vs, processTxDesc fuel w dp = .ok w' ∧
      StoredTagged w w' (untaggedFrame w₁.dev.tx) dp.special vs := by
  obtain ⟨fuel, w', vs, hxmit, hstored⟩ := xmitSeg_storedTagged hinv h
  have hfetch := (fetchData_le (Nat.zero_le fuel) _ dp).eq_ok h.fetch
  have hend : endPacket fuel w₁ = .ok (w'.setTx { w'.dev.tx with
      tsoFrames := 0, sumNeeded := 0, vlanNeeded := false, size := 0, cptse := false }) := by
    rw [endPacket, sendLast, h.gathered.1, Bool.false_and]
    simp only [Bool.false_eq_true, if_false, hxmit, Run.ok_bind]
  have hproc : processTxDesc fuel w dp = endPacket fuel w₁ := by
    rw [processTxDesc, if_neg h.not_context, hfetch, h.eop]
    rfl
  exact ⟨fuel, _, vs, hproc.trans hend, hstored.of_mem_eq rfl⟩

/-- A ring of eight slots, four of them handed over, `VME` on and the PHY in loopback. -/
def vlanLoopReady : World :=
  setMdic (setCtrl (macWritereg (rxReady (rctlEn ||| rctlUpe) 128 0 4 fun _ => 0x10) Reg.vet
    0x8100) ctrlVme) 0x04204000

theorem reachable_vlanLoopReady : Reachable vlanLoopReady := by
  refine .mmioWrite ?_ 0x20#64 .setMdic 0x04204000 rfl fun _ => rfl
  refine .mmioWrite ?_ 0x0#64 .setCtrl ctrlVme rfl fun _ => rfl
  refine .mmioWrite ?_ 0x38#64 .macWritereg 0x8100 rfl fun _ => rfl
  exact reachable_rxReady _ _ _ _ _

def vlanDesc : TxDesc := ⟨0x1000, txdCmdEop ||| txdCmdVle ||| 60#32, 0x00070000⟩

def vlanGathered : World :=
  match fetchData 0 (beginDesc vlanLoopReady vlanDesc) vlanDesc with
  | .ok w => w
  | _ => vlanLoopReady

theorem processTxDesc_storedTagged_legacy :
    ∃ fuel w' vs, processTxDesc fuel vlanLoopReady vlanDesc = .ok w' ∧
      StoredTagged vlanLoopReady w' (List.replicate 60 0x10) 7 vs := by
  have hframe : untaggedFrame vlanGathered.dev.tx = List.replicate 60 0x10 := by decide +kernel
  have h : TaggedLoopback vlanLoopReady vlanDesc vlanGathered :=
    ⟨by decide, by decide, by decide, by decide +kernel, by decide +kernel, rfl,
      by decide +kernel, by decide +kernel, by decide +kernel, by decide +kernel,
      by decide +kernel, by decide +kernel⟩
  rw [← hframe]
  exact processTxDesc_storedTagged reachable_vlanLoopReady.regInv h

end Loopback

end SE4VM.E1000
