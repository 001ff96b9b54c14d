import SE4VM.Foundation.Segment
import SE4VM.E1000.SegmentCalls
import SE4VM.E1000.Segmentation

/-!
# Assembling segments

Under segmentation offload the data descriptors of a packet carry a header and a
payload.  However the bytes are spread over the descriptors, `tx` depends only on
the bytes taken so far, and the calls of `xmit_seg` are those of the segments that
these bytes complete.
-/

namespace SE4VM.E1000

open SE4VM.Foundation

/-! ## What is read -/

def tsoRead (msh : U32) (st : TsoLoop) : List U8 :=
  st.world.mem.read st.addr (tsoBytes st.world.dev.tx msh st.splitSize).toNat

def fetchReads (fuel : Nat) (w : World) (dp : TxDesc) : List U8 :=
  let tp := w.dev.tx
  let splitSize := dp.lower &&& 0xffff#32
  if tp.tse && tp.cptse then
    (trail (tsoBody (tsoMsh tp) fuel) fuel ⟨w, splitSize, dp.bufferAddr⟩).flatMap
      (tsoRead (tsoMsh tp))
  else if tp.cptse then []
  else w.mem.read dp.bufferAddr (min (txDataBytes - tp.size.toNat) splitSize.toNat)

def descReads (fuel : Nat) (w : World) (dp : TxDesc) : List U8 :=
  if descType dp = txdCmdDext then [] else fetchReads fuel (beginDesc w dp) dp

/-! ## The state of the packet -/

/-- What the context descriptor sets and the data descriptors leave alone. -/
structure TsoContext where
  ipcss : U8
  ipcso : U8
  ipcse : U16
  tucss : U8
  tucso : U8
  tucse : U16
  hdrLen : U8
  mss : U16
  paylen : U32
  tse : Bool
  ip : Bool
  tcp : Bool

def E1000Tx.context (tp : E1000Tx) : TsoContext :=
  ⟨tp.ipcss, tp.ipcso, tp.ipcse, tp.tucss, tp.tucso, tp.tucse, tp.hdrLen, tp.mss, tp.paylen,
    tp.tse, tp.ip, tp.tcp⟩

namespace TsoContext

variable (c : TsoContext)

abbrev h : Nat := c.hdrLen.toNat

abbrev m : Nat := c.mss.toNat

/-- The segments are not empty and fit into the sixteen bits of `size`. -/
structure Fits : Prop where
  tse : c.tse = true
  header : 0 < c.h
  payload : 0 < c.m
  small : c.h + c.m ≤ 65535

variable {c}

theorem Fits.lt_txDataBytes (hfit : c.Fits) {n : Nat} (hn : n ≤ c.h + c.m) :
    n < txDataBytes :=
  Nat.lt_succ_of_le (hn.trans hfit.small)

end TsoContext

/--
`tx` after the bytes `bs`.  The last field follows packets into which no tag is
to be inserted; nothing else depends on it.
-/
structure TsoAt (c : TsoContext) (plain : Prop) (bs : List U8) (tp : E1000Tx) : Prop where
  context : tp.context = c
  size : tp.size.toNat = Segment.fill c.h c.m bs.length
  data : tp.data.slice 0 tp.size.toNat = Segment.rest c.h c.m bs
  header : c.h ≤ bs.length → tp.header.slice 0 c.h = bs.take c.h
  frames : tp.tsoFrames = BitVec.ofNat 16 (Segment.complete c.h c.m bs.length)
  untagged : plain → tp.vlanNeeded = false

/-- `tx` when segment `k` of the string `bs` is handed to `xmit_seg`. -/
structure TsoCall (c : TsoContext) (plain : Prop) (bs : List U8) (k : Nat) (tp : E1000Tx) :
    Prop where
  context : tp.context = c
  cptse : tp.cptse = true
  data : tp.data.slice 0 tp.size.toNat = Segment.segment c.h c.m bs k
  frames : tp.tsoFrames = BitVec.ofNat 16 k
  untagged : plain → tp.vlanNeeded = false

theorem TsoCall.congr {c : TsoContext} {plain : Prop} {bs bs' : List U8} {k : Nat}
    {tp : E1000Tx} (h : TsoCall c plain bs k tp)
    (heq : Segment.segment c.h c.m bs' k = Segment.segment c.h c.m bs k) :
    TsoCall c plain bs' k tp :=
  ⟨h.context, h.cptse, h.data.trans heq.symm, h.frames, h.untagged⟩

def TsoCalls (c : TsoContext) (plain : Prop) (bs : List U8) : Nat → List World → Prop
  | _, [] => True
  | k, w :: ws => TsoCall c plain bs k w.dev.tx ∧ TsoCalls c plain bs (k + 1) ws

section Calls

variable {c : TsoContext} {plain : Prop} {bs : List U8}

theorem TsoCalls.append {k : Nat} {ws ws' : List World} (h : TsoCalls c plain bs k ws)
    (h' : TsoCalls c plain bs (k + ws.length) ws') : TsoCalls c plain bs k (ws ++ ws') := by
  induction ws generalizing k with
  | nil => exact h'
  | cons w ws ih =>
      refine ⟨h.1, ih h.2 ?_⟩
      rw [List.length_cons] at h'
      rwa [Nat.add_assoc, Nat.add_comm 1]

theorem TsoCalls.extend {k : Nat} {ws : List World} (h : TsoCalls c plain bs k ws)
    (hle : k + ws.length ≤ Segment.complete c.h c.m bs.length) (ys : List U8) :
    TsoCalls c plain (bs ++ ys) k ws := by
  induction ws generalizing k with
  | nil => exact trivial
  | cons w ws ih =>
      rw [List.length_cons] at hle
      exact ⟨h.1.congr (Segment.segment_append (by omega)), ih h.2 (by omega)⟩

theorem TsoCalls.getElem {k i : Nat} {ws : List World} (h : TsoCalls c plain bs k ws)
    {w : World} (hw : ws[i]? = some w) : TsoCall c plain bs (k + i) w.dev.tx := by
  induction ws generalizing k i with
  | nil => cases hw
  | cons w' ws ih =>
      cases i with
      | zero =>
          cases hw
          exact h.1
      | succ i =>
          rw [Nat.add_comm i, ← Nat.add_assoc]
          exact ih h.2 hw

end Calls

/-! ## One chunk -/

section Chunk

variable {c : TsoContext} {plain : Prop} {bs ys : List U8} {tp : E1000Tx}

theorem data_appendChunk (hat : TsoAt c plain bs tp)
    (hle : Segment.fill c.h c.m bs.length + ys.length < txDataBytes) :
    (appendChunk tp ys).size.toNat = Segment.fill c.h c.m bs.length + ys.length ∧
      (appendChunk tp ys).data.slice 0 (appendChunk tp ys).size.toNat =
        Segment.rest c.h c.m bs ++ ys := by
  have hsize : (appendChunk tp ys).size.toNat =
      Segment.fill c.h c.m bs.length + ys.length := by
    rw [appendChunk, BitVec.toNat_ofNat, hat.size]
    exact Nat.mod_eq_of_lt hle
  refine ⟨hsize, ?_⟩
  rw [hsize, ← hat.data, ← hat.size]
  have happ := Buffer.slice_store_append tp.data 0 tp.size.toNat ys
  rwa [Nat.zero_add] at happ

/-- The header is copied when the chunk completes it, and kept after that. -/
theorem header_appendChunk (hat : TsoAt c plain bs tp)
    (hle : Segment.fill c.h c.m bs.length + ys.length < txDataBytes)
    (hh : c.h ≤ (bs ++ ys).length) :
    (appendChunk tp ys).header.slice 0 c.h = (bs ++ ys).take c.h := by
  have hlen : tp.hdrLen.toNat = c.h := congrArg TsoContext.h hat.context
  have hsize := hat.size
  rw [List.length_append] at hh
  by_cases hshort : bs.length < c.h
  · obtain ⟨happ, hdata⟩ := data_appendChunk hat hle
    rw [Segment.fill, if_pos hshort] at hsize happ
    rw [Segment.rest, if_pos hshort] at hdata
    rw [← hdata, Buffer.take_slice _ _ (happ ▸ hh)]
    simp only [appendChunk, hlen, hsize]
    rw [if_pos ⟨hh, hshort⟩, Buffer.slice_store_self _ _ (by simp)]
  · have hkeep : ¬ (tp.size.toNat + ys.length ≥ tp.hdrLen.toNat ∧
        tp.size.toNat < tp.hdrLen.toNat) := by
      rw [hlen, hsize, Segment.fill, if_neg hshort]
      omega
    rw [List.take_append_of_le_length (by omega), ← hat.header (by omega)]
    simp only [appendChunk, if_neg hkeep]

theorem TsoAt.append (hfit : c.Fits) (hat : TsoAt c plain bs tp)
    (hlt : Segment.fill c.h c.m bs.length + ys.length < c.h + c.m) :
    TsoAt c plain (bs ++ ys) (appendChunk tp ys) := by
  have hle := hfit.lt_txDataBytes hlt.le
  obtain ⟨hsize, hdata⟩ := data_appendChunk hat hle
  obtain ⟨hcount, hrest⟩ := Segment.rest_append hfit.payload hlt
  refine ⟨hat.context, ?_, hdata.trans hrest.symm, header_appendChunk hat hle, ?_,
    hat.untagged⟩
  · rw [hsize, ← Segment.length_rest, ← Segment.length_rest, hrest, List.length_append]
  · rw [hcount]
    exact hat.frames

theorem TsoAt.call (hfit : c.Fits) (hat : TsoAt c plain bs tp) (hcptse : tp.cptse = true)
    (heq : Segment.fill c.h c.m bs.length + ys.length = c.h + c.m) :
    TsoCall c plain (bs ++ ys) (Segment.complete c.h c.m bs.length) (appendChunk tp ys) := by
  have hle := hfit.lt_txDataBytes heq.le
  obtain ⟨-, hseg, -⟩ := Segment.rest_complete hfit.payload heq
  exact ⟨hat.context, hcptse, (data_appendChunk hat hle).2.trans hseg, hat.frames,
    hat.untagged⟩

theorem xmitSeg_tx {fuel : Nat} {w w' : World} (h : xmitSeg fuel w = .ok w')
    (htse : w.dev.tx.tse = true) (hcptse : w.dev.tx.cptse = true) :
    ∃ vlan data, w'.dev.tx =
      { w.dev.tx with vlan := vlan, data := data, tsoFrames := w.dev.tx.tsoFrames + 1 } := by
  have hfinish : ∃ data, finishFrame w.dev.tx =
      { w.dev.tx with data := data, tsoFrames := w.dev.tx.tsoFrames + 1 } := by
    obtain ⟨data, h⟩ := finishFrame_data w.dev.tx
    rw [htse, hcptse, Bool.and_self, if_pos rfl] at h
    exact ⟨data, h⟩
  have hframe : ∃ vlan data, frameTx w.dev.tx =
      { w.dev.tx with vlan := vlan, data := data, tsoFrames := w.dev.tx.tsoFrames + 1 } := by
    obtain ⟨data, hfinish⟩ := hfinish
    rw [frameTx, hfinish, insertVlan]
    split_ifs <;> exact ⟨_, _, rfl⟩
  obtain ⟨vlan, data, hframe⟩ := hframe
  rw [xmitSeg_eq] at h
  obtain ⟨⟨w₁, bytes⟩, hsend, h⟩ := Run.bind_eq_ok.mp h
  cases h
  rw [(countFrame_frame _).2, World.dev_setTx, (e1000SendPacket_frame hsend).2, World.dev_setTx,
    hframe, takeBack]
  split_ifs <;> exact ⟨_, _, rfl⟩

theorem TsoAt.restore {fuel : Nat} {w w' : World} (hfit : c.Fits) (hat : TsoAt c plain bs tp)
    (hcptse : tp.cptse = true)
    (heq : Segment.fill c.h c.m bs.length + ys.length = c.h + c.m)
    (htx : w.dev.tx = appendChunk tp ys) (h : xmitSeg fuel w = .ok w') :
    TsoAt c plain (bs ++ ys) (restoreHeader w'.dev.tx) := by
  have hle := hfit.lt_txDataBytes heq.le
  have htse : tp.tse = true := (congrArg TsoContext.tse hat.context).trans hfit.tse
  have hlen : tp.hdrLen.toNat = c.h := congrArg TsoContext.h hat.context
  obtain ⟨hcount, -, hrest⟩ := Segment.rest_complete hfit.payload heq
  have hhead : c.h ≤ (bs ++ ys).length := by
    have hsum := Segment.complete_mul_add (h := c.h) (m := c.m) (bs ++ ys).length
    by_contra hshort
    rw [Segment.complete, Nat.sub_eq_zero_of_le (by omega), Nat.zero_div] at hcount
    omega
  have hheader := header_appendChunk hat hle hhead
  obtain ⟨vlan, data, htx'⟩ := xmitSeg_tx h (by rw [htx]; exact htse) (by rw [htx]; exact hcptse)
  rw [htx', htx]
  have hsize : ((appendChunk tp ys).hdrLen.setWidth 16).toNat = c.h :=
    (BitVec.toNat_setWidth_of_le (by decide)).trans hlen
  refine ⟨hat.context, ?_, ?_, fun _ => hheader, ?_, hat.untagged⟩
  · rw [← Segment.length_rest, hrest, List.length_take, Nat.min_eq_left hhead]
    exact hsize
  · rw [hrest, ← hheader]
    simp only [restoreHeader]
    rw [hsize, Buffer.slice_store_self _ _ (by rw [Buffer.length_slice]; exact hlen)]
    exact congrArg ((appendChunk tp ys).header.slice 0) hlen
  · rw [hcount]
    simp only [restoreHeader]
    rw [show (appendChunk tp ys).tsoFrames = tp.tsoFrames from rfl, hat.frames,
      BitVec.ofNat_add]
    rfl

end Chunk

/-! ## One round of the loop -/

section Round

variable {c : TsoContext} {plain : Prop} {bs : List U8} {msh : U32} {st : TsoLoop}

theorem length_tsoRead (hfit : c.Fits) (hat : TsoAt c plain bs st.world.dev.tx)
    (hmsh : msh.toNat = c.h + c.m) (hleft : st.splitSize.toNat < txDataBytes) :
    (tsoRead msh st).length =
      min st.splitSize.toNat (c.h + c.m - Segment.fill c.h c.m bs.length) := by
  have hsmall := hfit.small
  have hlt := Segment.fill_lt (h := c.h) hfit.payload bs.length
  rw [tsoRead, Memory.length_read, toNat_tsoBytes _ (by omega) hleft, hmsh, hat.size, tsoChunk]
  simp only [txDataBytes]
  split_ifs <;> omega

theorem tsoBody_left {fuel : Nat} {r : Step TsoLoop World}
    (hle : (tsoRead msh st).length ≤ st.splitSize.toNat) (h : tsoBody msh fuel st = .ok r) :
    (∃ w', r = .done w' ∧ (tsoRead msh st).length = st.splitSize.toNat) ∨
      ∃ st', r = .next st' ∧
        st'.splitSize.toNat + (tsoRead msh st).length = st.splitSize.toNat ∧
        st'.addr = st.addr + BitVec.ofNat 64 (tsoRead msh st).length := by
  have hread : (tsoRead msh st).length =
      (tsoBytes st.world.dev.tx msh st.splitSize).toNat := Memory.length_read _ _ _
  have hsub : (st.splitSize - tsoBytes st.world.dev.tx msh st.splitSize).toNat =
      st.splitSize.toNat - (tsoRead msh st).length := by
    rw [hread, BitVec.toNat_sub_of_le]
    rw [BitVec.le_def]
    omega
  obtain ⟨w, -, h⟩ := Run.bind_eq_ok.mp h
  dsimp only at h
  split_ifs at h with hmore
  · cases h
    refine .inr ⟨_, rfl, ?_, ?_⟩
    · rw [hsub]
      omega
    · rw [hread]
  · cases h
    refine .inl ⟨w, rfl, ?_⟩
    have hzero := congrArg BitVec.toNat (not_not.mp hmore)
    rw [hsub] at hzero
    exact Nat.le_antisymm hle (Nat.le_of_sub_eq_zero hzero)

/-- The bytes `ys` were added to `bs`, with the calls `cs` for what they completed. -/
structure Assembled (c : TsoContext) (plain : Prop) (bs ys : List U8) (cs : List World)
    (w : World) : Prop where
  tx : TsoAt c plain (bs ++ ys) w.dev.tx
  calls : TsoCalls c plain (bs ++ ys) (Segment.complete c.h c.m bs.length) cs
  count : Segment.complete c.h c.m bs.length + cs.length =
    Segment.complete c.h c.m (bs ++ ys).length

theorem Assembled.start {w : World} (hat : TsoAt c plain bs w.dev.tx) :
    Assembled c plain bs [] [] w := by
  refine ⟨?_, trivial, ?_⟩
  · rwa [List.append_nil]
  · rw [List.append_nil, List.length_nil, Nat.add_zero]

theorem Assembled.trans {ys ys' : List U8} {cs cs' : List World} {w w' : World}
    (h : Assembled c plain bs ys cs w) (h' : Assembled c plain (bs ++ ys) ys' cs' w') :
    Assembled c plain bs (ys ++ ys') (cs ++ cs') w' := by
  obtain ⟨-, hcalls, hcount⟩ := h
  obtain ⟨hat', hcalls', hcount'⟩ := h'
  rw [List.append_assoc] at hat' hcalls' hcount'
  refine ⟨hat', .append ?_ ?_, ?_⟩
  · have hext := hcalls.extend hcount.le ys'
    rwa [List.append_assoc] at hext
  · rwa [hcount]
  · rw [List.length_append, ← Nat.add_assoc, hcount, hcount']

/-- What one round adds to the bytes taken, and the call that it makes. -/
theorem tsoBody_at {fuel : Nat} {r : Step TsoLoop World} (hfit : c.Fits)
    (hat : TsoAt c plain bs st.world.dev.tx) (hcptse : st.world.dev.tx.cptse = true)
    (hmsh : msh.toNat = c.h + c.m) (hleft : st.splitSize.toNat < txDataBytes)
    (h : tsoBody msh fuel st = .ok r) :
    Assembled c plain bs (tsoRead msh st) (tsoCalls msh st) (tsoWorld r) ∧
      (tsoWorld r).dev.tx.cptse = true := by
  have hlen := length_tsoRead hfit hat hmsh hleft
  have hlt := Segment.fill_lt (h := c.h) hfit.payload bs.length
  have hread : (tsoBytes st.world.dev.tx msh st.splitSize).toNat = (tsoRead msh st).length :=
    (Memory.length_read _ _ _).symm
  simp only [tsoBody, World.fst_dmaRead, World.snd_dmaRead] at h
  obtain ⟨w, hflush, h⟩ := Run.bind_eq_ok.mp h
  have hworld : tsoWorld r = w := by
    split_ifs at h <;> cases h <;> rfl
  have hcomplete : (st.world.dev.tx.size.toNat +
      (tsoBytes st.world.dev.tx msh st.splitSize).toNat = msh.toNat) ↔
      Segment.fill c.h c.m bs.length + (tsoRead msh st).length = c.h + c.m := by
    rw [hat.size, hread, hmsh]
  rw [hworld]
  simp only [flushSegment, decide_eq_true_eq, hcomplete] at hflush
  simp only [tsoCalls, World.fst_dmaRead, World.snd_dmaRead, hcomplete]
  by_cases hfull : Segment.fill c.h c.m bs.length + (tsoRead msh st).length = c.h + c.m
  · rw [if_pos hfull] at hflush ⊢
    obtain ⟨w₁, hxmit, hflush⟩ := Run.bind_eq_ok.mp hflush
    cases hflush
    have htse : st.world.dev.tx.tse = true :=
      (congrArg TsoContext.tse hat.context).trans hfit.tse
    obtain ⟨vlan, data, htx⟩ := xmitSeg_tx hxmit htse hcptse
    refine ⟨⟨hat.restore hfit hcptse hfull rfl hxmit, ⟨hat.call hfit hcptse hfull, trivial⟩, ?_⟩,
      ?_⟩
    · rw [(Segment.rest_complete hfit.payload hfull).1]
      rfl
    · rw [World.dev_setTx, htx]
      exact hcptse
  · rw [if_neg hfull] at hflush ⊢
    cases hflush
    have hopen : Segment.fill c.h c.m bs.length + (tsoRead msh st).length < c.h + c.m := by omega
    refine ⟨⟨hat.append hfit hopen, trivial, ?_⟩, hcptse⟩
    rw [(Segment.rest_append hfit.payload hopen).1]
    rfl

/-! ## The whole loop -/

theorem xmitSeg_mem {fuel : Nat} {w w' : World}
    (hloop : test (w.dev.phyReg Phy.ctrl) miiCrLoopback = false)
    (h : xmitSeg fuel w = .ok w') : w'.mem = w.mem := by
  rw [xmitSeg_eq, e1000SendPacket, World.dev_setTx] at h
  simp only [hloop, Bool.false_eq_true, if_false, Run.ok_bind, Run.ok.injEq] at h
  rw [← h, countFrame_mem]
  rfl

theorem tsoBody_mem {fuel : Nat} {r : Step TsoLoop World}
    (hloop : test (st.world.dev.phyReg Phy.ctrl) miiCrLoopback = false)
    (h : tsoBody msh fuel st = .ok r) : (tsoWorld r).mem = st.world.mem := by
  simp only [tsoBody, World.fst_dmaRead, World.snd_dmaRead] at h
  obtain ⟨w, hflush, h⟩ := Run.bind_eq_ok.mp h
  have hworld : tsoWorld r = w := by
    split_ifs at h <;> cases h <;> rfl
  rw [hworld]
  simp only [flushSegment] at hflush
  split_ifs at hflush
  · obtain ⟨w₁, hxmit, hflush⟩ := Run.bind_eq_ok.mp hflush
    cases hflush
    rw [World.mem_setTx, xmitSeg_mem (by exact hloop) hxmit]
    rfl
  · cases hflush
    rfl

/-- Without loopback, `ys` is what memory holds from `addr` on, and stays there. -/
def FromMemory (w w' : World) (addr : U64) (ys : List U8) : Prop :=
  test (w.dev.phyReg Phy.ctrl) miiCrLoopback = false →
    w'.mem = w.mem ∧ ys = w.mem.read addr ys.length

/-- The loop started in `w` at `addr` has passed the heads `hs`. -/
structure TsoProgress (c : TsoContext) (plain : Prop) (bs : List U8) (msh : U32) (w : World)
    (addr : U64) (hs : List TsoLoop) (w' : World) : Prop where
  assembled : Assembled c plain bs (hs.flatMap (tsoRead msh)) (hs.flatMap (tsoCalls msh)) w'
  cptse : w'.dev.tx.cptse = true
  phyReg : w'.dev.phyReg = w.dev.phyReg
  memory : FromMemory w w' addr (hs.flatMap (tsoRead msh))

theorem TsoProgress.step {fuel : Nat} {w : World} {addr : U64} {hs : List TsoLoop}
    {r : Step TsoLoop World} (hfit : c.Fits) (hmsh : msh.toNat = c.h + c.m)
    (hleft : st.splitSize.toNat < txDataBytes)
    (hcursor : st.addr = addr + BitVec.ofNat 64 (hs.flatMap (tsoRead msh)).length)
    (h : TsoProgress c plain bs msh w addr hs st.world) (hb : tsoBody msh fuel st = .ok r) :
    TsoProgress c plain bs msh w addr (hs ++ [st]) (tsoWorld r) := by
  obtain ⟨hround, hcptse⟩ := tsoBody_at hfit h.assembled.tx h.cptse hmsh hleft hb
  have hphy : (tsoWorld r).dev.phyReg = w.dev.phyReg :=
    (congrArg Rest.phyReg (tsoBody_frame hb).rest).trans h.phyReg
  refine ⟨?_, hcptse, hphy, fun hloop => ?_⟩
  · rw [List.flatMap_append, List.flatMap_append, List.flatMap_singleton,
      List.flatMap_singleton]
    exact h.assembled.trans hround
  · obtain ⟨hmem, hread⟩ := h.memory hloop
    refine ⟨(tsoBody_mem (by rw [h.phyReg]; exact hloop) hb).trans hmem, ?_⟩
    rw [List.flatMap_append, List.flatMap_singleton, List.length_append, Memory.read_add,
      ← hread, ← hcursor, tsoRead, Memory.length_read, hmem]

theorem tsoLoop_at {fuel : Nat} {w w' : World} {len : U32} {addr : U64} (hfit : c.Fits)
    (hat : TsoAt c plain bs w.dev.tx) (hcptse : w.dev.tx.cptse = true)
    (hmsh : msh.toNat = c.h + c.m) (hlen : len.toNat < txDataBytes)
    (h : loop (tsoBody msh fuel) fuel ⟨w, len, addr⟩ = .ok w') :
    let heads := trail (tsoBody msh fuel) fuel ⟨w, len, addr⟩
    (heads.flatMap (tsoRead msh)).length = len.toNat ∧
      TsoProgress c plain bs msh w addr heads w' := by
  have hround : ∀ (hs : List TsoLoop) (s : TsoLoop),
      (hs.flatMap (tsoRead msh)).length + s.splitSize.toNat = len.toNat →
      TsoProgress c plain bs msh w addr hs s.world →
      s.splitSize.toNat < txDataBytes ∧ (tsoRead msh s).length ≤ s.splitSize.toNat := by
    intro hs s hleft hprog
    have hsmall : s.splitSize.toNat < txDataBytes := by omega
    have hread := length_tsoRead hfit hprog.assembled.tx hmsh hsmall
    exact ⟨hsmall, by omega⟩
  refine loop_trail
    (fun hs s => (hs.flatMap (tsoRead msh)).length + s.splitSize.toNat = len.toNat ∧
      s.addr = addr + BitVec.ofNat 64 (hs.flatMap (tsoRead msh)).length ∧
      TsoProgress c plain bs msh w addr hs s.world)
    (fun hs w' => (hs.flatMap (tsoRead msh)).length = len.toNat ∧
      TsoProgress c plain bs msh w addr hs w') ?_ ?_ ?_ h
  · rintro hs s s' ⟨hleft, hcursor, hprog⟩ hb
    obtain ⟨hsmall, hle⟩ := hround hs s hleft hprog
    have hprog' := hprog.step hfit hmsh hsmall hcursor hb
    rcases tsoBody_left hle hb with ⟨w', hr, -⟩ | ⟨st', hr, hleft', haddr⟩ <;> cases hr
    rw [List.flatMap_append, List.flatMap_singleton, List.length_append]
    refine ⟨by omega, ?_, hprog'⟩
    rw [haddr, hcursor, Memory.add_ofNat_add]
  · rintro hs s w' ⟨hleft, hcursor, hprog⟩ hb
    obtain ⟨hsmall, hle⟩ := hround hs s hleft hprog
    have hprog' := hprog.step hfit hmsh hsmall hcursor hb
    rcases tsoBody_left hle hb with ⟨w', hr, hleft'⟩ | ⟨st', hr, -⟩ <;> cases hr
    rw [List.flatMap_append, List.flatMap_singleton, List.length_append]
    exact ⟨by omega, hprog'⟩
  · refine ⟨by simp, by simp, .start hat, hcptse, rfl, fun _ => ⟨rfl, rfl⟩⟩

end Round

/-! ## One descriptor -/

section Descriptor

variable {c : TsoContext} {plain : Prop} {bs : List U8} {w : World} {dp : TxDesc}

theorem beginDesc_at (hdp : IsTsoDesc dp) (hat : TsoAt c plain bs w.dev.tx)
    (hplain : plain → (vlanEnabled w.dev && isVlanTxd dp) = false) :
    TsoAt c plain bs (beginDesc w dp).dev.tx := by
  have hbegin : TsoAt c plain bs (beginData w.dev.tx dp true) :=
    ⟨hat.context, hat.size, hat.data, hat.header, hat.frames, hat.untagged⟩
  simp only [beginDesc, World.dev_setTx, hdp.data, decide_true, tagTx]
  split_ifs with htag
  · refine ⟨hbegin.context, hbegin.size, hbegin.data, hbegin.header, hbegin.frames, fun hp => ?_⟩
    have hno := hplain hp
    simp only [Bool.and_eq_true] at htag
    rw [show vlanEnabled (noteIde w dp).dev = vlanEnabled w.dev from rfl] at htag
    rw [htag.1.1, htag.1.2] at hno
    cases hno
  · exact hbegin

theorem IsTsoDesc.not_context (hdp : IsTsoDesc dp) : descType dp ≠ txdCmdDext := by
  rw [hdp.data]
  decide

theorem descReads_tso (hdp : IsTsoDesc dp) (htse : w.dev.tx.tse = true) (fuel : Nat) :
    descReads fuel w dp =
      (trail (tsoBody (tsoMsh (beginDesc w dp).dev.tx) fuel) fuel
        ⟨beginDesc w dp, dp.lower &&& 0xffff#32, dp.bufferAddr⟩).flatMap
        (tsoRead (tsoMsh (beginDesc w dp).dev.tx)) := by
  obtain ⟨hc, ht, -⟩ := beginDesc_tx (w := w) hdp
  rw [descReads, if_neg hdp.not_context]
  simp only [fetchReads, hc, ht, htse, Bool.and_self, if_true]

theorem fetchData_at {fuel : Nat} {w' : World} (hfit : c.Fits) (hdp : IsTsoDesc dp)
    (hat : TsoAt c plain bs w.dev.tx)
    (hplain : plain → (vlanEnabled w.dev && isVlanTxd dp) = false)
    (h : fetchData fuel (beginDesc w dp) dp = .ok w') :
    (descReads fuel w dp).length = descLen dp ∧
      Assembled c plain bs (descReads fuel w dp) (fetchCalls fuel (beginDesc w dp) dp) w' ∧
      w'.dev.tx.cptse = true ∧ FromMemory w w' dp.bufferAddr (descReads fuel w dp) := by
  have htse : w.dev.tx.tse = true := (congrArg TsoContext.tse hat.context).trans hfit.tse
  obtain ⟨hcptse, htse', -⟩ := beginDesc_tx (w := w) hdp
  have hat' := beginDesc_at hdp hat hplain
  have hmsh : (tsoMsh (beginDesc w dp).dev.tx).toNat = c.h + c.m := by
    have hhdr : (beginDesc w dp).dev.tx.hdrLen.toNat = c.h := congrArg TsoContext.h hat'.context
    have hmss : (beginDesc w dp).dev.tx.mss.toNat = c.m := congrArg TsoContext.m hat'.context
    rw [toNat_tsoMsh, hhdr, hmss]
  rw [fetchData_tso hdp htse] at h
  obtain ⟨hlen, hprog⟩ := tsoLoop_at hfit hat' hcptse hmsh (descLen_lt dp) h
  rw [descReads_tso hdp htse]
  refine ⟨hlen, ?_, hprog.cptse, hprog.memory⟩
  simp only [fetchCalls, hcptse, htse', htse, Bool.and_self, if_true]
  exact hprog.assembled

end Descriptor

end SE4VM.E1000
