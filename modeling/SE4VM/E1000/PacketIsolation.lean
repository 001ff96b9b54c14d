import SE4VM.E1000.TsoPacket
import SE4VM.E1000.TxBuffers

/-!
# What earlier packets leave behind

Between packets the buffers of `tx` still hold earlier bytes.  A packet is isolated
from them when every byte it sends has been fetched for it: tagged frames need the
twelve bytes that the tag is put behind, and the headers of segments have to hold
the fields that `xmit_seg` edits.
-/

namespace SE4VM.E1000

open SE4VM.Foundation

/-! ## Descriptors of isolated packets -/

/-- The segmentation bit that a data or legacy descriptor leaves in `cptse`. -/
def segmentsDesc (dp : TxDesc) : Bool :=
  decide (descType dp = txdCmdDext ||| txdDtypD) && test dp.lower txdCmdTse

/-- The descriptor asks for a tag, and the device is set to insert it. -/
def tagsDesc (vme : Bool) (dp : TxDesc) : Bool :=
  vme && isVlanTxd dp && (segmentsDesc dp || txdEop dp)

def sumsDesc (dp : TxDesc) : Bool := test ((dp.upper >>> 8).setWidth 8 : U8) txdPoptsTxsm

/-- The bytes of a packet that is not segmented. -/
def plainLength (ds : List TxDesc) : Nat :=
  ((ds.filter fun dp => !segmentsDesc dp).map descLen).sum

structure PacketShape (front : List TxDesc) (last : TxDesc) : Prop where
  data : ∀ dp ∈ front ++ [last], descType dp ≠ txdCmdDext
  not_eop : ∀ dp ∈ front, txdEop dp = false
  eop : txdEop last = true

/-- A packet sent as it is, of twelve bytes or more if it gets a tag. -/
structure PlainPacket (vme : Bool) (c : TsoContext) (ds : List TxDesc) : Prop where
  plain : ∀ dp ∈ ds, (c.tse && segmentsDesc dp) = false
  tag : ∀ dp ∈ ds, tagsDesc vme dp = true → 12 ≤ plainLength ds

/-- A segmented packet whose header holds all that is edited in it. -/
structure SegmentedPacket (vme : Bool) (c : TsoContext) (ds : List TxDesc) : Prop where
  tse : c.tse = true
  segmented : ∀ dp ∈ ds, segmentsDesc dp = true
  network : c.ipcss.toNat + 6 ≤ c.h
  transport : c.tucss.toNat + (if c.tcp then 14 else 6) ≤ c.h
  checksum : ∀ dp ∈ ds, sumsDesc dp = true → c.tucso.toNat + 2 ≤ c.h
  tag : ∀ dp ∈ ds, tagsDesc vme dp = true → 12 ≤ c.h

def descContext (dp : TxDesc) : TsoContext := (contextTx E1000Tx.zero dp).context

/-- Packets and, between them, context descriptors; `c` is the context at the start. -/
inductive IsolatedPackets (vme : Bool) : TsoContext → List TxDesc → Prop
  | nil (c : TsoContext) : IsolatedPackets vme c []
  | context {c : TsoContext} {dp : TxDesc} {ds : List TxDesc} :
      descType dp = txdCmdDext → IsolatedPackets vme (descContext dp) ds →
      IsolatedPackets vme c (dp :: ds)
  | packet {c : TsoContext} {front ds : List TxDesc} {last : TxDesc} :
      PacketShape front last →
      PlainPacket vme c (front ++ [last]) ∨ SegmentedPacket vme c (front ++ [last]) →
      IsolatedPackets vme c ds → IsolatedPackets vme c (front ++ [last] ++ ds)

/-! ## Two transmitters -/

structure BetweenPackets (tp : E1000Tx) : Prop where
  size : tp.size = 0
  tsoFrames : tp.tsoFrames = 0
  sumNeeded : tp.sumNeeded = 0
  vlanNeeded : tp.vlanNeeded = false
  cptse : tp.cptse = false

/-- The same device with other bytes behind what is known of `tx`. -/
def Blurred (K : Known) (w w' : World) : Prop := ∃ o, w' = w.over (veil id K o)

theorem aroundTx_id : AroundTx id where
  disguise :=
    { macReg := fun _ _ _ => rfl
      linkDown := fun _ => rfl
      phyCtrl := fun _ => rfl
      mitTimerOn := fun _ => rfl
      mitIrqLevel := fun _ => rfl
      mitIde := fun _ => rfl
      compatFlags := fun _ => rfl
      rxbufSize := fun _ => rfl
      rxbufMinShift := fun _ => rfl
      setReg := fun _ _ _ _ => rfl
      setMitTimerOn := fun _ _ => rfl
      setMitIrqLevel := fun _ _ => rfl
      setMitIde := fun _ _ => rfl }
  setTx := fun _ _ => rfl

namespace Blurred

variable {K K' : Known} {w w' : World}

theorem setTx (h : Blurred K w w') (f : E1000Tx → E1000Tx)
    (hf : ∀ o, f (w.dev.tx.upTo K o) = (f w.dev.tx).upTo K' o) :
    Blurred K' (w.setTx (f w.dev.tx)) (w'.setTx (f w'.dev.tx)) := by
  obtain ⟨o, rfl⟩ := h
  exact ⟨o, congrArg (World.setTx w) (hf o)⟩

theorem emit (h : Blurred K w w') (e : Event) : Blurred K (w.emit e) (w'.emit e) := by
  obtain ⟨o, rfl⟩ := h
  exact ⟨o, rfl⟩

theorem mem (h : Blurred K w w') : w'.mem = w.mem := by
  obtain ⟨o, rfl⟩ := h
  rfl

theorem log (h : Blurred K w w') : w'.log = w.log := by
  obtain ⟨o, rfl⟩ := h
  rfl

/-- A scalar field of `tx` is the same on both sides. -/
theorem congr {α : Type} (h : Blurred K w w') (f : E1000Tx → α)
    (hf : ∀ tp o, f (tp.upTo K o) = f tp) : f w'.dev.tx = f w.dev.tx := by
  obtain ⟨o, rfl⟩ := h
  exact hf _ o

theorem forget (h : Blurred K w w') : Blurred ⟨0, 0, 0, 0⟩ w w' := by
  obtain ⟨o, rfl⟩ := h
  exact ⟨⟨_, _, _, _⟩, rfl⟩

theorem beginDesc (h : Blurred K w w') (dp : TxDesc) :
    Blurred (K.tagHeader w.dev (beganTx w dp) dp) (E1000.beginDesc w dp)
      (E1000.beginDesc w' dp) := by
  obtain ⟨o, rfl⟩ := h
  exact ⟨o, beginDesc_veil aroundTx_id w dp⟩

theorem xmitSeg (h : Blurred K w w') (hframe : FrameWithin K w.dev.tx) (fuel : Nat) :
    Run.Rel (Blurred (K.tagged w.dev.tx)) (E1000.xmitSeg fuel w) (E1000.xmitSeg fuel w') := by
  obtain ⟨o, rfl⟩ := h
  obtain ⟨rest, -, hrel⟩ := xmitSeg_veil (o := o) aroundTx_id hframe fuel
  exact hrel.mono fun u u' hu => ⟨_, hu⟩

end Blurred

/-! ## Segmented packets -/

structure TsoKnown (c : TsoContext) (K : Known) (tp : E1000Tx) : Prop where
  context : tp.context = c
  size : tp.size.toNat ≤ K.data
  bound : K.data ≤ txDataBytes
  header : c.h ≤ K.data → c.h ≤ K.header
  tag : tp.vlanNeeded = true → 12 ≤ c.h ∧ 4 ≤ K.vlanHeader
  checksum : test tp.sumNeeded txdPoptsTxsm = true → c.tucso.toNat + 2 ≤ c.h

section Segmented

variable {vme : Bool} {c : TsoContext} {K : Known} {w w' : World} {fuel : Nat}
  {ds : List TxDesc}

theorem TsoKnown.hdrLen {tp : E1000Tx} (h : TsoKnown c K tp) : tp.hdrLen.toNat = c.h :=
  congrArg TsoContext.h h.context

theorem TsoKnown.tse {tp : E1000Tx} (h : TsoKnown c K tp) (hseg : SegmentedPacket vme c ds) :
    tp.tse = true :=
  (congrArg TsoContext.tse h.context).trans hseg.tse

theorem TsoKnown.frameWithin {tp : E1000Tx} (h : TsoKnown c K tp)
    (hseg : SegmentedPacket vme c ds) (hheader : c.h ≤ K.data) : FrameWithin K tp where
  data := h.size
  bound := h.bound
  headers := fun _ => by
    obtain rfl := h.context
    exact ⟨hseg.network.trans hheader, hseg.transport.trans hheader,
      fun hs => (h.checksum hs).trans hheader⟩
  tag := fun htag => ⟨(h.tag htag).1.trans hheader, (h.tag htag).2⟩

theorem TsoKnown.tagged {tp tp₀ : E1000Tx} (h : TsoKnown c K tp) :
    TsoKnown c (K.tagged tp₀) tp := by
  rw [Known.tagged]
  split_ifs
  · exact ⟨h.context, h.size, h.bound, h.header, h.tag, h.checksum⟩
  · exact h

theorem TsoKnown.edited {tp tp' : E1000Tx} (h : TsoKnown c K tp) (hedit : tp.Edited tp') :
    TsoKnown c K tp' := by
  obtain ⟨vlan, data, frames, rfl⟩ := hedit
  exact ⟨h.context, h.size, h.bound, h.header, h.tag, h.checksum⟩

/-- Once the known bytes reach past the header, the header has been copied. -/
theorem TsoKnown.append {tp : E1000Tx} {chunk : List U8} (h : TsoKnown c K tp)
    (hfit : tp.size.toNat + chunk.length ≤ txDataBytes) :
    TsoKnown c (K.appendTso tp chunk.length) (appendChunk tp chunk) := by
  have hlen := h.hdrLen
  obtain ⟨hcontext, hsize, hbound, hheader, htag, hsum⟩ := h
  have hdata : (K.appendTso tp chunk.length).data = max K.data (tp.size.toNat + chunk.length) := by
    rw [Known.appendTso]
    split_ifs <;> rfl
  have hvlan : (K.appendTso tp chunk.length).vlanHeader = K.vlanHeader := by
    rw [Known.appendTso]
    split_ifs <;> rfl
  refine ⟨hcontext, ?_, ?_, fun hh => ?_, fun ht => ?_, hsum⟩
  · rw [hdata]
    simp only [appendChunk, BitVec.toNat_ofNat]
    exact (Nat.mod_le _ _).trans (Nat.le_max_right _ _)
  · rw [hdata]
    exact Nat.max_le.mpr ⟨hbound, hfit⟩
  · rw [hdata] at hh
    rw [Known.appendTso]
    split_ifs with hcross
    · exact hlen ▸ Nat.le_max_right _ _
    · -- no crossing: the header was known before this chunk
      exact hheader (by omega)
  · rw [hvlan]
    exact htag ht

theorem TsoKnown.restore {tp : E1000Tx} (h : TsoKnown c K tp) (hheader : c.h ≤ K.data) :
    TsoKnown c { K with data := max K.data tp.hdrLen.toNat } (restoreHeader tp) := by
  have hlen := h.hdrLen
  have hmax : max K.data tp.hdrLen.toNat = K.data := Nat.max_eq_left (hlen ▸ hheader)
  rw [hmax]
  refine ⟨h.context, ?_, h.bound, h.header, h.tag, h.checksum⟩
  simp only [restoreHeader, BitVec.toNat_setWidth_of_le (show 8 ≤ 16 by decide), hlen]
  exact hheader

/-- Two transmitters inside a segmented packet. -/
structure TsoBlur (c : TsoContext) (w w' : World) : Prop where
  cptse : w.dev.tx.cptse = true
  known : ∃ K, Blurred K w w' ∧ TsoKnown c K w.dev.tx

theorem xmitSeg_tsoKnown (hseg : SegmentedPacket vme c ds) (hblur : Blurred K w w')
    (hknown : TsoKnown c K w.dev.tx) (hheader : c.h ≤ K.data) :
    Run.Rel (fun u u' => ∃ K', Blurred K' u u' ∧ TsoKnown c K' u.dev.tx ∧ c.h ≤ K'.data ∧
      u.dev.tx.cptse = w.dev.tx.cptse) (xmitSeg fuel w) (xmitSeg fuel w') := by
  have hrel := hblur.xmitSeg (hknown.frameWithin hseg hheader) fuel
  refine (hrel.and_ok fun u hu => (xmitSeg_spec hu).2).mono ?_
  rintro u u' ⟨hblur', hedit⟩
  refine ⟨_, hblur', (hknown.edited hedit).tagged, ?_, ?_⟩
  · rw [Known.tagged]
    split_ifs <;> exact hheader
  · obtain ⟨vlan, data, frames, htx⟩ := hedit
    rw [htx]

theorem flushSegment_tso {complete : Bool} (hseg : SegmentedPacket vme c ds)
    (hblur : Blurred K w w') (hknown : TsoKnown c K w.dev.tx) (hcptse : w.dev.tx.cptse = true)
    (hheader : complete = true → c.h ≤ K.data) :
    Run.Rel (TsoBlur c) (flushSegment fuel complete w) (flushSegment fuel complete w') := by
  simp only [flushSegment]
  split_ifs with hcomplete
  · refine (xmitSeg_tsoKnown hseg hblur hknown (hheader hcomplete)).bind ?_
    rintro u u' ⟨K', hblur', hknown', hheader', hcptse'⟩
    refine .ok ⟨hcptse'.trans hcptse, _, hblur'.setTx restoreHeader fun o => ?_,
      hknown'.restore hheader'⟩
    exact restoreHeader_upTo o (hknown'.hdrLen ▸ hknown'.header hheader')
  · exact .ok ⟨hcptse, K, hblur, hknown⟩

def TsoLoopBlur (c : TsoContext) (st st' : TsoLoop) : Prop :=
  ∃ w', TsoBlur c st.world w' ∧ st' = { st with world := w' }

theorem tsoBody_tso {msh : U32} {st st' : TsoLoop} (hseg : SegmentedPacket vme c ds)
    (hmsh : c.h ≤ msh.toNat) (hst : TsoLoopBlur c st st') :
    Run.Rel (fun x y =>
      (∃ a b, x = .next a ∧ y = .next b ∧ TsoLoopBlur c a b) ∨
      (∃ a b, x = .done a ∧ y = .done b ∧ TsoBlur c a b))
      (tsoBody msh fuel st) (tsoBody msh fuel st') := by
  obtain ⟨w, splitSize, addr⟩ := st
  obtain ⟨-, ⟨hcptse, K, ⟨o, rfl⟩, hknown⟩, rfl⟩ := hst
  have hfit := toNat_tsoBytes_le w.dev.tx msh splitSize
  have hbytes : tsoBytes (w.over (veil id K o)).dev.tx msh splitSize =
      tsoBytes w.dev.tx msh splitSize := rfl
  have hsize : (w.over (veil id K o)).dev.tx.size = w.dev.tx.size := rfl
  have hmem : (w.over (veil id K o)).mem = w.mem := rfl
  simp only [tsoBody, hbytes, hsize, World.fst_dmaRead, World.snd_dmaRead, hmem]
  generalize hn : (tsoBytes w.dev.tx msh splitSize).toNat = n at *
  have hread : (w.mem.read addr n).length = n := Memory.length_read _ _ _
  have hknown' := hknown.append (hread.symm ▸ hfit)
  have hblur : Blurred K w (w.over (veil id K o)) := ⟨o, rfl⟩
  have hblur' := (hblur.emit (.dmaRead .txData addr n)).setTx
    (appendChunk · (w.mem.read addr n)) fun o => appendChunk_upTo o _ hknown.size
  have hflush : decide (w.dev.tx.size.toNat + n = msh.toNat) = true →
      c.h ≤ (K.appendTso w.dev.tx (w.mem.read addr n).length).data := by
    intro hfull
    refine hmsh.trans ((of_decide_eq_true hfull).symm.le.trans ?_)
    rw [hread, Known.appendTso]
    split_ifs <;> exact Nat.le_max_right _ _
  refine Run.Rel.bind (flushSegment_tso hseg hblur' hknown' hcptse hflush) ?_
  intro u u' hu
  split_ifs
  · exact .ok (.inl ⟨_, _, rfl, rfl, u', hu, rfl⟩)
  · exact .ok (.inr ⟨_, _, rfl, rfl, hu⟩)

theorem fetchData_tsoBlur (hseg : SegmentedPacket vme c ds) (dp : TxDesc)
    (h : TsoBlur c w w') :
    Run.Rel (TsoBlur c) (fetchData fuel w dp) (fetchData fuel w' dp) := by
  obtain ⟨hcptse, K, hblur, hknown⟩ := h
  have htse := hknown.tse hseg
  have hmsh : c.h ≤ (tsoMsh w.dev.tx).toNat := by
    rw [toNat_tsoMsh, hknown.hdrLen]
    exact Nat.le_add_right _ _
  have hbranch : ∀ u : World, u.dev.tx.cptse = true → u.dev.tx.tse = true →
      fetchData fuel u dp =
        loop (tsoBody (tsoMsh u.dev.tx) fuel) fuel ⟨u, dp.lower &&& 0xffff#32, dp.bufferAddr⟩ := by
    intro u huc hut
    simp only [fetchData, huc, hut, Bool.and_self, if_true]
  rw [hbranch w hcptse htse,
    hbranch w' ((hblur.congr E1000Tx.cptse fun _ _ => rfl).trans hcptse)
      ((hblur.congr E1000Tx.tse fun _ _ => rfl).trans htse),
    hblur.congr tsoMsh fun _ _ => rfl]
  exact loop_rel (fun st st' hst => tsoBody_tso hseg hmsh hst) fuel
    ⟨w', ⟨hcptse, K, hblur, hknown⟩, rfl⟩

end Segmented

/-! ## The end of a packet -/

/-- Between packets, with the same device around `tx` and the same context in it. -/
structure Apart (c : TsoContext) (w w' : World) : Prop where
  blurred : Blurred ⟨0, 0, 0, 0⟩ w w'
  context : w.dev.tx.context = c
  between : BetweenPackets w.dev.tx

theorem endPacket_apart {c : TsoContext} {w w' : World} {fuel : Nat}
    (h : Run.Rel (fun u u' => (∃ K, Blurred K u u') ∧ u.dev.tx.context = c)
      (sendLast fuel w) (sendLast fuel w')) :
    Run.Rel (Apart c) (endPacket fuel w) (endPacket fuel w') := by
  refine h.bind ?_
  rintro u u' ⟨⟨K, hblur⟩, hcontext⟩
  refine .ok ⟨?_, hcontext, ⟨rfl, rfl, rfl, rfl, rfl⟩⟩
  exact (hblur.setTx (fun tp => { tp with
    tsoFrames := 0, sumNeeded := 0, vlanNeeded := false, size := 0, cptse := false })
    fun _ => rfl).forget

theorem endPacket_tso {vme : Bool} {c : TsoContext} {w w' : World} {fuel : Nat}
    {ds : List TxDesc} (hseg : SegmentedPacket vme c ds) (h : TsoBlur c w w') :
    Run.Rel (Apart c) (endPacket fuel w) (endPacket fuel w') := by
  obtain ⟨hcptse, K, hblur, hknown⟩ := h
  refine endPacket_apart ?_
  have htse := hknown.tse hseg
  have hlen := hknown.hdrLen
  simp only [sendLast, hblur.congr E1000Tx.cptse fun _ _ => rfl,
    hblur.congr E1000Tx.tse fun _ _ => rfl, hblur.congr E1000Tx.size fun _ _ => rfl,
    hblur.congr E1000Tx.hdrLen fun _ _ => rfl]
  split_ifs with hshort
  · exact .ok ⟨⟨K, hblur⟩, hknown.context⟩
  · have hheader : c.h ≤ K.data := by
      simp only [hcptse, htse, Bool.and_self, Bool.true_and, decide_eq_true_eq, hlen] at hshort
      exact (Nat.le_of_not_lt hshort).trans hknown.size
    refine (xmitSeg_tsoKnown hseg hblur hknown hheader).mono ?_
    rintro u u' ⟨K', hblur', hknown', -⟩
    exact ⟨⟨K', hblur'⟩, hknown'.context⟩

/-! ## The start of a descriptor -/

section Begin

variable {vme : Bool} {c : TsoContext} {w w' : World} {dp : TxDesc} {K : Known} {fuel : Nat}
  {ds : List TxDesc}

/-- What `process_tx_desc` has written to `tx` before it fetches data. -/
structure Began (vme : Bool) (dp : TxDesc) (tp tp' : E1000Tx) : Prop where
  context : tp'.context = tp.context
  cptse : tp'.cptse = segmentsDesc dp
  size : tp'.size = tp.size
  vlanNeeded : tp'.vlanNeeded = (tp.vlanNeeded || tagsDesc vme dp)
  sumNeeded : test tp'.sumNeeded txdPoptsTxsm = true →
    test tp.sumNeeded txdPoptsTxsm = true ∨ sumsDesc dp = true

theorem beganTx_cptse (w : World) (dp : TxDesc) : (beganTx w dp).cptse = segmentsDesc dp := by
  simp only [beganTx, beginData, segmentsDesc]
  cases decide (descType dp = txdCmdDext ||| txdDtypD) <;> rfl

theorem beginDesc_began (w : World) (dp : TxDesc) :
    Began (vlanEnabled w.dev) dp w.dev.tx (beginDesc w dp).dev.tx := by
  have hdata : Began false dp w.dev.tx (beganTx w dp) := by
    refine ⟨?_, beganTx_cptse w dp, ?_, ?_, ?_⟩
    · simp only [beganTx, beginData]
      split_ifs <;> rfl
    · simp only [beganTx, beginData]
      split_ifs <;> rfl
    · simp only [beganTx, beginData, tagsDesc, Bool.false_and, Bool.or_false]
      split_ifs <;> rfl
    · simp only [beganTx, beginData]
      split_ifs with htype hzero
      · exact .inr
      · exact .inl
      · exact .inl
  have htag : tagsDesc (vlanEnabled w.dev) dp =
      (vlanEnabled w.dev && isVlanTxd dp && ((beganTx w dp).cptse || txdEop dp)) := by
    rw [beganTx_cptse, tagsDesc]
  have hbegin : (beginDesc w dp).dev.tx = tagTx w.dev (beganTx w dp) dp := rfl
  obtain ⟨hcontext, hcptse, hsize, hvlan, hsum⟩ := hdata
  rw [hbegin, tagTx, ← htag]
  split_ifs with hneeded
  · exact ⟨hcontext, hcptse, hsize, by rw [hneeded, Bool.or_true], hsum⟩
  · rw [Bool.not_eq_true] at hneeded
    refine ⟨hcontext, hcptse, hsize, ?_, hsum⟩
    rw [hvlan, hneeded, tagsDesc, Bool.false_and, Bool.false_and]

theorem tagHeader_data : (K.tagHeader w.dev (beganTx w dp) dp).data = K.data := by
  rw [Known.tagHeader]
  split_ifs <;> rfl

theorem tagHeader_header : (K.tagHeader w.dev (beganTx w dp) dp).header = K.header := by
  rw [Known.tagHeader]
  split_ifs <;> rfl

theorem tagHeader_vlanHeader (h : 4 ≤ K.vlanHeader ∨ tagsDesc (vlanEnabled w.dev) dp = true) :
    4 ≤ (K.tagHeader w.dev (beganTx w dp) dp).vlanHeader := by
  rw [tagsDesc, ← beganTx_cptse w dp] at h
  rw [Known.tagHeader]
  split_ifs with hneeded
  · exact Nat.le_max_right _ _
  · exact h.resolve_right hneeded

theorem beginDesc_tsoBlur (hseg : SegmentedPacket (vlanEnabled w.dev) c ds) (hdp : dp ∈ ds)
    (hblur : Blurred K w w') (hknown : TsoKnown c K w.dev.tx) :
    TsoBlur c (beginDesc w dp) (beginDesc w' dp) := by
  obtain ⟨hcontext, hcptse, hsize, hvlan, hsum⟩ := beginDesc_began w dp
  refine ⟨hcptse.trans (hseg.segmented dp hdp), _, hblur.beginDesc dp, ?_⟩
  refine ⟨hcontext.trans hknown.context, ?_, ?_, ?_, fun htag => ?_, fun hs => ?_⟩
  · rw [hsize, tagHeader_data]
    exact hknown.size
  · rw [tagHeader_data]
    exact hknown.bound
  · rw [tagHeader_data, tagHeader_header]
    exact hknown.header
  · rw [hvlan, Bool.or_eq_true] at htag
    rcases htag with htag | htag
    · exact ⟨(hknown.tag htag).1, tagHeader_vlanHeader (.inl (hknown.tag htag).2)⟩
    · exact ⟨hseg.tag dp hdp htag, tagHeader_vlanHeader (.inr htag)⟩
  · rcases hsum hs with hs | hs
    · exact hknown.checksum hs
    · exact hseg.checksum dp hdp hs

end Begin

/-! ## Packets sent as they are -/

section Plain

variable {vme : Bool} {c : TsoContext} {w w' : World} {dp : TxDesc} {K : Known} {fuel : Nat}
  {ds rest : List TxDesc} {total : Nat}

/--
`total` bytes make up the packet and those of `rest` are still to come; `size` only
falls short of the difference after the array has been full.
-/
structure PlainKnown (c : TsoContext) (total : Nat) (rest : List TxDesc) (K : Known)
    (tp : E1000Tx) : Prop where
  context : tp.context = c
  cptse : (c.tse && tp.cptse) = false
  size : tp.size.toNat ≤ K.data
  bound : K.data ≤ txDataBytes
  filled : 12 ≤ K.data ∨ total ≤ tp.size.toNat + plainLength rest
  tag : tp.vlanNeeded = true → 12 ≤ total ∧ 4 ≤ K.vlanHeader

def PlainBlur (c : TsoContext) (total : Nat) (rest : List TxDesc) (w w' : World) : Prop :=
  ∃ K, Blurred K w w' ∧ PlainKnown c total rest K w.dev.tx

theorem plainLength_cons (dp : TxDesc) (ds : List TxDesc) :
    plainLength (dp :: ds) = (if segmentsDesc dp then 0 else descLen dp) + plainLength ds := by
  simp only [plainLength, List.filter_cons]
  cases segmentsDesc dp <;> simp

theorem beginDesc_plainKnown (hplain : PlainPacket (vlanEnabled w.dev) c ds) (hdp : dp ∈ ds)
    (hknown : PlainKnown c (plainLength ds) rest K w.dev.tx) :
    PlainKnown c (plainLength ds) rest (K.tagHeader w.dev (beganTx w dp) dp)
      (beginDesc w dp).dev.tx := by
  obtain ⟨hcontext, hcptse, hsize, hvlan, -⟩ := beginDesc_began w dp
  refine ⟨hcontext.trans hknown.context, ?_, ?_, ?_, ?_, fun htag => ?_⟩
  · rw [hcptse]
    exact hplain.plain dp hdp
  · rw [hsize, tagHeader_data]
    exact hknown.size
  · rw [tagHeader_data]
    exact hknown.bound
  · rw [hsize, tagHeader_data]
    exact hknown.filled
  · rw [hvlan, Bool.or_eq_true] at htag
    rcases htag with htag | htag
    · exact ⟨(hknown.tag htag).1, tagHeader_vlanHeader (.inl (hknown.tag htag).2)⟩
    · exact ⟨hplain.tag dp hdp htag, tagHeader_vlanHeader (.inr htag)⟩

theorem PlainKnown.append {tp : E1000Tx} {chunk : List U8}
    (h : PlainKnown c total (dp :: rest) K tp) (hdp : segmentsDesc dp = false)
    (hchunk : chunk.length = plainBytes tp dp) :
    PlainKnown c total rest (K.append tp chunk.length) (plainChunk tp chunk) := by
  obtain ⟨hcontext, hcptse, hsize, hbound, hfilled, htag⟩ := h
  have hfit : tp.size.toNat + chunk.length ≤ txDataBytes := hchunk ▸ plainBytes_le tp dp
  have hnew : (plainChunk tp chunk).size.toNat = (tp.size.toNat + chunk.length) % 2 ^ 16 := by
    simp only [plainChunk, BitVec.toNat_add, BitVec.toNat_ofNat, Nat.add_mod_mod]
  refine ⟨hcontext, hcptse, ?_, Nat.max_le.mpr ⟨hbound, hfit⟩, ?_, htag⟩
  · rw [hnew]
    exact (Nat.mod_le _ _).trans (Nat.le_max_right _ _)
  · simp only [plainLength_cons, hdp, Bool.false_eq_true, if_false] at hfilled
    rw [hnew]
    simp only [Known.append]
    -- the chunk is cut only where it fills the array, and then `K.data` is past 12
    rw [plainBytes] at hchunk
    change chunk.length = min (txDataBytes - tp.size.toNat) (descLen dp) at hchunk
    simp only [txDataBytes] at hchunk hfit
    have hlt := tp.size.isLt
    omega

theorem PlainKnown.not_tso {tp : E1000Tx} (h : PlainKnown c total rest K tp) :
    (tp.tse && tp.cptse) = false := by
  rw [show tp.tse = c.tse from congrArg TsoContext.tse h.context]
  exact h.cptse

theorem fetchData_plainBlur (hknown : PlainKnown c total (dp :: rest) K w.dev.tx)
    (hblur : Blurred K w w') (hcptse : w.dev.tx.cptse = segmentsDesc dp) :
    Run.Rel (PlainBlur c total rest) (fetchData fuel w dp) (fetchData fuel w' dp) := by
  have htso := hknown.not_tso
  have hbytes : plainBytes w'.dev.tx dp = plainBytes w.dev.tx dp :=
    hblur.congr (plainBytes · dp) fun _ _ => rfl
  rw [fetchData_eq, fetchData_eq, hblur.congr E1000Tx.cptse fun _ _ => rfl,
    hblur.congr E1000Tx.tse fun _ _ => rfl, htso, hbytes, hblur.mem]
  simp only [Bool.false_eq_true, if_false]
  split_ifs with hskip
  · have hsegments : segmentsDesc dp = true := hcptse.symm.trans hskip
    have hfilled := hknown.filled
    simp only [plainLength_cons, hsegments, if_true, Nat.zero_add] at hfilled
    exact .ok ⟨K, hblur, hknown.context, hknown.cptse, hknown.size, hknown.bound, hfilled,
      hknown.tag⟩
  · have hsegments : segmentsDesc dp = false := by
      rw [← hcptse]
      exact Bool.eq_false_iff.mpr hskip
    refine .ok ⟨_, (hblur.emit _).setTx (plainChunk · _) fun o => ?_,
      hknown.append hsegments (Memory.length_read _ _ _)⟩
    exact plainChunk_upTo o _ hknown.size

theorem endPacket_plain (h : PlainBlur c total [] w w') :
    Run.Rel (Apart c) (endPacket fuel w) (endPacket fuel w') := by
  obtain ⟨K, hblur, hknown⟩ := h
  refine endPacket_apart ?_
  have htso := hknown.not_tso
  have hframe : FrameWithin K w.dev.tx :=
    { data := hknown.size
      bound := hknown.bound
      headers := fun hseg => absurd (htso.symm.trans hseg) (by decide)
      tag := fun htag => by
        obtain ⟨htotal, hheader⟩ := hknown.tag htag
        have hfilled := hknown.filled
        have hsize := hknown.size
        simp only [plainLength, List.filter_nil, List.map_nil, List.sum_nil] at hfilled
        exact ⟨by omega, hheader⟩ }
  simp only [sendLast, hblur.congr E1000Tx.cptse fun _ _ => rfl,
    hblur.congr E1000Tx.tse fun _ _ => rfl, htso, Bool.false_and, Bool.false_eq_true, if_false]
  have hrel := hblur.xmitSeg hframe fuel
  refine (hrel.and_ok fun u hu => (xmitSeg_spec hu).2).mono ?_
  rintro u u' ⟨hblur', vlan, data, frames, htx⟩
  refine ⟨⟨_, hblur'⟩, ?_⟩
  rw [htx]
  exact hknown.context

end Plain

/-! ## Runs -/

section Runs

variable {vme : Bool} {c : TsoContext} {w w' : World} {fuel : Nat} {front ds : List TxDesc}
  {last : TxDesc}

theorem processDescs_append (fuel : Nat) (w : World) (ds ds' : List TxDesc) :
    processDescs fuel w (ds ++ ds') = processDescs fuel w ds >>= (processDescs fuel · ds') := by
  induction ds generalizing w with
  | nil => rfl
  | cons dp ds ih =>
      simp only [List.cons_append, processDescs, Run.bind_assoc]
      exact Run.bind_congr fun u _ => ih u

theorem vlanEnabled_processDescs (h : processDescs fuel w ds = .ok w') :
    vlanEnabled w'.dev = vlanEnabled w.dev := by
  induction ds generalizing w with
  | nil =>
      cases h
      rfl
  | cons dp ds ih =>
      obtain ⟨u, hu, h⟩ := Run.bind_eq_ok.mp h
      exact (ih h).trans (vlanEnabled_processTxDesc hu)

/--
`R ds` relates two devices when the descriptors `ds` of the packet are still to come,
`R'` also says what the last descriptor has left in `cptse`.
-/
theorem processDescs_packet (R R' : List TxDesc → World → World → Prop)
    (hshape : PacketShape front last)
    (hfetch : ∀ dp ∈ front ++ [last], ∀ ds u u', vlanEnabled u.dev = vme → R (dp :: ds) u u' →
      Run.Rel (R' ds) (fetchData fuel (beginDesc u dp) dp) (fetchData fuel (beginDesc u' dp) dp))
    (hnext : ∀ ds u u', R' ds u u' → R ds u u')
    (hend : ∀ u u', R' [] u u' → Run.Rel (Apart c) (endPacket fuel u) (endPacket fuel u'))
    (hvme : vlanEnabled w.dev = vme) (h : R (front ++ [last]) w w') :
    Run.Rel (Apart c) (processDescs fuel w (front ++ [last]))
      (processDescs fuel w' (front ++ [last])) := by
  obtain ⟨hdata, heop, hlast⟩ := hshape
  -- descriptor by descriptor; only the last one ends the packet
  induction front generalizing w w' with
  | nil =>
      have hmem : last ∈ ([] : List TxDesc) ++ [last] := List.mem_append_right _ (.head _)
      simp only [List.nil_append, processDescs, Run.bind_ok_self, processTxDesc,
        hdata last hmem, hlast, if_false, if_true]
      exact (hfetch last hmem [] w w' hvme h).bind hend
  | cons dp front ih =>
      have hmem : dp ∈ dp :: front ++ [last] := List.mem_append_left _ (.head _)
      refine Run.Rel.bind_of_ok (R := R (front ++ [last])) ?_ fun u u' hu hrel => ?_
      · simp only [processTxDesc, hdata dp hmem, heop dp (.head _), Bool.false_eq_true, if_false,
          Run.bind_ok_self]
        exact (hfetch dp hmem _ w w' hvme h).mono fun u u' => hnext _ u u'
      · exact ih (fun d hd => hfetch d (.tail _ hd)) ((vlanEnabled_processTxDesc hu).trans hvme)
          hrel (fun d hd => hdata d (.tail _ hd)) fun d hd => heop d (.tail _ hd)

theorem processDescs_plain (hshape : PacketShape front last)
    (hplain : PlainPacket vme c (front ++ [last])) (hvme : vlanEnabled w.dev = vme)
    (h : Apart c w w') :
    Run.Rel (Apart c) (processDescs fuel w (front ++ [last]))
      (processDescs fuel w' (front ++ [last])) := by
  obtain ⟨hblur, hcontext, hsize, -, -, hvlan, hcptse⟩ := h
  refine processDescs_packet (PlainBlur c (plainLength (front ++ [last])))
    (PlainBlur c (plainLength (front ++ [last]))) hshape ?_ (fun _ _ _ hrel => hrel)
    (fun u u' => endPacket_plain) hvme ⟨_, hblur, hcontext, ?_, ?_, Nat.zero_le _, .inr ?_, ?_⟩
  · rintro dp hdp ds u u' rfl ⟨K, hblur, hknown⟩
    exact fetchData_plainBlur (beginDesc_plainKnown hplain hdp hknown) (hblur.beginDesc dp)
      (beginDesc_began u dp).cptse
  · rw [hcptse, Bool.and_false]
  · rw [hsize]
    exact Nat.le_refl 0
  · exact Nat.le_add_left _ _
  · intro htag
    exact absurd (hvlan.symm.trans htag) (by decide)

theorem processDescs_segmented (hshape : PacketShape front last)
    (hseg : SegmentedPacket vme c (front ++ [last])) (hvme : vlanEnabled w.dev = vme)
    (h : Apart c w w') :
    Run.Rel (Apart c) (processDescs fuel w (front ++ [last]))
      (processDescs fuel w' (front ++ [last])) := by
  obtain ⟨hblur, hcontext, hsize, -, hsum, hvlan, -⟩ := h
  refine processDescs_packet (fun _ u u' => ∃ K, Blurred K u u' ∧ TsoKnown c K u.dev.tx)
    (fun _ => TsoBlur c) hshape ?_ (fun _ _ _ hrel => hrel.known)
    (fun u u' => endPacket_tso hseg) hvme
    ⟨_, hblur, hcontext, ?_, Nat.zero_le _, fun hheader => hheader, ?_, ?_⟩
  · rintro dp hdp ds u u' rfl ⟨K, hblur, hknown⟩
    exact fetchData_tsoBlur hseg dp (beginDesc_tsoBlur hseg hdp hblur hknown)
  · rw [hsize]
    exact Nat.le_refl 0
  · intro htag
    exact absurd (hvlan.symm.trans htag) (by decide)
  · intro htest
    rw [hsum] at htest
    exact absurd htest (by decide)

theorem processTxDesc_context {dp : TxDesc} (hdp : descType dp = txdCmdDext)
    (h : Apart c w w') :
    Run.Rel (Apart (descContext dp)) (processTxDesc fuel w dp) (processTxDesc fuel w' dp) := by
  obtain ⟨⟨o, rfl⟩, -, hbetween⟩ := h
  simp only [processTxDesc, hdp, if_true]
  refine .ok ⟨⟨o, rfl⟩, rfl, ?_⟩
  exact ⟨hbetween.size, rfl, hbetween.sumNeeded, hbetween.vlanNeeded, hbetween.cptse⟩

theorem processDescs_apart (hds : IsolatedPackets vme c ds) (hvme : vlanEnabled w.dev = vme)
    (h : Apart c w w') :
    Run.Rel (fun u u' => ∃ c', Apart c' u u') (processDescs fuel w ds)
      (processDescs fuel w' ds) := by
  induction hds generalizing w w' with
  | nil c => exact .ok ⟨c, h⟩
  | context hdp _ ih =>
      exact (processTxDesc_context hdp h).bind_of_ok fun u u' hu hrel =>
        ih ((vlanEnabled_processTxDesc hu).trans hvme) hrel
  | @packet c front ds last hshape hpacket _ ih =>
      rw [processDescs_append fuel w (front ++ [last]),
        processDescs_append fuel w' (front ++ [last])]
      refine Run.Rel.bind_of_ok ?_ fun u u' hu hrel =>
        ih ((vlanEnabled_processDescs hu).trans hvme) hrel
      rcases hpacket with hplain | hseg
      · exact processDescs_plain hshape hplain hvme h
      · exact processDescs_segmented hshape hseg hvme h

end Runs

/-- The rest of `tx` is settled by the context and by being between packets. -/
theorem eq_upTo_of_context {tp tp₀ : E1000Tx} (hcontext : tp.context = tp₀.context)
    (htp : BetweenPackets tp) (htp₀ : BetweenPackets tp₀) :
    tp = tp₀.upTo ⟨0, 0, 0, 0⟩ ⟨tp.data, tp.header, tp.vlan, tp.vlanHeader⟩ := by
  have hnone : ∀ b rest : Buffer, b.upTo 0 rest = rest := fun b rest =>
    funext fun i => if_neg (Nat.not_lt_zero i)
  obtain ⟨hsize, hframes, hsum, hvlan, hcptse⟩ := htp
  obtain ⟨hsize₀, hframes₀, hsum₀, hvlan₀, hcptse₀⟩ := htp₀
  cases tp
  cases tp₀
  simp only [E1000Tx.context, TsoContext.mk.injEq] at hcontext
  simp_all only [E1000Tx.upTo]

/-- Whatever the buffers held, isolated packets send the same frames. -/
theorem transmit_isolated {w : World} {tp : E1000Tx} {ds : List TxDesc} (fuel : Nat)
    (hcontext : tp.context = w.dev.tx.context) (hw : BetweenPackets w.dev.tx)
    (htp : BetweenPackets tp)
    (hds : IsolatedPackets (vlanEnabled w.dev) w.dev.tx.context ds) :
    Run.Rel (fun u u' => u'.log = u.log ∧ u' = u.setTx u'.dev.tx ∧
        BetweenPackets u.dev.tx ∧ BetweenPackets u'.dev.tx)
      (processDescs fuel w ds) (processDescs fuel (w.setTx tp) ds) := by
  have hblur : Blurred ⟨0, 0, 0, 0⟩ w (w.setTx tp) := by
    exact ⟨_, congrArg (World.setTx w) (eq_upTo_of_context hcontext htp hw)⟩
  refine (processDescs_apart hds rfl ⟨hblur, rfl, hw⟩).mono ?_
  rintro u u' ⟨c', hblur', -, hbetween⟩
  obtain ⟨o, rfl⟩ := hblur'
  exact ⟨rfl, rfl, hbetween, hbetween.size, hbetween.tsoFrames, hbetween.sumNeeded,
    hbetween.vlanNeeded, hbetween.cptse⟩

/-- Tags are inserted, and guest memory starts with the bytes 1 to 12. -/
def taggingDevice : World :=
  setCtrl (powerOn (fun _ => 0) 0 false
    (Memory.blank.write 0 [1, 2, 3, 4, 5, 6, 7, 8, 9, 10, 11, 12])) ctrlVme

/-- A legacy descriptor for a packet of the first `len` bytes of memory. -/
def legacyDesc (len : U32) (tagged : Bool) : TxDesc :=
  ⟨0, txdCmdEop ||| (if tagged then txdCmdVle else 0) ||| len, 0⟩

theorem transmit_isolated_tagged :
    Run.Rel (fun u u' => u'.log = u.log ∧ u' = u.setTx u'.dev.tx ∧
        BetweenPackets u.dev.tx ∧ BetweenPackets u'.dev.tx)
      (processDescs 0 taggingDevice [legacyDesc 12 true])
      (processDescs 0 (taggingDevice.setTx { E1000Tx.zero with data := fun _ => 0xff })
        [legacyDesc 12 true]) := by
  have hbetween : BetweenPackets E1000Tx.zero := ⟨rfl, rfl, rfl, rfl, rfl⟩
  have hshape : PacketShape [] (legacyDesc 12 true) := ⟨by decide, by decide, rfl⟩
  have hplain : PlainPacket true E1000Tx.zero.context [legacyDesc 12 true] :=
    ⟨by decide, by decide⟩
  exact transmit_isolated 0 rfl hbetween ⟨rfl, rfl, rfl, rfl, rfl⟩
    (.packet hshape (.inl hplain) (.nil _))

/--
After a packet of one byte the device is between packets again.  An empty packet that
gets a tag then sends that byte; it sends four zero bytes from the buffers of a device
that had sent nothing.
-/
theorem transmit_not_isolated :
    Reachable taggingDevice ∧ BetweenPackets taggingDevice.dev.tx ∧
    ∃ w u u', processDescs 0 taggingDevice [legacyDesc 1 false] = .ok w ∧
      BetweenPackets w.dev.tx ∧ w.dev.tx.context = taggingDevice.dev.tx.context ∧
      processDescs 0 taggingDevice [legacyDesc 0 true] = .ok u ∧
      processDescs 0 (taggingDevice.setTx w.dev.tx) [legacyDesc 0 true] = .ok u' ∧
      u.log.head? = some (.sendPacket [0, 0, 0, 0]) ∧
      u'.log.head? = some (.sendPacket [1, 0, 0, 0]) := by
  refine ⟨.mmioWrite (.powerOn _ _ _ _) 0x0#64 .setCtrl ctrlVme rfl fun _ => rfl,
    ⟨rfl, rfl, rfl, rfl, rfl⟩, _, _, _, rfl, ⟨rfl, rfl, rfl, rfl, rfl⟩, rfl, rfl, rfl, ?_, ?_⟩
  · decide +kernel
  · decide +kernel

end SE4VM.E1000
