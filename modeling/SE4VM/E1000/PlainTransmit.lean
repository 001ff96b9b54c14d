import SE4VM.E1000.PacketIsolation

/-!
# Packets sent without segmentation

A chain of descriptors that ends with the first `EOP` leads to one call of
`xmit_seg`.  As long as `size` does not overflow, `data` holds the buffers of the
chain one after the other.  A chain that fills the array is back at its start: what
is then sent is shorter than the array.
-/

namespace SE4VM.E1000

open SE4VM.Foundation

/-! ## The chain -/

def chainBytes (mem : Memory) (ds : List TxDesc) : List U8 :=
  ds.flatMap fun dp => mem.read dp.bufferAddr (descLen dp)

/-- The frame is sent as it was fetched. -/
structure Untouched (tp : E1000Tx) : Prop where
  tcpSum : test tp.sumNeeded txdPoptsTxsm = false
  ipSum : test tp.sumNeeded txdPoptsIxsm = false
  vlanNeeded : tp.vlanNeeded = false

def Event.frame : Event → Option (List U8)
  | .sendPacket frame => some frame
  | .dropPacket frame => some frame
  | _ => none

/-- From `w` to `w'` these frames are handed to the backend, oldest first. -/
def Sends (frames : List (List U8)) (w w' : World) : Prop :=
  ∃ es, w'.log = es ++ w.log ∧ es.reverse.filterMap Event.frame = frames

/-- The device when the data of a descriptor without segmentation has been fetched. -/
def plainFetch (w : World) (dp : TxDesc) : World :=
  let w := beginDesc w dp
  (w.emit (.dmaRead .txData dp.bufferAddr (plainBytes w.dev.tx dp))).setTx
    (plainChunk w.dev.tx (w.mem.read dp.bufferAddr (plainBytes w.dev.tx dp)))

theorem length_chainBytes (mem : Memory) (ds : List TxDesc) :
    (chainBytes mem ds).length = packetLength ds := by
  simp [chainBytes, packetLength, List.length_flatMap]

section Fetch

variable {w : World} {dp : TxDesc} {fuel : Nat}

theorem plainFetch_cptse (hdp : segmentsDesc dp = false) :
    (plainFetch w dp).dev.tx.cptse = false :=
  (beginDesc_began w dp).cptse.trans hdp

/-- The count is a 16-bit one, and the clamp lets it reach the length of the array. -/
theorem plainFetch_size : (plainFetch w dp).dev.tx.size =
    w.dev.tx.size + BitVec.ofNat 16 (min (txDataBytes - w.dev.tx.size.toNat) (descLen dp)) := by
  simp only [plainFetch, World.dev_setTx, plainChunk, Memory.length_read, plainBytes,
    (beginDesc_began w dp).size, descLen]

theorem fetchData_plainFetch (hdp : segmentsDesc dp = false) :
    fetchData fuel (beginDesc w dp) dp = .ok (plainFetch w dp) := by
  have hcptse := (beginDesc_began w dp).cptse.trans hdp
  rw [fetchData_eq, hcptse, Bool.and_false]
  rfl

theorem fetchCalls_plain (hdp : segmentsDesc dp = false) :
    fetchCalls fuel (beginDesc w dp) dp = [] := by
  have hcptse := (beginDesc_began w dp).cptse.trans hdp
  rw [fetchCalls, hcptse, Bool.and_false]
  rfl

theorem processTxDesc_plainFront (hdata : descType dp ≠ txdCmdDext) (hdp : segmentsDesc dp = false)
    (heop : txdEop dp = false) : processTxDesc fuel w dp = .ok (plainFetch w dp) := by
  rw [processTxDesc, if_neg hdata, fetchData_plainFetch hdp, heop]
  rfl

theorem descCalls_plainFront (hdata : descType dp ≠ txdCmdDext) (hdp : segmentsDesc dp = false)
    (heop : txdEop dp = false) : descCalls fuel w dp = [] := by
  rw [descCalls, if_neg hdata, fetchCalls_plain hdp, fetchData_plainFetch hdp, heop]
  rfl

theorem processTxDesc_plainLast (hdata : descType dp ≠ txdCmdDext) (hdp : segmentsDesc dp = false)
    (heop : txdEop dp = true) :
    processTxDesc fuel w dp = endPacket fuel (plainFetch w dp) := by
  rw [processTxDesc, if_neg hdata, fetchData_plainFetch hdp, heop]
  rfl

theorem lastCalls_plain (hdp : segmentsDesc dp = false) :
    lastCalls (plainFetch w dp) = [plainFetch w dp] := by
  rw [lastCalls, plainFetch_cptse hdp, Bool.and_false]
  rfl

theorem descCalls_plainLast (hdata : descType dp ≠ txdCmdDext) (hdp : segmentsDesc dp = false)
    (heop : txdEop dp = true) : descCalls fuel w dp = [plainFetch w dp] := by
  rw [descCalls, if_neg hdata, fetchCalls_plain hdp, fetchData_plainFetch hdp, heop,
    List.nil_append]
  exact lastCalls_plain hdp

end Fetch

section Chain

variable {front : List TxDesc} {last : TxDesc} (hshape : PacketShape front last)
  (hplain : ∀ dp ∈ front ++ [last], segmentsDesc dp = false)
include hshape hplain

/-- The one call of `xmit_seg` is made when the whole chain has been fetched. -/
theorem plain_chain (fuel : Nat) (w : World) :
    packetCalls fuel w (front ++ [last]) = [(front ++ [last]).foldl plainFetch w] ∧
      processDescs fuel w (front ++ [last]) =
        endPacket fuel ((front ++ [last]).foldl plainFetch w) := by
  obtain ⟨hdata, heop, hlast⟩ := hshape
  induction front generalizing w with
  | nil =>
      have hmem : last ∈ [] ++ [last] := List.mem_append_right _ (.head _)
      simp only [List.nil_append, List.foldl_cons, List.foldl_nil, packetCalls, processDescs,
        Run.bind_ok_self, processTxDesc_plainLast (hdata last hmem) (hplain last hmem) hlast,
        descCalls_plainLast (hdata last hmem) (hplain last hmem) hlast]
      refine ⟨?_, trivial⟩
      cases endPacket fuel (plainFetch w last) <;> rfl
  | cons dp front ih =>
      have hmem : dp ∈ dp :: front ++ [last] := List.mem_append_left _ (.head _)
      have hproc : processTxDesc fuel w dp = .ok (plainFetch w dp) :=
        processTxDesc_plainFront (hdata dp hmem) (hplain dp hmem) (heop dp (.head _))
      rw [List.cons_append, packetCalls_cons hproc, processDescs_cons hproc, List.foldl_cons,
        descCalls_plainFront (hdata dp hmem) (hplain dp hmem) (heop dp (.head _)), List.nil_append]
      exact ih (fun d hd => hplain d (.tail _ hd)) (plainFetch w dp)
        (fun d hd => hdata d (.tail _ hd)) fun d hd => heop d (.tail _ hd)

end Chain

/-! ## The bytes fetched -/

/-- `data` starts with these bytes, and `size` counts them. -/
structure Gathered (bs : List U8) (tp : E1000Tx) : Prop where
  size : tp.size.toNat = bs.length
  data : tp.data.slice 0 bs.length = bs

theorem Gathered.append {bs chunk : List U8} {tp : E1000Tx} (h : Gathered bs tp)
    (hfit : bs.length + chunk.length < 2 ^ 16) :
    Gathered (bs ++ chunk) (plainChunk tp chunk) := by
  constructor
  · simp only [plainChunk, BitVec.toNat_add, BitVec.toNat_ofNat, List.length_append, h.size]
    omega
  · have hstore := Buffer.slice_store_append tp.data 0 bs.length chunk
    rw [Nat.zero_add, h.data] at hstore
    simp only [plainChunk, List.length_append, h.size]
    exact hstore

theorem beginDesc_data (w : World) (dp : TxDesc) :
    (beginDesc w dp).dev.tx.data = w.dev.tx.data := by
  have hdata : ∀ (tp : E1000Tx) (b : Bool), (beginData tp dp b).data = tp.data := by
    intro tp b
    rw [beginData]
    split_ifs <;> rfl
  have htag : ∀ (s : E1000State) (tp : E1000Tx), (tagTx s tp dp).data = tp.data := by
    intro s tp
    rw [tagTx]
    split_ifs <;> rfl
  exact (htag _ _).trans (hdata _ _)

theorem Gathered.plainFetch {bs : List U8} {w : World} {dp : TxDesc}
    (h : Gathered bs w.dev.tx) (hfit : bs.length + descLen dp < 2 ^ 16) :
    Gathered (bs ++ w.mem.read dp.bufferAddr (descLen dp)) (E1000.plainFetch w dp).dev.tx := by
  have hsize := (beginDesc_began w dp).size
  have hbegin : Gathered bs (beginDesc w dp).dev.tx :=
    ⟨by rw [hsize, h.size], by rw [beginDesc_data, h.data]⟩
  have hbytes : plainBytes (beginDesc w dp).dev.tx dp = descLen dp := by
    rw [plainBytes, hbegin.size, txDataBytes]
    exact Nat.min_eq_right (by simp only [descLen] at hfit; omega)
  simp only [E1000.plainFetch, World.dev_setTx, hbytes]
  exact hbegin.append (by rwa [Memory.length_read])

theorem Gathered.foldl_plainFetch {bs : List U8} {w : World} {ds : List TxDesc}
    (h : Gathered bs w.dev.tx) (hfit : bs.length + packetLength ds < 2 ^ 16) :
    Gathered (bs ++ chainBytes w.mem ds) (ds.foldl E1000.plainFetch w).dev.tx := by
  induction ds generalizing bs w with
  | nil =>
      rw [chainBytes, List.flatMap_nil, List.append_nil]
      exact h
  | cons dp ds ih =>
      rw [packetLength, List.map_cons, List.sum_cons] at hfit
      have hdp : bs.length + descLen dp < 2 ^ 16 := by omega
      have hnext := ih (h.plainFetch hdp)
        (by rw [List.length_append, Memory.length_read, packetLength]; omega)
      rw [List.append_assoc] at hnext
      exact hnext

/-! ## The frame -/

theorem frameSent_untouched {tp : E1000Tx} (h : Untouched tp) (hcptse : tp.cptse = false) :
    frameSent tp = tp.data.slice 0 tp.size.toNat := by
  have hfinish : finishFrame tp = tp := by
    simp only [finishFrame, hcptse, Bool.and_false, Bool.false_eq_true, if_false, h.tcpSum,
      h.ipSum]
  have hframe : frameTx tp = tp := by
    simp only [frameTx, hfinish, h.vlanNeeded, Bool.false_eq_true, if_false]
  simp only [frameSent, hframe, h.vlanNeeded, Bool.false_eq_true, if_false]

/-! ## What reaches the backend -/

theorem Sends.refl (w : World) : Sends [] w w := ⟨[], rfl, rfl⟩

theorem Sends.trans {fs fs' : List (List U8)} {w w' w'' : World} (h : Sends fs w w')
    (h' : Sends fs' w' w'') : Sends (fs ++ fs') w w'' := by
  obtain ⟨es, hlog, rfl⟩ := h
  obtain ⟨es', hlog', rfl⟩ := h'
  refine ⟨es' ++ es, by rw [hlog', hlog, List.append_assoc], ?_⟩
  rw [List.reverse_append, List.filterMap_append]

theorem sends_foldl_plainFetch (w : World) (ds : List TxDesc) :
    Sends [] w (ds.foldl plainFetch w) := by
  induction ds generalizing w with
  | nil => exact .refl w
  | cons dp ds ih => exact Sends.trans ⟨[_], rfl, rfl⟩ (ih (plainFetch w dp))

theorem foldl_plainFetch_phyReg (w : World) (ds : List TxDesc) :
    (ds.foldl plainFetch w).dev.phyReg = w.dev.phyReg := by
  induction ds generalizing w with
  | nil => rfl
  | cons dp ds ih => exact ih (plainFetch w dp)

theorem endPacket_sends {w : World} (fuel : Nat) (hcptse : w.dev.tx.cptse = false)
    (hloop : test (w.dev.phyReg Phy.ctrl) miiCrLoopback = false) :
    ∃ w', endPacket fuel w = .ok w' ∧ Sends [frameSent w.dev.tx] w w' := by
  have hsend : e1000SendPacket fuel (w.setTx (frameTx w.dev.tx)) (frameSent w.dev.tx) =
      .ok (qemuSendPacket (w.setTx (frameTx w.dev.tx)) (frameSent w.dev.tx),
        frameSent w.dev.tx) :=
    if_neg (by rw [World.dev_setTx, hloop]; decide)
  rw [endPacket, sendLast, hcptse, Bool.and_false, Bool.false_and, if_neg (by decide),
    xmitSeg_eq, hsend]
  refine ⟨_, rfl, [if w.dev.linkDown then .dropPacket (frameSent w.dev.tx)
    else .sendPacket (frameSent w.dev.tx)], countFrame_log _, ?_⟩
  cases w.dev.linkDown <;> rfl

/--
A plain chain leads to one frame.  It is made of the first 65536 bytes of the chain
just when the chain is shorter than the array.
-/
theorem plain_transmit_iff {front : List TxDesc} {last : TxDesc} {w : World}
    (hshape : PacketShape front last)
    (hplain : ∀ dp ∈ front ++ [last], segmentsDesc dp = false) (hsize : w.dev.tx.size = 0) :
    ∃ c, (∀ fuel, packetCalls fuel w (front ++ [last]) = [c]) ∧
      (test (w.dev.phyReg Phy.ctrl) miiCrLoopback = false → ∀ fuel,
        ∃ w', processDescs fuel w (front ++ [last]) = .ok w' ∧
          Sends [frameSent c.dev.tx] w w') ∧
      (Untouched c.dev.tx →
        (frameSent c.dev.tx = (chainBytes w.mem (front ++ [last])).take
          (min (packetLength (front ++ [last])) 65536) ↔
        packetLength (front ++ [last]) < 65536)) := by
  have hcptse : ((front ++ [last]).foldl plainFetch w).dev.tx.cptse = false := by
    rw [List.foldl_append]
    exact plainFetch_cptse (hplain last (List.mem_append_right _ (.head _)))
  refine ⟨(front ++ [last]).foldl plainFetch w, fun fuel => (plain_chain hshape hplain fuel w).1,
    fun hloop fuel => ?_, fun huntouched => ⟨fun hframe => ?_, fun hlt => ?_⟩⟩
  · obtain ⟨w', hend, hsends⟩ := endPacket_sends fuel hcptse
      (by rw [foldl_plainFetch_phyReg]; exact hloop)
    refine ⟨w', (plain_chain hshape hplain fuel w).2.trans hend, ?_⟩
    exact (sends_foldl_plainFetch w _).trans hsends
  · -- The frame has `size` bytes, fewer than the array.
    have hlength := congrArg List.length hframe
    rw [frameSent_untouched huntouched hcptse, Buffer.length_slice, List.length_take,
      length_chainBytes] at hlength
    have hlt := ((front ++ [last]).foldl plainFetch w).dev.tx.size.isLt
    omega
  · have hstart : Gathered [] w.dev.tx := ⟨by rw [hsize]; rfl, rfl⟩
    have hall : Gathered (chainBytes w.mem (front ++ [last]))
        ((front ++ [last]).foldl plainFetch w).dev.tx :=
      hstart.foldl_plainFetch (by simpa using hlt)
    rw [frameSent_untouched huntouched hcptse, hall.size, hall.data, List.take_of_length_le]
    rw [length_chainBytes]
    omega

/-- Two legacy descriptors of the same length, for bytes from the start of memory. -/
def legacyPair (len : U32) : List TxDesc := [⟨0, len, 0⟩] ++ [⟨0, txdCmdEop ||| len, 0⟩]

def plainDevice : World := powerOn (fun _ => 0) 0 false (Memory.blank.write 0 [1, 2, 3])

theorem plain_transmit_iff_short :
    ∃ c, packetCalls 0 plainDevice (legacyPair 3) = [c] ∧ Untouched c.dev.tx ∧
      (frameSent c.dev.tx = (chainBytes plainDevice.mem (legacyPair 3)).take
        (min (packetLength (legacyPair 3)) 65536) ↔ packetLength (legacyPair 3) < 65536) := by
  obtain ⟨c, hcalls, -, hframe⟩ := @plain_transmit_iff [⟨0, 3, 0⟩] ⟨0, txdCmdEop ||| 3, 0⟩
    plainDevice ⟨by decide, by decide, rfl⟩ (by decide) rfl
  have hc : [c] = [(legacyPair 3).foldl plainFetch plainDevice] := (hcalls 0).symm
  have huntouched : Untouched c.dev.tx := by
    rw [List.singleton_inj.mp hc]
    exact ⟨by decide, by decide, rfl⟩
  exact ⟨c, hcalls 0, huntouched, hframe huntouched⟩

/-- Two descriptors that fill the array exactly send an empty frame. -/
theorem plain_transmit_wraps :
    Reachable plainDevice ∧ plainDevice.dev.tx.size = 0 ∧
    (∀ dp ∈ legacyPair 0x8000, descType dp ≠ txdCmdDext ∧ segmentsDesc dp = false) ∧
    (legacyPair 0x8000).map txdEop = [false, true] ∧
    ∃ c, (∀ fuel, packetCalls fuel plainDevice (legacyPair 0x8000) = [c]) ∧
      Untouched c.dev.tx ∧ frameSent c.dev.tx = [] ∧
      ((chainBytes plainDevice.mem (legacyPair 0x8000)).take
        (min (packetLength (legacyPair 0x8000)) 65536)).length = 65536 := by
  refine ⟨.powerOn _ _ _ _, rfl, by decide, by decide,
    (legacyPair 0x8000).foldl plainFetch plainDevice, fun fuel => ?_, ?_, ?_, ?_⟩
  · exact (plain_chain ⟨by decide, by decide, rfl⟩ (by decide) fuel plainDevice).1
  · exact ⟨by decide, by decide, rfl⟩
  · rw [frameSent_untouched ⟨by decide, by decide, rfl⟩ rfl]
    have hsize : ((legacyPair 0x8000).foldl plainFetch plainDevice).dev.tx.size = 0 := by
      rw [legacyPair, List.singleton_append, List.foldl_cons, List.foldl_cons, List.foldl_nil,
        plainFetch_size, plainFetch_size]
      decide
    rw [hsize]
    rfl
  · rw [List.length_take, length_chainBytes]
    decide

end SE4VM.E1000
