import Mathlib.Data.List.GetD
import SE4VM.E1000.Disguise
import SE4VM.E1000.ReceiveInput
import SE4VM.E1000.SegmentCalls

/-!
# Transmit buffers known up to some length

`tp.upTo K o` keeps the first bytes of each buffer, as many as `K` says, and has
`o` behind them.  What the transmitter does to the bytes it knows does not depend
on `o`, as long as it reads known bytes only.
-/

namespace SE4VM.E1000

open SE4VM.Foundation

/-! ## One buffer -/

namespace Buffer

def upTo (b : Buffer) (n : Nat) (rest : Buffer) : Buffer := fun i => if i < n then b i else rest i

theorem upTo_apply (b : Buffer) {n i : Nat} (rest : Buffer) (h : i < n) :
    b.upTo n rest i = b i := if_pos h

theorem slice_upTo (b : Buffer) {start len n : Nat} (rest : Buffer) (h : start + len ≤ n) :
    (b.upTo n rest).slice start len = b.slice start len :=
  List.map_congr_left fun _ hi =>
    upTo_apply b rest (Nat.lt_of_lt_of_le (Nat.add_lt_add_left (List.mem_range.mp hi) start) h)

/-- Bytes stored at the end of the known ones, or inside them, become known. -/
theorem store_upTo_grow (b : Buffer) {i n : Nat} (rest : Buffer) (bs : List U8) (h : i ≤ n) :
    (b.upTo n rest).store i bs = (b.store i bs).upTo (max n (i + bs.length)) rest := by
  funext j
  by_cases hj : j < n
  · simp only [store, upTo, if_pos hj, if_pos (show j < max n (i + bs.length) by omega)]
  · have hij : i ≤ j := by omega
    simp only [store, upTo, if_neg hj, if_pos hij]
    by_cases hin : j < i + bs.length
    · rw [if_pos (by omega), List.getD_eq_getElem _ _ (by omega),
        List.getD_eq_getElem _ _ (by omega)]
    · rw [if_neg (by omega), List.getD_eq_default _ _ (by omega)]

theorem store_upTo (b : Buffer) {i n : Nat} (rest : Buffer) {bs : List U8}
    (h : i + bs.length ≤ n) : (b.upTo n rest).store i bs = (b.store i bs).upTo n rest := by
  rw [store_upTo_grow b rest bs (by omega), Nat.max_eq_left h]

/-- Bytes stored anywhere, with those behind the known ones kept apart. -/
theorem store_upTo_behind (b : Buffer) (i n : Nat) (rest : Buffer) (bs : List U8) :
    (b.upTo n rest).store i bs = (b.store i bs).upTo n (rest.store i bs) := by
  funext j
  simp only [store, upTo]
  split_ifs <;> rfl

section Words

variable (b rest : Buffer) {i n : Nat}

theorem storeBe16_upTo (v : U16) (h : i + 2 ≤ n) :
    (b.upTo n rest).storeBe16 i v = (b.storeBe16 i v).upTo n rest :=
  store_upTo b rest (by rwa [length_toBe])

theorem storeBe32_upTo (v : U32) (h : i + 4 ≤ n) :
    (b.upTo n rest).storeBe32 i v = (b.storeBe32 i v).upTo n rest :=
  store_upTo b rest (by rwa [length_toBe])

theorem loadBe16_upTo (h : i + 2 ≤ n) : (b.upTo n rest).loadBe16 i = b.loadBe16 i := by
  rw [loadBe16, slice_upTo b rest h, loadBe16]

theorem loadBe32_upTo (h : i + 4 ≤ n) : (b.upTo n rest).loadBe32 i = b.loadBe32 i := by
  rw [loadBe32, slice_upTo b rest h, loadBe32]

end Words

theorem netChecksumAdd_upTo (b rest : Buffer) {start len n : Nat} (h : start + len ≤ n) :
    netChecksumAdd (b.upTo n rest) start len = netChecksumAdd b start len := by
  induction len with
  | zero => rfl
  | succ len ih =>
      simp only [netChecksumAdd]
      rw [ih (by omega), upTo_apply b rest (by omega)]

end Buffer

/-! ## Checksums -/

/-- The sum stops before the end of the frame, also when the guest starts it behind that. -/
theorem putsum_extent {n css : U32} (cse : U32) (hn : n.toNat ≤ 0x10000)
    (hcss : css.toNat ≤ 0x10000) :
    let m := if cse ≠ 0 ∧ cse < n then cse + 1 else n
    m.toNat ≤ n.toNat ∧
      (css.toNat + (m - css).toInt.toNat ≤ n.toNat ∨ (m - css).toInt.toNat = 0) := by
  intro m
  have hm : m.toNat ≤ n.toNat := by
    simp only [m]
    split_ifs with h
    · have hlt : cse.toNat < n.toNat := h.2
      rw [BitVec.toNat_add, show (1 : U32).toNat = 1 from rfl, Nat.mod_eq_of_lt (by omega)]
      omega
    · exact le_rfl
  refine ⟨hm, ?_⟩
  by_cases hle : css.toNat ≤ m.toNat
  · left
    have hsub : (m - css).toNat = m.toNat - css.toNat := BitVec.toNat_sub_of_le hle
    have hint : (m - css).toInt.toNat = m.toNat - css.toNat := by
      rw [BitVec.toInt_eq_toNat_of_lt (by omega), hsub]
      rfl
    omega
  · right
    have hneg : (m - css).toInt ≤ 0 := by
      have hsub : (m - css).toNat = 2 ^ 32 - (css.toNat - m.toNat) := by
        rw [BitVec.toNat_sub]
        omega
      rw [BitVec.toInt_eq_toNat_cond, if_neg (by omega), hsub]
      omega
    exact Int.toNat_eq_zero.mpr hneg

section Putsum

variable (b rest : Buffer) {n sloc css cse : U32} {k : Nat}

theorem putsum_sum_upTo (hn : n.toNat ≤ k) (hk : k ≤ 0x10000) (hcss : css.toNat ≤ 0x10000) :
    netChecksumAdd (b.upTo k rest) css.toNat
        ((if cse ≠ 0 ∧ cse < n then cse + 1 else n) - css).toInt.toNat =
      netChecksumAdd b css.toNat
        ((if cse ≠ 0 ∧ cse < n then cse + 1 else n) - css).toInt.toNat := by
  obtain ⟨-, hsum | hzero⟩ := putsum_extent cse (hn.trans hk) hcss
  · exact Buffer.netChecksumAdd_upTo b rest (hsum.trans hn)
  · rw [hzero]
    rfl

theorem putsum_upTo (hn : n.toNat ≤ k) (hk : k ≤ 0x10000) (hcss : css.toNat ≤ 0x10000)
    (hsloc : sloc.toNat + 2 ≤ k) :
    putsum (b.upTo k rest) n sloc css cse = (putsum b n sloc css cse).upTo k rest := by
  simp only [putsum, putsum_sum_upTo b rest hn hk hcss]
  generalize (if cse ≠ 0 ∧ cse < n then cse + 1 else n) = m
  split_ifs
  · exact Buffer.storeBe16_upTo b rest _ hsloc
  · rfl

/-- A frame without bytes gets its checksum behind the known bytes. -/
theorem exists_putsum_upTo (sloc cse : U32) (hn : n.toNat ≤ k) (hk : k ≤ 0x10000)
    (hcss : css.toNat ≤ 0x10000) :
    ∃ rest', putsum (b.upTo k rest) n sloc css cse = (putsum b n sloc css cse).upTo k rest' := by
  simp only [putsum, putsum_sum_upTo b rest hn hk hcss]
  generalize (if cse ≠ 0 ∧ cse < n then cse + 1 else n) = m
  split_ifs
  · exact ⟨_, Buffer.store_upTo_behind b _ k rest _⟩
  · exact ⟨rest, rfl⟩

end Putsum

/-! ## All buffers of `tx` -/

/-- How many bytes of each buffer are known. -/
structure Known where
  data : Nat
  header : Nat
  vlan : Nat
  vlanHeader : Nat

structure Leftovers where
  data : Buffer
  header : Buffer
  vlan : Buffer
  vlanHeader : Buffer

def E1000Tx.upTo (tp : E1000Tx) (K : Known) (o : Leftovers) : E1000Tx :=
  { tp with
    data := tp.data.upTo K.data o.data
    header := tp.header.upTo K.header o.header
    vlan := tp.vlan.upTo K.vlan o.vlan
    vlanHeader := tp.vlanHeader.upTo K.vlanHeader o.vlanHeader }

/-! ## Segment headers -/

/-- The fields that `xmit_seg` edits lie among the first `n` bytes. -/
structure HeadersWithin (tp : E1000Tx) (n : Nat) : Prop where
  network : tp.ipcss.toNat + 6 ≤ n
  transport : tp.tucss.toNat + (if tp.tcp then 14 else 6) ≤ n
  checksum : test tp.sumNeeded txdPoptsTxsm = true → tp.tucso.toNat + 2 ≤ n

section Edits

variable {tp : E1000Tx} {n : Nat} (b rest : Buffer)

theorem networkEdit_upTo (h : HeadersWithin tp n) :
    networkEdit tp (b.upTo n rest) = (networkEdit tp b).upTo n rest := by
  have hin := h.network
  simp only [networkEdit]
  split_ifs
  · rw [Buffer.storeBe16_upTo b rest _ (by omega), Buffer.loadBe16_upTo _ rest (by omega),
      Buffer.storeBe16_upTo _ rest _ (by omega)]
  · exact Buffer.storeBe16_upTo b rest _ (by omega)

theorem transportEdit_upTo (h : HeadersWithin tp n) :
    transportEdit tp (b.upTo n rest) = (transportEdit tp b).upTo n rest := by
  have hin := h.transport
  simp only [transportEdit]
  split_ifs at hin ⊢
  · rw [Buffer.loadBe32_upTo b rest (by omega), Buffer.storeBe32_upTo b rest _ (by omega),
      Buffer.upTo_apply _ rest (by omega)]
    exact Buffer.store_upTo _ rest hin
  · rw [Buffer.loadBe32_upTo b rest (by omega), Buffer.storeBe32_upTo b rest _ (by omega)]
  · exact Buffer.storeBe16_upTo b rest _ (by omega)

theorem pseudoEdit_upTo (h : HeadersWithin tp n) :
    pseudoEdit tp (b.upTo n rest) = (pseudoEdit tp b).upTo n rest := by
  simp only [pseudoEdit]
  split_ifs with hsum
  · rw [Buffer.loadBe16_upTo b rest (h.checksum hsum),
      Buffer.storeBe16_upTo b rest _ (h.checksum hsum)]
  · rfl

end Edits

/-! ## The steps of a frame -/

section Functions

variable {tp : E1000Tx} {K : Known} (o : Leftovers)

theorem segmentHeader_upTo (h : HeadersWithin tp K.data) :
    segmentHeader (tp.upTo K o) = (segmentHeader tp).upTo K o := by
  have hdata : pseudoEdit tp (transportEdit tp (networkEdit tp (tp.data.upTo K.data o.data))) =
      (pseudoEdit tp (transportEdit tp (networkEdit tp tp.data))).upTo K.data o.data := by
    rw [networkEdit_upTo _ _ h, transportEdit_upTo _ _ h, pseudoEdit_upTo _ _ h]
  rw [segmentHeader_edits, segmentHeader_edits]
  exact congrArg (fun data => { tp.upTo K o with
    data := data, tsoFrames := tp.tsoFrames + 1 }) hdata

/-- Behind the known bytes only the checksum of an empty frame is stored. -/
theorem checksumTx_upTo {sloc css : U8} {cse : U16} (hsize : tp.size.toNat ≤ K.data)
    (hK : K.data ≤ txDataBytes) :
    ∃ rest, checksumTx (tp.upTo K o) sloc css cse =
        (checksumTx tp sloc css cse).upTo K { o with data := rest } ∧
      (257 ≤ K.data → rest = o.data) := by
  have hn : (tp.size.setWidth 32 : U32).toNat ≤ K.data := by
    rwa [BitVec.toNat_setWidth_of_le (by decide)]
  have hcss : (css.setWidth 32 : U32).toNat ≤ 0x10000 := by
    have := css.isLt
    rw [BitVec.toNat_setWidth_of_le (by decide)]
    omega
  by_cases hroom : 257 ≤ K.data
  · refine ⟨o.data, ?_, fun _ => rfl⟩
    have hsloc : (sloc.setWidth 32 : U32).toNat + 2 ≤ K.data := by
      have := sloc.isLt
      rw [BitVec.toNat_setWidth_of_le (by decide)]
      omega
    exact congrArg (fun data => { tp.upTo K o with data := data })
      (putsum_upTo tp.data o.data hn hK hcss hsloc)
  · obtain ⟨rest, hput⟩ := exists_putsum_upTo tp.data o.data (sloc.setWidth 32)
      (cse.setWidth 32) hn hK hcss
    exact ⟨rest, congrArg (fun data => { tp.upTo K o with data := data }) hput,
      fun h => absurd h hroom⟩

/-- What a frame needs to know of the buffers. -/
structure FrameWithin (K : Known) (tp : E1000Tx) : Prop where
  data : tp.size.toNat ≤ K.data
  bound : K.data ≤ txDataBytes
  headers : (tp.tse && tp.cptse) = true → HeadersWithin tp K.data
  tag : tp.vlanNeeded = true → 12 ≤ K.data ∧ 4 ≤ K.vlanHeader

def segmented (tp : E1000Tx) : E1000Tx :=
  if tp.tse && tp.cptse then segmentHeader tp else tp

def transportSum (tp : E1000Tx) : E1000Tx :=
  if test tp.sumNeeded txdPoptsTxsm then checksumTx tp tp.tucso tp.tucss tp.tucse else tp

def networkSum (tp : E1000Tx) : E1000Tx :=
  if test tp.sumNeeded txdPoptsIxsm then checksumTx tp tp.ipcso tp.ipcss tp.ipcse else tp

theorem finishFrame_steps (tp : E1000Tx) :
    finishFrame tp = networkSum (transportSum (segmented tp)) := rfl

theorem size_segmented (tp : E1000Tx) : (segmented tp).size = tp.size := by
  simp only [segmented]
  split_ifs <;> rfl

theorem size_transportSum (tp : E1000Tx) : (transportSum tp).size = tp.size := by
  simp only [transportSum]
  split_ifs <;> rfl

theorem segmented_upTo (h : FrameWithin K tp) :
    segmented (tp.upTo K o) = (segmented tp).upTo K o := by
  cases htso : tp.tse && tp.cptse with
  | true =>
      have htso' : ((tp.upTo K o).tse && (tp.upTo K o).cptse) = true := htso
      rw [segmented, segmented, if_pos htso, if_pos htso',
        segmentHeader_upTo o (h.headers htso)]
  | false =>
      have htso' : ((tp.upTo K o).tse && (tp.upTo K o).cptse) = false := htso
      simp only [segmented, htso, htso', Bool.false_eq_true, if_false]

theorem sumIf_upTo (needed : Bool) {sloc css : U8} {cse : U16}
    (hsize : tp.size.toNat ≤ K.data) (hK : K.data ≤ txDataBytes) :
    ∃ rest, (if needed then checksumTx (tp.upTo K o) sloc css cse else tp.upTo K o) =
        (if needed then checksumTx tp sloc css cse else tp).upTo K { o with data := rest } ∧
      (257 ≤ K.data → rest = o.data) := by
  cases needed with
  | true => exact checksumTx_upTo o hsize hK
  | false => exact ⟨o.data, rfl, fun _ => rfl⟩

theorem transportSum_upTo (hsize : tp.size.toNat ≤ K.data) (hK : K.data ≤ txDataBytes) :
    ∃ rest, transportSum (tp.upTo K o) = (transportSum tp).upTo K { o with data := rest } ∧
      (257 ≤ K.data → rest = o.data) :=
  sumIf_upTo o (test tp.sumNeeded txdPoptsTxsm) hsize hK

theorem networkSum_upTo (hsize : tp.size.toNat ≤ K.data) (hK : K.data ≤ txDataBytes) :
    ∃ rest, networkSum (tp.upTo K o) = (networkSum tp).upTo K { o with data := rest } ∧
      (257 ≤ K.data → rest = o.data) :=
  sumIf_upTo o (test tp.sumNeeded txdPoptsIxsm) hsize hK

theorem finishFrame_upTo (h : FrameWithin K tp) :
    ∃ rest, finishFrame (tp.upTo K o) = (finishFrame tp).upTo K { o with data := rest } ∧
      (257 ≤ K.data → rest = o.data) := by
  have hsize : (segmented tp).size.toNat ≤ K.data := by
    rw [size_segmented]
    exact h.data
  have hsize' : (transportSum (segmented tp)).size.toNat ≤ K.data := by
    rw [size_transportSum]
    exact hsize
  obtain ⟨rest₁, hsum₁, hroom₁⟩ := transportSum_upTo o hsize h.bound
  obtain ⟨rest₂, hsum₂, hroom₂⟩ := networkSum_upTo { o with data := rest₁ } hsize' h.bound
  refine ⟨rest₂, ?_, fun hroom => (hroom₂ hroom).trans (hroom₁ hroom)⟩
  rw [finishFrame_steps, finishFrame_steps, segmented_upTo o h, hsum₁, hsum₂]

theorem insertVlan_upTo (hdata : 12 ≤ K.data) (htag : 4 ≤ K.vlanHeader) :
    insertVlan (tp.upTo K o) = (insertVlan tp).upTo { K with vlan := max K.vlan 4 } o := by
  simp only [insertVlan, E1000Tx.upTo]
  rw [Buffer.slice_upTo tp.data _ (by omega), Buffer.slice_upTo tp.data _ (by omega),
    Buffer.slice_upTo tp.vlanHeader _ (by omega),
    Buffer.store_upTo_grow tp.vlan _ _ (Nat.zero_le _), Buffer.length_slice,
    Buffer.store_upTo tp.data _ (by rw [Buffer.length_slice]; omega),
    Buffer.store_upTo _ _ (by rw [Buffer.length_slice]; omega)]

/-! ## The frame of a segment -/

def Known.tagged (K : Known) (tp : E1000Tx) : Known :=
  if tp.vlanNeeded then { K with vlan := max K.vlan 4 } else K

theorem size_finishFrame (tp : E1000Tx) : (finishFrame tp).size = tp.size := by
  obtain ⟨vlan, data, frames, h⟩ := finishFrame_edited tp
  rw [h]

theorem vlanNeeded_finishFrame (tp : E1000Tx) :
    (finishFrame tp).vlanNeeded = tp.vlanNeeded := by
  obtain ⟨vlan, data, frames, h⟩ := finishFrame_edited tp
  rw [h]

theorem size_frameTx (tp : E1000Tx) : (frameTx tp).size = tp.size := by
  rw [← size_finishFrame tp, frameTx]
  split_ifs <;> rfl

theorem vlanNeeded_frameTx (tp : E1000Tx) : (frameTx tp).vlanNeeded = tp.vlanNeeded := by
  rw [← vlanNeeded_finishFrame tp, frameTx]
  split_ifs <;> rfl

theorem frameTx_upTo (h : FrameWithin K tp) :
    ∃ rest, frameTx (tp.upTo K o) =
        (frameTx tp).upTo (K.tagged tp) { o with data := rest } ∧
      (257 ≤ K.data → rest = o.data) := by
  obtain ⟨rest, hfinish, hroom⟩ := finishFrame_upTo o h
  refine ⟨rest, ?_, hroom⟩
  have hneeded := vlanNeeded_finishFrame tp
  have hneeded' : ((finishFrame tp).upTo K { o with data := rest }).vlanNeeded =
      tp.vlanNeeded := hneeded
  cases htag : tp.vlanNeeded with
  | true =>
      simp only [frameTx, hfinish, hneeded, hneeded', htag, if_true, Known.tagged]
      exact insertVlan_upTo _ (h.tag htag).1 (h.tag htag).2
  | false =>
      simp only [frameTx, hfinish, hneeded, hneeded', htag, Bool.false_eq_true, if_false,
        Known.tagged]

theorem frameSent_upTo (h : FrameWithin K tp) : frameSent (tp.upTo K o) = frameSent tp := by
  obtain ⟨rest, hframe, -⟩ := frameTx_upTo o h
  have hsize : (frameTx tp).size.toNat ≤ K.data := by
    rw [size_frameTx]
    exact h.data
  have hneeded := vlanNeeded_frameTx tp
  have hneeded' : ((frameTx tp).upTo (K.tagged tp) { o with data := rest }).vlanNeeded =
      tp.vlanNeeded := hneeded
  have hdata : (K.tagged tp).data = K.data := by
    rw [Known.tagged]
    split_ifs <;> rfl
  simp only [frameSent, hframe, hneeded, hneeded']
  cases htag : tp.vlanNeeded with
  | true =>
      have hvlan : 0 + 4 ≤ (K.tagged tp).vlan := by
        rw [Known.tagged, if_pos htag]
        exact Nat.le_max_right _ _
      simp only [if_true, E1000Tx.upTo]
      rw [Buffer.slice_upTo _ _ hvlan, Buffer.slice_upTo _ _ (by rw [hdata]; omega)]
  | false =>
      simp only [Bool.false_eq_true, if_false, E1000Tx.upTo]
      exact Buffer.slice_upTo _ _ (by rw [hdata]; omega)

/-- The buffer comes back as long as it was handed over. -/
theorem takeBack_upTo {bytes : List U8}
    (hlen : bytes.length ≤ K.data + (if tp.vlanNeeded then 4 else 0))
    (hvlan : tp.vlanNeeded = true → 4 ≤ K.vlan) :
    takeBack (tp.upTo K o) bytes = (takeBack tp bytes).upTo K o := by
  cases htag : tp.vlanNeeded with
  | true =>
      rw [htag] at hlen
      simp only [takeBack, htag, if_true, E1000Tx.upTo]
      rw [Buffer.store_upTo tp.vlan _ (by
          have := hvlan htag
          rw [List.length_take]
          omega),
        Buffer.store_upTo tp.data _ (by
          rw [List.length_drop]
          simp only [if_true] at hlen
          omega)]
  | false =>
      rw [htag] at hlen
      simp only [takeBack, htag, Bool.false_eq_true, if_false, E1000Tx.upTo]
      rw [Buffer.store_upTo tp.data _ (by
        simp only [Bool.false_eq_true, if_false] at hlen
        omega)]

/-! ## Assembling a packet -/

def plainChunk (tp : E1000Tx) (chunk : List U8) : E1000Tx :=
  { tp with
    data := tp.data.store tp.size.toNat chunk
    size := tp.size + BitVec.ofNat 16 chunk.length }

def plainBytes (tp : E1000Tx) (dp : TxDesc) : Nat :=
  min (txDataBytes - tp.size.toNat) (dp.lower &&& 0xffff#32).toNat

theorem plainBytes_le (tp : E1000Tx) (dp : TxDesc) :
    tp.size.toNat + plainBytes tp dp ≤ txDataBytes := by
  have hsize := tp.size.isLt
  simp only [plainBytes, txDataBytes]
  omega

theorem fetchData_eq (fuel : Nat) (w : World) (dp : TxDesc) :
    fetchData fuel w dp =
      if w.dev.tx.tse && w.dev.tx.cptse then
        loop (tsoBody (tsoMsh w.dev.tx) fuel) fuel ⟨w, dp.lower &&& 0xffff#32, dp.bufferAddr⟩
      else if w.dev.tx.cptse then .ok w
      else .ok ((w.emit (.dmaRead .txData dp.bufferAddr (plainBytes w.dev.tx dp))).setTx
        (plainChunk w.dev.tx (w.mem.read dp.bufferAddr (plainBytes w.dev.tx dp)))) := by
  simp only [plainChunk, Memory.length_read]
  rfl

theorem toNat_tsoBytes_le (tp : E1000Tx) (msh splitSize : U32) :
    tp.size.toNat + (tsoBytes tp msh splitSize).toNat ≤ txDataBytes := by
  have hsize := tp.size.isLt
  simp only [tsoBytes, BitVec.toNat_ofNat]
  refine Nat.le_trans (Nat.add_le_add_left (Nat.mod_le _ _) _) ?_
  simp only [txDataBytes]
  omega

def Known.append (K : Known) (tp : E1000Tx) (n : Nat) : Known :=
  { K with data := max K.data (tp.size.toNat + n) }

def Known.appendTso (K : Known) (tp : E1000Tx) (n : Nat) : Known :=
  if tp.size.toNat + n ≥ tp.hdrLen.toNat ∧ tp.size.toNat < tp.hdrLen.toNat then
    { K.append tp n with header := max K.header tp.hdrLen.toNat }
  else K.append tp n

theorem plainChunk_upTo (chunk : List U8) (hsize : tp.size.toNat ≤ K.data) :
    plainChunk (tp.upTo K o) chunk = (plainChunk tp chunk).upTo (K.append tp chunk.length) o := by
  simp only [plainChunk, E1000Tx.upTo, Known.append,
    Buffer.store_upTo_grow tp.data o.data chunk hsize]

theorem appendChunk_upTo (chunk : List U8) (hsize : tp.size.toNat ≤ K.data) :
    appendChunk (tp.upTo K o) chunk =
      (appendChunk tp chunk).upTo (K.appendTso tp chunk.length) o := by
  simp only [appendChunk, E1000Tx.upTo, Known.appendTso, Known.append,
    Buffer.store_upTo_grow tp.data o.data chunk hsize]
  split_ifs with hcross
  · simp only
    rw [Buffer.slice_upTo _ _ (by omega), Buffer.store_upTo_grow tp.header _ _ (Nat.zero_le _),
      Buffer.length_slice, Nat.zero_add]
  · rfl

theorem restoreHeader_upTo (hheader : tp.hdrLen.toNat ≤ K.header) :
    restoreHeader (tp.upTo K o) =
      (restoreHeader tp).upTo { K with data := max K.data tp.hdrLen.toNat } o := by
  simp only [restoreHeader, E1000Tx.upTo]
  rw [Buffer.slice_upTo tp.header _ (by omega),
    Buffer.store_upTo_grow tp.data _ _ (Nat.zero_le _), Buffer.length_slice, Nat.zero_add]

def Known.tagHeader (K : Known) (s : E1000State) (tp : E1000Tx) (dp : TxDesc) : Known :=
  if vlanEnabled s && isVlanTxd dp && (tp.cptse || txdEop dp) then
    { K with vlanHeader := max K.vlanHeader 4 }
  else K

theorem tagTx_upTo (s : E1000State) (dp : TxDesc) :
    tagTx s (tp.upTo K o) dp = (tagTx s tp dp).upTo (K.tagHeader s tp dp) o := by
  have htag : ∀ (x y : U16),
      ((tp.vlanHeader.upTo K.vlanHeader o.vlanHeader).storeBe16 0 x).storeBe16 2 y =
        ((tp.vlanHeader.storeBe16 0 x).storeBe16 2 y).upTo (max K.vlanHeader 4) o.vlanHeader := by
    intro x y
    simp only [Buffer.storeBe16]
    rw [Buffer.store_upTo_grow _ _ _ (Nat.zero_le _), length_toBe,
      Buffer.store_upTo_grow _ _ _ (by omega), length_toBe,
      show max (max K.vlanHeader (0 + 2)) (2 + 2) = max K.vlanHeader 4 by omega]
  cases hcond : vlanEnabled s && isVlanTxd dp && (tp.cptse || txdEop dp) with
  | true => simp only [tagTx, E1000Tx.upTo, hcond, if_true, Known.tagHeader, htag]
  | false =>
      simp only [tagTx, E1000Tx.upTo, hcond, Bool.false_eq_true, if_false, Known.tagHeader]

theorem beginData_upTo (dp : TxDesc) (dataDesc : Bool) :
    beginData (tp.upTo K o) dp dataDesc = (beginData tp dp dataDesc).upTo K o := by
  cases dataDesc <;> rfl

end Functions

/-! ## Segments of a disguised device -/

/-- A disguise of the device around `tx`. -/
structure AroundTx (r : E1000State → E1000State) : Prop where
  disguise : Disguise r
  setTx : ∀ s tp, r { s with tx := tp } = { r s with tx := tp }

def veil (r : E1000State → E1000State) (K : Known) (o : Leftovers) (s : E1000State) :
    E1000State :=
  { r s with tx := s.tx.upTo K o }

section Veil

variable {r : E1000State → E1000State} {K : Known} {o : Leftovers}

theorem disguise_veil (hr : AroundTx r) (K : Known) (o : Leftovers) : Disguise (veil r K o) where
  macReg := hr.disguise.macReg
  linkDown := hr.disguise.linkDown
  phyCtrl := hr.disguise.phyCtrl
  mitTimerOn := hr.disguise.mitTimerOn
  mitIrqLevel := hr.disguise.mitIrqLevel
  mitIde := hr.disguise.mitIde
  compatFlags := hr.disguise.compatFlags
  rxbufSize := hr.disguise.rxbufSize
  rxbufMinShift := hr.disguise.rxbufMinShift
  setReg := fun s i v hi => by simp only [veil, hr.disguise.setReg s i v hi]
  setMitTimerOn := fun s b => congrArg (fun d : E1000State => { d with tx := s.tx.upTo K o })
    (hr.disguise.setMitTimerOn s b)
  setMitIrqLevel := fun s b => congrArg (fun d : E1000State => { d with tx := s.tx.upTo K o })
    (hr.disguise.setMitIrqLevel s b)
  setMitIde := fun s v => congrArg (fun d : E1000State => { d with tx := s.tx.upTo K o })
    (hr.disguise.setMitIde s v)

theorem setTx_veil (hr : AroundTx r) (K' : Known) (o' : Leftovers) (w : World) (tp : E1000Tx) :
    (w.over (veil r K o)).setTx (tp.upTo K' o') = (w.setTx tp).over (veil r K' o') := by
  refine congrArg (World.mk · w.mem w.log) ?_
  exact congrArg (fun d : E1000State => { d with tx := tp.upTo K' o' }) (hr.setTx w.dev tp).symm

theorem length_e1000SendPacket {fuel : Nat} {w w' : World} {frame bytes : List U8}
    (h : e1000SendPacket fuel w frame = .ok (w', bytes)) : bytes.length = frame.length := by
  simp only [e1000SendPacket] at h
  split_ifs at h
  · obtain ⟨r, hr, h⟩ := Run.bind_eq_ok.mp h
    cases h
    have hlengths : r.callerIov.map List.length = [frame].map List.length := by
      have hcaller := e1000ReceiveIov_callerIov hr
      split_ifs at hcaller
      · exact hcaller.lengths
      · rw [hcaller]
    cases hiov : r.callerIov with
    | nil =>
        rw [hiov] at hlengths
        cases hlengths
    | cons first rest =>
        rw [hiov] at hlengths
        exact (List.cons.inj hlengths).1
  · cases h
    rfl

theorem length_frameSent (tp : E1000Tx) :
    (frameSent tp).length = tp.size.toNat + (if tp.vlanNeeded then 4 else 0) := by
  simp only [frameSent, vlanNeeded_frameTx, size_frameTx]
  split_ifs
  · rw [List.length_append, Buffer.length_slice, Buffer.length_slice, Nat.add_comm]
  · exact Buffer.length_slice _ _ _

/-- A segment is sent from the known bytes alone. -/
theorem xmitSeg_veil (hr : AroundTx r) {w : World} (h : FrameWithin K w.dev.tx) (fuel : Nat) :
    ∃ rest, (257 ≤ K.data → rest = o.data) ∧
      Run.Rel (fun u u' => u' = u.over (veil r (K.tagged w.dev.tx) { o with data := rest }))
        (xmitSeg fuel w) (xmitSeg fuel (w.over (veil r K o))) := by
  obtain ⟨rest, hframe, hroom⟩ := frameTx_upTo o h
  refine ⟨rest, hroom, ?_⟩
  have htx : (w.over (veil r K o)).dev.tx = w.dev.tx.upTo K o := rfl
  rw [xmitSeg_eq, xmitSeg_eq, htx, hframe, frameSent_upTo o h, setTx_veil hr]
  have hveil := disguise_veil hr (K.tagged w.dev.tx) { o with data := rest }
  refine (hveil.e1000SendPacket fuel _).bind_of_ok ?_
  rintro ⟨u, bytes⟩ - hsend rfl
  have hkeep : u.dev.tx = frameTx w.dev.tx := (e1000SendPacket_frame hsend).2
  have hlen := length_e1000SendPacket hsend
  have hneeded : u.dev.tx.vlanNeeded = w.dev.tx.vlanNeeded := by
    rw [hkeep, vlanNeeded_frameTx]
  have hback : takeBack (u.dev.tx.upTo (K.tagged w.dev.tx) { o with data := rest }) bytes =
      (takeBack u.dev.tx bytes).upTo (K.tagged w.dev.tx) { o with data := rest } := by
    refine takeBack_upTo _ ?_ fun htag => ?_
    · rw [hlen, length_frameSent, hneeded, Known.tagged]
      have hsize := h.data
      split_ifs <;> exact Nat.add_le_add_right hsize _
    · rw [hneeded] at htag
      rw [Known.tagged, if_pos htag]
      exact Nat.le_max_right _ _
  refine .ok ?_
  have hsent : ((u.over (veil r (K.tagged w.dev.tx) { o with data := rest })).setTx
      (takeBack (u.dev.tx.upTo (K.tagged w.dev.tx) { o with data := rest }) bytes)) =
      (u.setTx (takeBack u.dev.tx bytes)).over
        (veil r (K.tagged w.dev.tx) { o with data := rest }) := by
    rw [hback, setTx_veil hr]
  exact (congrArg countFrame hsent).trans (hveil.countFrame rfl)

/-! ## The start of a descriptor -/

def beganTx (w : World) (dp : TxDesc) : E1000Tx :=
  beginData w.dev.tx dp (descType dp = txdCmdDext ||| txdDtypD)

theorem noteIde_veil (hr : AroundTx r) (w : World) (dp : TxDesc) :
    noteIde (w.over (veil r K o)) dp = (noteIde w dp).over (veil r K o) := by
  have hveil := disguise_veil hr K o
  have hide : (w.over (veil r K o)).dev.mitIde = w.dev.mitIde := hveil.mitIde w.dev
  rw [noteIde, hide]
  exact congrArg (World.mk · w.mem w.log) (hveil.setMitIde w.dev _).symm

theorem beginDesc_veil (hr : AroundTx r) (w : World) (dp : TxDesc) :
    beginDesc (w.over (veil r K o)) dp =
      (beginDesc w dp).over (veil r (K.tagHeader w.dev (beganTx w dp) dp) o) := by
  have hveil := disguise_veil hr K o
  have hregs : ∀ tp : E1000Tx, tagTx (veil r K o (noteIde w dp).dev) tp dp = tagTx w.dev tp dp := by
    intro tp
    simp only [tagTx, hveil.vlanEnabled, hveil.macReg _ Reg.vet (by decide)]
    rfl
  have htx : tagTx (veil r K o (noteIde w dp).dev)
      (beginData (w.dev.tx.upTo K o) dp (descType dp = txdCmdDext ||| txdDtypD)) dp =
      (tagTx w.dev (beganTx w dp) dp).upTo (K.tagHeader w.dev (beganTx w dp) dp) o := by
    rw [hregs, beginData_upTo, beganTx, tagTx_upTo]
  calc beginDesc (w.over (veil r K o)) dp
      = (noteIde (w.over (veil r K o)) dp).setTx (tagTx (noteIde (w.over (veil r K o)) dp).dev
          (beginData (w.dev.tx.upTo K o) dp (descType dp = txdCmdDext ||| txdDtypD)) dp) := rfl
    _ = ((noteIde w dp).over (veil r K o)).setTx ((tagTx w.dev (beganTx w dp) dp).upTo
          (K.tagHeader w.dev (beganTx w dp) dp) o) := by
        rw [noteIde_veil hr]
        exact congrArg (World.setTx _) htx
    _ = (beginDesc w dp).over (veil r (K.tagHeader w.dev (beganTx w dp) dp) o) :=
        setTx_veil hr _ o (noteIde w dp) _

end Veil

end SE4VM.E1000
