import SE4VM.E1000.TsoPacket

/-!
# The headers of segments

For every segment `xmit_seg` edits the copy of the header in front of it: the
length and the identification of the IP header, the sequence number and the flags
of the TCP header, and the checksums.
-/

namespace SE4VM.E1000

open SE4VM.Foundation

/-! ## Fields of a buffer -/

namespace Buffer

variable (b : Buffer)

theorem slice_slice {off n k : Nat} (h : off + n ≤ k) :
    ((b.slice 0 k).drop off).take n = b.slice off n := by
  rw [drop_slice _ _ (by omega), Nat.zero_add, take_slice _ _ (by omega)]

theorem getD_slice {i n : Nat} (h : i < n) (d : U8) : (b.slice 0 n).getD i d = b i := by
  have hlen : i < (b.slice 0 n).length := by rwa [length_slice]
  rw [List.getD_eq_getElem?_getD, List.getElem?_eq_getElem hlen, getElem_slice, Nat.zero_add,
    Option.getD_some]

theorem apply_eq_of_slice {b b' : Buffer} {i : Nat} (h : b.slice i 1 = b'.slice i 1) :
    b i = b' i := by
  simpa [slice] using h

theorem slice_storeBe16_self (i : Nat) (v : U16) :
    (b.storeBe16 i v).slice i 2 = toBe 2 v.toNat :=
  slice_store_self _ _ (length_toBe 2 _)

theorem slice_storeBe32_self (i : Nat) (v : U32) :
    (b.storeBe32 i v).slice i 4 = toBe 4 v.toNat :=
  slice_store_self _ _ (length_toBe 4 _)

theorem slice_storeBe16_of_disjoint {start n i : Nat} (v : U16)
    (h : start + n ≤ i ∨ i + 2 ≤ start) :
    (b.storeBe16 i v).slice start n = b.slice start n :=
  slice_store_of_disjoint _ (by rwa [length_toBe])

theorem slice_storeBe32_of_disjoint {start n i : Nat} (v : U32)
    (h : start + n ≤ i ∨ i + 4 ≤ start) :
    (b.storeBe32 i v).slice start n = b.slice start n :=
  slice_store_of_disjoint _ (by rwa [length_toBe])

theorem ofBe_slice_storeBe16 (i : Nat) (v : U16) :
    ofBe ((b.storeBe16 i v).slice i 2) = v.toNat := by
  rw [slice_storeBe16_self, ofBe_toBe]
  exact Nat.mod_eq_of_lt v.isLt

theorem ofBe_slice_storeBe32 (i : Nat) (v : U32) :
    ofBe ((b.storeBe32 i v).slice i 4) = v.toNat := by
  rw [slice_storeBe32_self, ofBe_toBe]
  exact Nat.mod_eq_of_lt v.isLt

end Buffer

/-! ## The edits of one segment -/

theorem toNat_segmentSofar (tp : E1000Tx) :
    (segmentSofar tp).toNat = tp.tsoFrames.toNat * tp.mss.toNat := by
  have hframes := tp.tsoFrames.isLt
  have hmss := tp.mss.isLt
  have hle : tp.tsoFrames.toNat * tp.mss.toNat ≤ 65535 * 65535 :=
    Nat.mul_le_mul (by omega) (by omega)
  rw [segmentSofar, BitVec.toNat_mul, BitVec.toNat_setWidth_of_le (by decide),
    BitVec.toNat_setWidth_of_le (by decide), Nat.mod_eq_of_lt (by omega)]

/-- Start and length of what the two headers' edits write. -/
def networkFields (tp : E1000Tx) : List (Nat × Nat) :=
  if tp.ip then [(tp.ipcss.toNat + 2, 4)] else [(tp.ipcss.toNat + 4, 2)]

def transportFields (tp : E1000Tx) : List (Nat × Nat) :=
  if tp.tcp then [(tp.tucss.toNat + 4, 4), (tp.tucss.toNat + 13, 1)]
  else [(tp.tucss.toNat + 4, 2)]

section Edits

variable {tp : E1000Tx} {a n : Nat}

theorem checksumTx_slice (sum : Bool) (tp : E1000Tx) (sloc css : U8) (cse : U16)
    (h : a + n ≤ sloc.toNat ∨ sloc.toNat + 2 ≤ a) :
    (if sum then checksumTx tp sloc css cse else tp).data.slice a n = tp.data.slice a n := by
  have hsloc : (sloc.setWidth 32).toNat = sloc.toNat := BitVec.toNat_setWidth_of_le (by decide)
  cases sum with
  | false => rfl
  | true =>
      simp only [if_true, checksumTx, putsum]
      split_ifs
      · exact Buffer.slice_storeBe16_of_disjoint _ _ (by rwa [hsloc])
      · rfl
      · exact Buffer.slice_storeBe16_of_disjoint _ _ (by rwa [hsloc])
      · rfl

theorem checksumTx_ipcso (sum : Bool) (tp : E1000Tx) (sloc css : U8) (cse : U16) :
    (if sum then checksumTx tp sloc css cse else tp).ipcso = tp.ipcso := by
  cases sum <;> rfl

theorem networkEdit_slice (b : Buffer)
    (h : ∀ f ∈ networkFields tp, a + n ≤ f.1 ∨ f.1 + f.2 ≤ a) :
    (networkEdit tp b).slice a n = b.slice a n := by
  simp only [networkFields, networkEdit] at h ⊢
  split_ifs at h ⊢
  · have hfield := h _ (List.mem_singleton_self _)
    rw [Buffer.slice_storeBe16_of_disjoint _ _ (by omega),
      Buffer.slice_storeBe16_of_disjoint _ _ (by omega)]
  · exact Buffer.slice_storeBe16_of_disjoint _ _ (h _ (List.mem_singleton_self _))

theorem transportEdit_slice (b : Buffer)
    (h : ∀ f ∈ transportFields tp, a + n ≤ f.1 ∨ f.1 + f.2 ≤ a) :
    (transportEdit tp b).slice a n = b.slice a n := by
  simp only [transportFields, transportEdit] at h ⊢
  split_ifs at h ⊢
  · simp only [List.forall_mem_cons] at h
    rw [Buffer.slice_store_of_disjoint _ h.2.1, Buffer.slice_storeBe32_of_disjoint _ _ h.1]
  · simp only [List.forall_mem_cons] at h
    exact Buffer.slice_storeBe32_of_disjoint _ _ h.1
  · exact Buffer.slice_storeBe16_of_disjoint _ _ (h _ (List.mem_singleton_self _))

theorem segmentHeader_slice (h : a + n ≤ tp.tucso.toNat ∨ tp.tucso.toNat + 2 ≤ a) :
    (segmentHeader tp).data.slice a n = (segmentEdits tp).slice a n := by
  rw [segmentHeader_edits]
  simp only [pseudoEdit]
  split_ifs
  · exact Buffer.slice_storeBe16_of_disjoint _ _ h
  · rfl

theorem finishFrame_slice (htso : (tp.tse && tp.cptse) = true)
    (htu : a + n ≤ tp.tucso.toNat ∨ tp.tucso.toNat + 2 ≤ a)
    (hipc : a + n ≤ tp.ipcso.toNat ∨ tp.ipcso.toNat + 2 ≤ a) :
    (finishFrame tp).data.slice a n = (segmentEdits tp).slice a n := by
  rw [← segmentHeader_slice htu, finishFrame, if_pos htso]
  rw [checksumTx_slice, checksumTx_slice]
  · exact htu
  · rw [checksumTx_ipcso]
    exact hipc

end Edits

/-! ## The fields -/

/-- Start and length of what `xmit_seg` edits in a header. -/
def headerFields (c : TsoContext) : List (Nat × Nat) :=
  [(c.ipcss.toNat + 2, 2), (c.ipcss.toNat + 4, 2), (c.tucss.toNat + 4, 4),
    (c.tucss.toNat + 13, 1), (c.tucso.toNat, 2), (c.ipcso.toNat, 2)]

structure HeaderLayout (c : TsoContext) : Prop where
  inside : ∀ f ∈ headerFields c, f.1 + f.2 ≤ c.h
  disjoint : (headerFields c).Pairwise fun f g => f.1 + f.2 ≤ g.1 ∨ g.1 + g.2 ≤ f.1

section Fields

variable {tp : E1000Tx}

theorem HeaderLayout.bounds (h : HeaderLayout tp.context) :
    tp.ipcss.toNat + 6 ≤ tp.context.h ∧ tp.tucss.toNat + 14 ≤ tp.context.h := by
  have hin := h.inside
  simp only [headerFields, List.forall_mem_cons] at hin
  exact ⟨hin.2.1, hin.2.2.2.1⟩

/-- The fields of the IP header do not meet those of the TCP header. -/
theorem HeaderLayout.apart (h : HeaderLayout tp.context) :
    (tp.ipcss.toNat + 6 ≤ tp.tucss.toNat + 4 ∨ tp.tucss.toNat + 8 ≤ tp.ipcss.toNat + 2) ∧
      (tp.ipcss.toNat + 6 ≤ tp.tucss.toNat + 13 ∨ tp.tucss.toNat + 14 ≤ tp.ipcss.toNat + 2) := by
  have hdis := h.disjoint
  simp only [headerFields, List.pairwise_cons, List.forall_mem_cons, E1000Tx.context] at hdis
  omega

theorem HeaderLayout.checksums (h : HeaderLayout tp.context) {f : Nat × Nat}
    (hf : f ∈ (headerFields tp.context).take 4) :
    (f.1 + f.2 ≤ tp.tucso.toNat ∨ tp.tucso.toNat + 2 ≤ f.1) ∧
      (f.1 + f.2 ≤ tp.ipcso.toNat ∨ tp.ipcso.toNat + 2 ≤ f.1) := by
  have hdis := h.disjoint
  rw [← List.take_append_drop 4 (headerFields tp.context), List.pairwise_append] at hdis
  exact ⟨hdis.2.2 f hf (tp.tucso.toNat, 2) (by simp [headerFields, E1000Tx.context]),
    hdis.2.2 f hf (tp.ipcso.toNat, 2) (by simp [headerFields, E1000Tx.context])⟩

theorem segmentEdits_network (h : HeaderLayout tp.context) (htcp : tp.tcp = true) {a n : Nat}
    (ha : tp.ipcss.toNat + 2 ≤ a) (hn : a + n ≤ tp.ipcss.toNat + 6) :
    (segmentEdits tp).slice a n = (networkEdit tp tp.data).slice a n := by
  have hapart := h.apart
  refine transportEdit_slice _ ?_
  simp only [transportFields, htcp, if_true, List.forall_mem_cons]
  exact ⟨by omega, by omega, fun _ hf => absurd hf List.not_mem_nil⟩

theorem networkEdit_transport (h : HeaderLayout tp.context) (hip : tp.ip = true) {a n : Nat}
    (hfield : (tp.tucss.toNat + 4 ≤ a ∧ a + n ≤ tp.tucss.toNat + 8) ∨
      (tp.tucss.toNat + 13 ≤ a ∧ a + n ≤ tp.tucss.toNat + 14)) :
    (networkEdit tp tp.data).slice a n = tp.data.slice a n := by
  have hapart := h.apart
  refine networkEdit_slice _ ?_
  simp only [networkFields, hip, if_true, List.forall_mem_singleton]
  omega

section Layout

variable (h : HeaderLayout tp.context) (hip : tp.ip = true) (htcp : tp.tcp = true)
include h hip htcp

theorem segmentEdits_seq :
    ofBe ((segmentEdits tp).slice (tp.tucss.toNat + 4) 4) =
      (ofBe (tp.data.slice (tp.tucss.toNat + 4) 4) + tp.tsoFrames.toNat * tp.mss.toNat) %
        2 ^ 32 := by
  have hkeep := networkEdit_transport h hip (a := tp.tucss.toNat + 4) (n := 4) (.inl (by omega))
  have hseq : (segmentEdits tp).slice (tp.tucss.toNat + 4) 4 =
      ((networkEdit tp tp.data).storeBe32 (tp.tucss.toNat + 4)
        ((networkEdit tp tp.data).loadBe32 (tp.tucss.toNat + 4) + segmentSofar tp)).slice
          (tp.tucss.toNat + 4) 4 := by
    simp only [segmentEdits, transportEdit, htcp, if_true]
    split_ifs
    · exact Buffer.slice_store_of_disjoint _ (.inl (by omega))
    · rfl
  rw [hseq, Buffer.ofBe_slice_storeBe32, Buffer.loadBe32, hkeep, BitVec.toNat_add,
    toNat_segmentSofar, BitVec.toNat_ofNat, Nat.mod_add_mod]

theorem segmentEdits_ident :
    ofBe ((segmentEdits tp).slice (tp.ipcss.toNat + 4) 2) =
      (ofBe (tp.data.slice (tp.ipcss.toNat + 4) 2) + tp.tsoFrames.toNat) % 2 ^ 16 := by
  rw [segmentEdits_network h htcp (by omega) (by omega)]
  simp only [networkEdit, hip, if_true]
  rw [Buffer.ofBe_slice_storeBe16, Buffer.loadBe16,
    Buffer.slice_storeBe16_of_disjoint _ _ (by omega)]
  simp only [BitVec.toNat_add, BitVec.toNat_ofNat, BitVec.toNat_setWidth]
  omega

theorem segmentEdits_total :
    ofBe ((segmentEdits tp).slice (tp.ipcss.toNat + 2) 2) =
      (tp.size - tp.ipcss.setWidth 16).toNat := by
  rw [segmentEdits_network h htcp (by omega) (by omega)]
  simp only [networkEdit, hip, if_true]
  rw [Buffer.slice_storeBe16_of_disjoint _ _ (by omega), Buffer.ofBe_slice_storeBe16]

theorem segmentEdits_flags :
    segmentEdits tp (tp.tucss.toNat + 13) =
      if tp.paylen - segmentSofar tp > tp.mss.setWidth 32 then
        tp.data (tp.tucss.toNat + 13) &&& ~~~9#8
      else tp.data (tp.tucss.toNat + 13) := by
  have hkeep : ∀ v : U32, ((networkEdit tp tp.data).storeBe32 (tp.tucss.toNat + 4) v)
      (tp.tucss.toNat + 13) = tp.data (tp.tucss.toNat + 13) := fun v =>
    Buffer.apply_eq_of_slice ((Buffer.slice_storeBe32_of_disjoint _ v (by omega)).trans
      (networkEdit_transport h hip (.inr (by omega))))
  simp only [segmentEdits, transportEdit, htcp, if_true, hkeep]
  split_ifs
  · simp [Buffer.store]
  · exact hkeep _

end Layout

end Fields

/-! ## The header of a call -/

/-- The number in `n` bytes of a frame, in network order. -/
def field (bs : List U8) (off n : Nat) : Nat := ofBe ((bs.drop off).take n)

/-- What the header of frame `k` says, for a packet with `P` bytes of payload. -/
structure HeaderAt (c : TsoContext) (P : Nat) (bytes frame : List U8) (k : Nat) : Prop where
  seq : field frame (c.tucss.toNat + 4) 4 =
    (field bytes (c.tucss.toNat + 4) 4 + k * c.m) % 2 ^ 32
  ident : field frame (c.ipcss.toNat + 4) 2 =
    (field bytes (c.ipcss.toNat + 4) 2 + k) % 2 ^ 16
  total : field frame (c.ipcss.toNat + 2) 2 = frame.length - c.ipcss.toNat
  flags : frame.getD (c.tucss.toNat + 13) 0 =
    if (k + 1) * c.m < P then bytes.getD (c.tucss.toNat + 13) 0 &&& ~~~9#8
    else bytes.getD (c.tucss.toNat + 13) 0

section Call

variable {c : TsoContext} {plain : Prop} {bytes : List U8} {k : Nat} {tp : E1000Tx}

theorem frameSent_plain (h : tp.vlanNeeded = false) :
    frameSent tp = (finishFrame tp).data.slice 0 tp.size.toNat := by
  obtain ⟨vlan, data, frames, hedit⟩ := finishFrame_edited tp
  have hplain : (finishFrame tp).vlanNeeded = false := by rw [hedit]; exact h
  have hsize : (finishFrame tp).size = tp.size := by rw [hedit]
  simp only [frameSent, frameTx, hplain, hsize, Bool.false_eq_true, if_false]

theorem TsoCall.size (hcall : TsoCall c plain bytes k tp) (hh : c.h ≤ bytes.length) :
    c.h ≤ tp.size.toNat := by
  have hlen := congrArg List.length hcall.data
  rw [Buffer.length_slice, Segment.segment, List.length_append, List.length_take_of_le hh] at hlen
  omega

theorem TsoCall.slice_data (hcall : TsoCall c plain bytes k tp) (hh : c.h ≤ bytes.length)
    {off n : Nat} (hle : off + n ≤ c.h) :
    tp.data.slice off n = (bytes.drop off).take n := by
  have hsize := hcall.size hh
  have hhead : tp.data.slice 0 c.h = bytes.take c.h := by
    rw [← Buffer.take_slice _ _ hsize, hcall.data, Segment.segment,
      List.take_left' (List.length_take_of_le hh)]
  rw [← Buffer.slice_slice _ hle, hhead, List.drop_take, List.take_take,
    Nat.min_eq_left (by omega)]

theorem TsoCall.getD_bytes (hcall : TsoCall c plain bytes k tp) (hh : c.h ≤ bytes.length)
    {i : Nat} (hi : i < c.h) : tp.data i = bytes.getD i 0 := by
  have hhead := hcall.slice_data hh (Nat.zero_add c.h).le
  rw [← Buffer.getD_slice tp.data hi 0, hhead, List.drop_zero, List.getD_eq_getElem?_getD,
    List.getElem?_take_of_lt hi, List.getD_eq_getElem?_getD]

variable (hcall : TsoCall c True bytes k tp) (hlayout : HeaderLayout c) (hfit : c.Fits)
  (hip : c.ip = true) (htcp : c.tcp = true) (hh : c.h ≤ bytes.length)

include hcall hlayout hfit hip htcp hh

theorem TsoCall.slice_frameSent {off n : Nat} (hf : (off, n) ∈ (headerFields c).take 4) :
    ((frameSent tp).drop off).take n = (segmentEdits tp).slice off n := by
  have hsize := hcall.size hh
  have hin := hlayout.inside _ (List.mem_of_mem_take hf)
  have htse : tp.tse = true := (congrArg TsoContext.tse hcall.context).trans hfit.tse
  have hctx := hcall.context
  subst hctx
  obtain ⟨htu, hipc⟩ := hlayout.checksums hf
  rw [frameSent_plain (hcall.untagged trivial), Buffer.slice_slice _ (by omega),
    finishFrame_slice (by rw [htse, hcall.cptse]; rfl) htu hipc]

/-- The counter of frames has sixteen bits. -/
theorem TsoCall.seq_frameSent :
    field (frameSent tp) (c.tucss.toNat + 4) 4 =
      (field bytes (c.tucss.toNat + 4) 4 + k % 65536 * c.m) % 2 ^ 32 := by
  have hslice := hcall.slice_frameSent hlayout hfit hip htcp hh
    (show (c.tucss.toNat + 4, 4) ∈ _ by simp [headerFields])
  have hctx := hcall.context
  subst hctx
  have hbounds := hlayout.bounds
  calc field (frameSent tp) (tp.tucss.toNat + 4) 4
      = ofBe ((segmentEdits tp).slice (tp.tucss.toNat + 4) 4) := congrArg ofBe hslice
    _ = (ofBe (tp.data.slice (tp.tucss.toNat + 4) 4) + tp.tsoFrames.toNat * tp.mss.toNat) %
          2 ^ 32 := segmentEdits_seq hlayout hip htcp
    _ = (field bytes (tp.tucss.toNat + 4) 4 + k % 65536 * tp.mss.toNat) % 2 ^ 32 := by
          rw [hcall.slice_data hh (by omega), hcall.frames, BitVec.toNat_ofNat]
          rfl

theorem TsoCall.ident_frameSent :
    field (frameSent tp) (c.ipcss.toNat + 4) 2 =
      (field bytes (c.ipcss.toNat + 4) 2 + k) % 2 ^ 16 := by
  have hslice := hcall.slice_frameSent hlayout hfit hip htcp hh
    (show (c.ipcss.toNat + 4, 2) ∈ _ by simp [headerFields])
  have hctx := hcall.context
  subst hctx
  have hbounds := hlayout.bounds
  calc field (frameSent tp) (tp.ipcss.toNat + 4) 2
      = ofBe ((segmentEdits tp).slice (tp.ipcss.toNat + 4) 2) := congrArg ofBe hslice
    _ = (ofBe (tp.data.slice (tp.ipcss.toNat + 4) 2) + tp.tsoFrames.toNat) % 2 ^ 16 :=
          segmentEdits_ident hlayout hip htcp
    _ = (field bytes (tp.ipcss.toNat + 4) 2 + k) % 2 ^ 16 := by
          rw [hcall.slice_data hh (by omega), hcall.frames, BitVec.toNat_ofNat, Nat.add_mod_mod]
          rfl

theorem TsoCall.total_frameSent :
    field (frameSent tp) (c.ipcss.toNat + 2) 2 = (frameSent tp).length - c.ipcss.toNat := by
  have hslice := hcall.slice_frameSent hlayout hfit hip htcp hh
    (show (c.ipcss.toNat + 2, 2) ∈ _ by simp [headerFields])
  have hsize := hcall.size hh
  have hctx := hcall.context
  subst hctx
  have hbounds := hlayout.bounds
  have hcss : (tp.ipcss.setWidth 16).toNat = tp.ipcss.toNat :=
    BitVec.toNat_setWidth_of_le (by decide)
  have hle : tp.ipcss.toNat ≤ tp.size.toNat := le_trans (by omega) hsize
  calc field (frameSent tp) (tp.ipcss.toNat + 2) 2
      = ofBe ((segmentEdits tp).slice (tp.ipcss.toNat + 2) 2) := congrArg ofBe hslice
    _ = (tp.size - tp.ipcss.setWidth 16).toNat := segmentEdits_total hlayout hip htcp
    _ = tp.size.toNat - tp.ipcss.toNat := by
          rw [BitVec.toNat_sub_of_le (by rw [BitVec.le_def, hcss]; exact hle), hcss]
    _ = (frameSent tp).length - tp.ipcss.toNat := by
          rw [frameSent_plain (hcall.untagged trivial), Buffer.length_slice]

theorem TsoCall.flags_frameSent {P : Nat} (hpay : c.paylen.toNat = P) (hk : k * c.m ≤ P)
    (hsmall : k < 65536) :
    (frameSent tp).getD (c.tucss.toNat + 13) 0 =
      if (k + 1) * c.m < P then bytes.getD (c.tucss.toNat + 13) 0 &&& ~~~9#8
      else bytes.getD (c.tucss.toNat + 13) 0 := by
  have hslice := hcall.slice_frameSent hlayout hfit hip htcp hh
    (show (c.tucss.toNat + 13, 1) ∈ _ by simp [headerFields])
  have hsize := hcall.size hh
  have hframes : tp.tsoFrames.toNat = k := by
    rw [hcall.frames, BitVec.toNat_ofNat, Nat.mod_eq_of_lt hsmall]
  have hctx := hcall.context
  subst hctx
  have hbounds := hlayout.bounds
  have hlt : tp.tucss.toNat + 13 < tp.size.toNat := by omega
  have hcond : tp.paylen - segmentSofar tp > tp.mss.setWidth 32 ↔
      (k + 1) * tp.context.m < P := by
    have hsofar := toNat_segmentSofar tp
    have hmss : (tp.mss.setWidth 32).toNat = tp.mss.toNat :=
      BitVec.toNat_setWidth_of_le (by decide)
    rw [hframes] at hsofar
    have hle : segmentSofar tp ≤ tp.paylen := by
      rw [BitVec.le_def, hsofar]
      exact hk.trans hpay.ge
    rw [gt_iff_lt, BitVec.lt_def, BitVec.toNat_sub_of_le hle, hsofar, hmss, ← hpay, Nat.succ_mul]
    exact Nat.lt_sub_iff_add_lt'
  calc (frameSent tp).getD (tp.tucss.toNat + 13) 0
      = (finishFrame tp).data (tp.tucss.toNat + 13) := by
          rw [frameSent_plain (hcall.untagged trivial), Buffer.getD_slice _ hlt]
    _ = segmentEdits tp (tp.tucss.toNat + 13) := by
          rw [frameSent_plain (hcall.untagged trivial)] at hslice
          exact Buffer.apply_eq_of_slice ((Buffer.slice_slice _ hlt).symm.trans hslice)
    _ = _ := segmentEdits_flags hlayout hip htcp
    _ = _ := by
          rw [if_congr hcond rfl rfl, hcall.getD_bytes hh (by omega)]
          rfl

theorem TsoCall.headerAt {P : Nat} (hpay : c.paylen.toNat = P) (hk : k * c.m ≤ P)
    (hsmall : k < 65536) : HeaderAt c P bytes (frameSent tp) k := by
  refine ⟨?_, hcall.ident_frameSent hlayout hfit hip htcp hh,
    hcall.total_frameSent hlayout hfit hip htcp hh,
    hcall.flags_frameSent hlayout hfit hip htcp hh hpay hk hsmall⟩
  rw [hcall.seq_frameSent hlayout hfit hip htcp hh, Nat.mod_eq_of_lt hsmall]

end Call

/-! ## The headers of a packet -/

/--
An IPv4 and TCP packet whose context tells its payload length, with fields that
do not meet, into which no tag is inserted.
-/
structure TsoHeaderPacket (w : World) (ctx : TxDesc) (front : List TxDesc) (last : TxDesc) :
    Prop extends TsoPacket w ctx front last where
  ip : test ctx.cmdAndLength txdCmdIp = true
  tcp : test ctx.cmdAndLength txdCmdTcp = true
  paylen : (packetContext w ctx).paylen.toNat = payloadLength ctx (front ++ [last])
  layout : HeaderLayout (packetContext w ctx)
  untagged : w.dev.tx.vlanNeeded = false ∧ Untagged w (front ++ [last])

def HeadersRewritten (w : World) (ctx : TxDesc) (ds : List TxDesc) : Prop :=
  ∃ fuel w', processDescs fuel w (ctx :: ds) = .ok w' ∧
    ∀ k c, (packetCalls fuel w (ctx :: ds))[k]? = some c →
      HeaderAt (packetContext w ctx) (payloadLength ctx ds) (packetReads fuel w (ctx :: ds))
        (frameSent c.dev.tx) k

section Packet

variable {w : World} {ctx last : TxDesc} {front : List TxDesc}

/-- The calls of such a packet, with what the lemmas on a single call ask for. -/
theorem TsoHeaderPacket.call {fuel k : Nat} {w' c : World}
    (hp : TsoHeaderPacket w ctx front last)
    (h : processDescs fuel w (ctx :: (front ++ [last])) = .ok w')
    (hc : (packetCalls fuel w (ctx :: (front ++ [last])))[k]? = some c) :
    TsoCall (packetContext w ctx) True (packetReads fuel w (ctx :: (front ++ [last]))) k
        c.dev.tx ∧
      ctx.hdrLen.toNat ≤ (packetReads fuel w (ctx :: (front ++ [last]))).length ∧
      k ≤ payloadLength ctx (front ++ [last]) / ctx.mss.toNat := by
  obtain ⟨hlen, hcalls, -⟩ := hp.calls (fun _ : True => hp.untagged) h
  obtain ⟨hk, -⟩ := List.getElem?_eq_some_iff.mp hc
  rw [hp.length_calls h] at hk
  have hcall := hcalls.getElem hc
  rw [Nat.zero_add] at hcall
  exact ⟨hcall, hlen ▸ hp.total, Nat.le_of_lt_succ hk⟩

/-- The sequence number goes back to the start with the frame that wraps the counter. -/
theorem TsoHeaderPacket.not_rewritten (hp : TsoHeaderPacket w ctx front last)
    (hmany : 65536 ≤ payloadLength ctx (front ++ [last]) / ctx.mss.toNat) :
    ¬ HeadersRewritten w ctx (front ++ [last]) := by
  rintro ⟨fuel, w', h, hall⟩
  have hlt : 65536 < (packetCalls fuel w (ctx :: (front ++ [last]))).length := by
    rw [hp.length_calls h]
    omega
  have hc := List.getElem?_eq_getElem hlt
  obtain ⟨hcall, hh, -⟩ := hp.call h hc
  have hseq := (hall _ _ hc).seq
  rw [hcall.seq_frameSent hp.layout hp.fits hp.ip hp.tcp hh] at hseq
  have hpos : 0 < (packetContext w ctx).m := hp.payload
  have hsmall := hp.fits.small
  omega

def headerContext (mss : U16) (paylen : U32) : TxDesc :=
  ⟨0x32220021180e, txdCmdDext ||| txdCmdTse ||| txdCmdIp ||| txdCmdTcp ||| paylen,
    mss ++ 54#8 ++ 0#8⟩

theorem tsoHeaderPacket_typical :
    TsoHeaderPacket (powerOn (fun _ => 0) 0 false fun _ => 0) (headerContext 1460 2986)
      [tsoData 40] (tsoLast 3000) :=
  ⟨tsoPacket_powerOn (by decide) (by decide) ⟨⟨by decide, by decide⟩, by decide⟩
    ⟨⟨by decide, by decide⟩, by decide⟩, by decide, by decide, by decide,
    ⟨by decide, by decide⟩, rfl, fun _ _ => rfl⟩

theorem tsoHeaderPacket_oneByte :
    TsoHeaderPacket (powerOn (fun _ => 0) 0 false fun _ => 0) (headerContext 1 70000)
      [tsoData 40000] (tsoLast 30054) :=
  ⟨tsoPacket_powerOn (by decide) (by decide) ⟨⟨by decide, by decide⟩, by decide⟩
    ⟨⟨by decide, by decide⟩, by decide⟩, by decide, by decide, by decide,
    ⟨by decide, by decide⟩, rfl, fun _ _ => rfl⟩

end Packet

end SE4VM.E1000
