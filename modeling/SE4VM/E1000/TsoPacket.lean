import SE4VM.E1000.TsoAssembly

/-!
# Packets sent by segmentation offload

A context descriptor and the data descriptors of one packet, the last of them
with `EOP`.  What `xmit_seg` is handed depends on the bytes of the packet, not on
the descriptors they are spread over.
-/

namespace SE4VM.E1000

open SE4VM.Foundation

/-! ## Descriptors in a row -/

def processDescs (fuel : Nat) (w : World) : List TxDesc → Run World
  | [] => .ok w
  | dp :: ds => do
      let w ← processTxDesc fuel w dp
      processDescs fuel w ds

/-- The calls of `xmit_seg`, as far as the descriptors are processed. -/
def packetCalls (fuel : Nat) (w : World) : List TxDesc → List World
  | [] => []
  | dp :: ds =>
      descCalls fuel w dp ++
        match processTxDesc fuel w dp with
        | .ok w' => packetCalls fuel w' ds
        | _ => []

def packetReads (fuel : Nat) (w : World) : List TxDesc → List U8
  | [] => []
  | dp :: ds =>
      descReads fuel w dp ++
        match processTxDesc fuel w dp with
        | .ok w' => packetReads fuel w' ds
        | _ => []

/-- The bytes that a call of `xmit_seg` finds in `tx`. -/
def callFrame (w : World) : List U8 := w.dev.tx.data.slice 0 w.dev.tx.size.toNat

def packetLength (ds : List TxDesc) : Nat := (ds.map descLen).sum

section Row

variable {fuel : Nat} {w w₁ : World} {dp : TxDesc} {ds : List TxDesc}

theorem processDescs_cons (h : processTxDesc fuel w dp = .ok w₁) :
    processDescs fuel w (dp :: ds) = processDescs fuel w₁ ds := by
  rw [processDescs, h, Run.ok_bind]

theorem packetCalls_cons (h : processTxDesc fuel w dp = .ok w₁) :
    packetCalls fuel w (dp :: ds) = descCalls fuel w dp ++ packetCalls fuel w₁ ds := by
  rw [packetCalls, h]

theorem packetReads_cons (h : processTxDesc fuel w dp = .ok w₁) :
    packetReads fuel w (dp :: ds) = descReads fuel w dp ++ packetReads fuel w₁ ds := by
  rw [packetReads, h]

theorem processDescs_le {m n : Nat} (hmn : m ≤ n) (w : World) (ds : List TxDesc) :
    Run.Le (processDescs m w ds) (processDescs n w ds) := by
  induction ds generalizing w with
  | nil => exact .refl _
  | cons dp ds ih => exact .bind (processTxDesc_le hmn w dp) ih

end Row

/-! ## Calls that return -/

def CallReturns (c : World) : Prop := ∃ fuel w', xmitSeg fuel c = .ok w'

/-- Every call of `xmit_seg` that the descriptors lead to returns. -/
def CallsReturn (w : World) (ds : List TxDesc) : Prop :=
  ∀ fuel, ∀ c ∈ packetCalls fuel w ds, CallReturns c

theorem fetchCalls_subset {m n : Nat} (hmn : m ≤ n) (w : World) (dp : TxDesc) :
    fetchCalls m w dp ⊆ fetchCalls n w dp := by
  simp only [fetchCalls]
  split_ifs
  · intro c hc
    obtain ⟨st, hst, hc⟩ := List.mem_flatMap.mp hc
    exact List.mem_flatMap.mpr ⟨st, trail_subset (tsoBody_le hmn _) hmn _ hst, hc⟩
  · exact List.Subset.refl _

theorem descCalls_subset {m n : Nat} (hmn : m ≤ n) (w : World) (dp : TxDesc) :
    descCalls m w dp ⊆ descCalls n w dp := by
  rw [descCalls, descCalls]
  by_cases hctx : descType dp = txdCmdDext
  · rw [if_pos hctx]
    exact List.nil_subset _
  · rw [if_neg hctx, if_neg hctx]
    refine List.append_subset.mpr
      ⟨List.subset_append_of_subset_left _ (fetchCalls_subset hmn _ dp),
        List.subset_append_of_subset_right _ ?_⟩
    cases hm : fetchData m (beginDesc w dp) dp with
    | ok w' =>
        rw [(fetchData_le hmn _ dp).eq_ok hm]
        exact List.Subset.refl _
    | fault => exact List.nil_subset _
    | timeout => exact List.nil_subset _

theorem packetCalls_subset {m n : Nat} (hmn : m ≤ n) (w : World) (ds : List TxDesc) :
    packetCalls m w ds ⊆ packetCalls n w ds := by
  induction ds generalizing w with
  | nil => exact List.Subset.refl _
  | cons dp ds ih =>
      refine List.append_subset.mpr
        ⟨List.subset_append_of_subset_left _ (descCalls_subset hmn w dp),
          List.subset_append_of_subset_right _ ?_⟩
      cases hm : processTxDesc m w dp with
      | ok w' =>
          rw [(processTxDesc_le hmn w dp).eq_ok hm]
          exact ih w'
      | fault => exact List.nil_subset _
      | timeout => exact List.nil_subset _

section Returns

variable {w : World} {dp : TxDesc} {ds : List TxDesc}

theorem CallsReturn.tail {fuel : Nat} {w' : World} (h : CallsReturn w (dp :: ds))
    (hproc : processTxDesc fuel w dp = .ok w') : CallsReturn w' ds := by
  intro fuel' c hc
  have hproc' := (processTxDesc_le (Nat.le_max_left fuel fuel') w dp).eq_ok hproc
  refine h (max fuel fuel') c ?_
  rw [packetCalls_cons hproc']
  exact List.mem_append_right _ (packetCalls_subset (Nat.le_max_right fuel fuel') w' ds hc)

theorem tsoBody_returns {msh : U32} {st : TsoLoop} (h : ∀ c ∈ tsoCalls msh st, CallReturns c) :
    ∃ fuel r, tsoBody msh fuel st = .ok r := by
  simp only [tsoCalls, World.fst_dmaRead, World.snd_dmaRead] at h
  have hflush : ∃ fuel, (flushSegment fuel (decide (st.world.dev.tx.size.toNat +
      (tsoBytes st.world.dev.tx msh st.splitSize).toNat = msh.toNat))
      ((st.world.emit (.dmaRead .txData st.addr
        (tsoBytes st.world.dev.tx msh st.splitSize).toNat)).setTx
        (appendChunk st.world.dev.tx (st.world.mem.read st.addr
          (tsoBytes st.world.dev.tx msh st.splitSize).toNat)))).Finishes := by
    simp only [flushSegment, decide_eq_true_eq]
    split_ifs at h ⊢
    · obtain ⟨fuel, w', hxmit⟩ := h _ (List.mem_singleton_self _)
      exact ⟨fuel, .bind ⟨w', hxmit⟩ fun _ _ => .ok _⟩
    · exact ⟨0, .ok _⟩
  obtain ⟨fuel, hflush⟩ := hflush
  refine ⟨fuel, Run.Finishes.bind hflush fun w' _ => ?_⟩
  dsimp only
  split_ifs
  · exact .ok _
  · exact .ok _

theorem segmentsReturn (hdp : IsTsoDesc dp) (htse : w.dev.tx.tse = true)
    (h : ∀ fuel, ∀ c ∈ descCalls fuel w dp, CallReturns c) :
    SegmentsReturn (beginDesc w dp) dp := by
  obtain ⟨hcptse, htse', -⟩ := beginDesc_tx (w := w) hdp
  intro st hheads
  obtain ⟨k, hk⟩ := exists_mem_trail (tsoBody_fuelMonotone _) hheads
  refine tsoBody_returns fun c hc => h k c ?_
  rw [descCalls, if_neg hdp.not_context]
  refine List.mem_append_left _ ?_
  simp only [fetchCalls, hcptse, htse', htse, Bool.and_self, if_true]
  exact List.mem_flatMap.mpr ⟨st, hk k k le_rfl le_rfl, hc⟩

theorem endPacket_returns (h : ∀ c ∈ lastCalls w, CallReturns c) :
    ∃ fuel w', endPacket fuel w = .ok w' := by
  simp only [lastCalls] at h
  have hsend : ∃ fuel, (sendLast fuel w).Finishes := by
    simp only [sendLast]
    split_ifs at h ⊢
    · exact ⟨0, .ok _⟩
    · exact h w (List.mem_singleton_self _)
  obtain ⟨fuel, hsend⟩ := hsend
  exact ⟨fuel, hsend.bind fun _ _ => .ok _⟩

theorem processTxDesc_returns (hdp : IsTsoDesc dp) (htse : w.dev.tx.tse = true)
    (hfits : TsoFitsDesc w.dev.tx dp)
    (h : ∀ fuel, ∀ c ∈ descCalls fuel w dp, CallReturns c) :
    ∃ fuel w', processTxDesc fuel w dp = .ok w' := by
  obtain ⟨-, -, hh, hm, hs⟩ := beginDesc_tx (w := w) hdp
  have hfits' : TsoFitsDesc (beginDesc w dp).dev.tx dp := by
    rwa [TsoFitsDesc, hh, hm, hs]
  obtain ⟨k, w₁, -, hloop, -⟩ := tsoConsumes_of_fits (segmentsReturn hdp htse h) hfits'
  rw [← fetchData_tso hdp htse] at hloop
  cases heop : txdEop dp with
  | false =>
      refine ⟨k, w₁, ?_⟩
      rw [processTxDesc, if_neg hdp.not_context, hloop, heop]
      rfl
  | true =>
      obtain ⟨n, w', hend⟩ := endPacket_returns fun c hc => h k c (by
        rw [descCalls, if_neg hdp.not_context, hloop, heop]
        exact List.mem_append_right _ hc)
      refine ⟨max k n, w', ?_⟩
      have hloop' := (fetchData_le (Nat.le_max_left k n) _ dp).eq_ok hloop
      rw [processTxDesc, if_neg hdp.not_context, hloop', heop]
      exact (endPacket_le (Nat.le_max_right k n) w₁).eq_ok hend

theorem phyReg_fetchCalls {fuel : Nat} {c : World} (hc : c ∈ fetchCalls fuel w dp) :
    c.dev.phyReg = w.dev.phyReg := by
  simp only [fetchCalls] at hc
  split_ifs at hc
  · obtain ⟨st, hst, hc⟩ := List.mem_flatMap.mp hc
    have hphy : st.world.dev.phyReg = w.dev.phyReg :=
      trail_invariant (fun st => st.world.dev.phyReg = w.dev.phyReg)
        (fun s s' hs hb => (congrArg Rest.phyReg (tsoBody_frame hb).rest).trans hs) rfl hst
    simp only [tsoCalls, World.fst_dmaRead, World.snd_dmaRead] at hc
    split_ifs at hc
    · rw [List.mem_singleton.mp hc]
      exact hphy
    · cases hc
  · cases hc

theorem phyReg_descCalls {fuel : Nat} {c : World} (hc : c ∈ descCalls fuel w dp) :
    c.dev.phyReg = w.dev.phyReg := by
  simp only [descCalls] at hc
  split_ifs at hc with hctx heop
  · cases hc
  · rcases List.mem_append.mp hc with hc | hc
    · exact (phyReg_fetchCalls hc).trans rfl
    · split at hc
      case h_1 w' hfetch =>
        have hphy := congrArg Rest.phyReg (fetchData_frame hfetch).rest
        simp only [lastCalls] at hc
        split_ifs at hc
        · cases hc
        · rw [List.mem_singleton.mp hc]
          exact hphy
      case h_2 => cases hc
  · rcases List.mem_append.mp hc with hc | hc
    · exact (phyReg_fetchCalls hc).trans rfl
    · split at hc <;> cases hc

theorem callsReturn_of_no_loopback (ds : List TxDesc)
    (hloop : test (w.dev.phyReg Phy.ctrl) miiCrLoopback = false) : CallsReturn w ds := by
  intro fuel c hc
  suffices hphy : c.dev.phyReg = w.dev.phyReg from
    ⟨0, xmitSeg_finishes 0 (by rw [hphy]; exact hloop)⟩
  clear hloop
  induction ds generalizing w with
  | nil => cases hc
  | cons dp ds ih =>
      rcases List.mem_append.mp hc with hc | hc
      · exact phyReg_descCalls hc
      · cases hproc : processTxDesc fuel w dp with
        | ok w' =>
            rw [hproc] at hc
            exact (ih hc).trans (congrArg Rest.phyReg (processTxDesc_frame hproc).rest)
        | fault =>
            rw [hproc] at hc
            cases hc
        | timeout =>
            rw [hproc] at hc
            cases hc

end Returns

/-! ## The data descriptors of a packet -/

section Data

variable {c : TsoContext} {plain : Prop} {bs : List U8} {w : World}

theorem processTxDesc_open {fuel : Nat} {w' : World} {dp : TxDesc} (hfit : c.Fits)
    (hdp : IsTsoDesc dp) (heop : txdEop dp = false) (hat : TsoAt c plain bs w.dev.tx)
    (hplain : plain → (vlanEnabled w.dev && isVlanTxd dp) = false)
    (h : processTxDesc fuel w dp = .ok w') :
    (descReads fuel w dp).length = descLen dp ∧
      Assembled c plain bs (descReads fuel w dp) (descCalls fuel w dp) w' ∧
      FromMemory w w' dp.bufferAddr (descReads fuel w dp) := by
  rw [processTxDesc, if_neg hdp.not_context] at h
  obtain ⟨w₁, hfetch, h⟩ := Run.bind_eq_ok.mp h
  rw [heop] at h
  cases h
  obtain ⟨hlen, hasm, -, hmem⟩ := fetchData_at hfit hdp hat hplain hfetch
  refine ⟨hlen, ?_, hmem⟩
  rw [descCalls, if_neg hdp.not_context, hfetch, heop]
  simpa using hasm

/-- The last descriptor sends what is in `tx`, be it a full header only. -/
theorem processTxDesc_last {fuel : Nat} {w' : World} {dp : TxDesc} (hfit : c.Fits)
    (hdp : IsTsoDesc dp) (heop : txdEop dp = true) (hat : TsoAt c plain bs w.dev.tx)
    (hplain : plain → (vlanEnabled w.dev && isVlanTxd dp) = false)
    (htotal : c.h ≤ bs.length + descLen dp) (h : processTxDesc fuel w dp = .ok w') :
    (descReads fuel w dp).length = descLen dp ∧
      TsoCalls c plain (bs ++ descReads fuel w dp) (Segment.complete c.h c.m bs.length)
        (descCalls fuel w dp) ∧
      Segment.complete c.h c.m bs.length + (descCalls fuel w dp).length =
        Segment.complete c.h c.m (bs ++ descReads fuel w dp).length + 1 ∧
      (test (w.dev.phyReg Phy.ctrl) miiCrLoopback = false →
        descReads fuel w dp = w.mem.read dp.bufferAddr (descLen dp)) := by
  rw [processTxDesc, if_neg hdp.not_context] at h
  obtain ⟨w₁, hfetch, -⟩ := Run.bind_eq_ok.mp h
  obtain ⟨hlen, hasm, hcptse, hmem⟩ := fetchData_at hfit hdp hat hplain hfetch
  have hwhole : c.h ≤ (bs ++ descReads fuel w dp).length := by
    rw [List.length_append]
    omega
  have hrest := Segment.rest_eq_segment hfit.payload hwhole
  have hhdr : w₁.dev.tx.hdrLen.toNat = c.h := congrArg TsoContext.h hasm.tx.context
  have hlast : lastCalls w₁ = [w₁] := by
    simp only [lastCalls]
    rw [if_neg]
    simp only [Bool.and_eq_true, decide_eq_true_eq, not_and, not_lt]
    intro _
    rw [hhdr, hasm.tx.size, Segment.fill, if_neg (by omega)]
    omega
  have hcalls : descCalls fuel w dp = fetchCalls fuel (beginDesc w dp) dp ++ [w₁] := by
    rw [descCalls, if_neg hdp.not_context, hfetch, heop, ← hlast]
    rfl
  refine ⟨hlen, ?_, ?_, fun hloop => ?_⟩
  · rw [hcalls]
    refine hasm.calls.append ⟨⟨hasm.tx.context, hcptse, ?_, ?_, hasm.tx.untagged⟩, trivial⟩
    · rw [hasm.tx.data, hrest, hasm.count]
    · rw [hasm.tx.frames, hasm.count]
  · rw [hcalls, List.length_append, List.length_singleton, ← Nat.add_assoc, hasm.count]
  · rw [← hlen]
    exact (hmem hloop).2

/-- The data descriptors of a packet: the last one ends it, no other does. -/
structure PacketDescs (front : List TxDesc) (last : TxDesc) : Prop where
  tso : ∀ dp ∈ front ++ [last], IsTsoDesc dp
  not_eop : ∀ dp ∈ front, txdEop dp = false
  eop : txdEop last = true

theorem PacketDescs.tail {dp last : TxDesc} {front : List TxDesc}
    (h : PacketDescs (dp :: front) last) : PacketDescs front last :=
  ⟨fun d hd => h.tso d (List.mem_cons_of_mem _ hd),
    fun d hd => h.not_eop d (List.mem_cons_of_mem _ hd), h.eop⟩

def Untagged (w : World) (ds : List TxDesc) : Prop :=
  ∀ dp ∈ ds, (vlanEnabled w.dev && isVlanTxd dp) = false

theorem vlanEnabled_processTxDesc {fuel : Nat} {w' : World} {dp : TxDesc}
    (h : processTxDesc fuel w dp = .ok w') : vlanEnabled w'.dev = vlanEnabled w.dev := by
  have hreg : w'.reg Reg.ctrl = w.reg Reg.ctrl := (processTxDesc_frame h).reg _ (by decide)
  exact congrArg (fun v => test v ctrlVme) hreg

theorem processDescs_at {fuel : Nat} {front : List TxDesc} {last : TxDesc} {w' : World}
    (hfit : c.Fits) (hds : PacketDescs front last) (hat : TsoAt c plain bs w.dev.tx)
    (hplain : plain → Untagged w (front ++ [last]))
    (htotal : c.h ≤ bs.length + packetLength (front ++ [last]))
    (h : processDescs fuel w (front ++ [last]) = .ok w') :
    (packetReads fuel w (front ++ [last])).length = packetLength (front ++ [last]) ∧
      TsoCalls c plain (bs ++ packetReads fuel w (front ++ [last]))
        (Segment.complete c.h c.m bs.length) (packetCalls fuel w (front ++ [last])) ∧
      Segment.complete c.h c.m bs.length + (packetCalls fuel w (front ++ [last])).length =
        Segment.complete c.h c.m (bs ++ packetReads fuel w (front ++ [last])).length + 1 ∧
      (test (w.dev.phyReg Phy.ctrl) miiCrLoopback = false →
        packetReads fuel w (front ++ [last]) =
          (front ++ [last]).flatMap fun dp => w.mem.read dp.bufferAddr (descLen dp)) := by
  induction front generalizing w bs with
  | nil =>
      obtain ⟨w₁, hproc, -⟩ := Run.bind_eq_ok.mp h
      have hspec := processTxDesc_last hfit (hds.tso last (by simp)) hds.eop hat
        (fun hp => hplain hp last (by simp)) (by simpa [packetLength] using htotal) hproc
      rw [List.nil_append, packetCalls_cons hproc, packetReads_cons hproc]
      simpa [packetCalls, packetReads, packetLength] using hspec
  | cons dp front ih =>
      rw [List.cons_append] at h htotal hplain ⊢
      obtain ⟨w₁, hproc, h⟩ := Run.bind_eq_ok.mp h
      obtain ⟨hlen, hasm, hmem⟩ := processTxDesc_open hfit (hds.tso dp (by simp))
        (hds.not_eop dp (by simp)) hat (fun hp => hplain hp dp (by simp)) hproc
      have hplain' : plain → Untagged w₁ (front ++ [last]) := fun hp d hd => by
        rw [vlanEnabled_processTxDesc hproc]
        exact hplain hp d (List.mem_cons_of_mem _ hd)
      have htotal' : c.h ≤ (bs ++ descReads fuel w dp).length +
          packetLength (front ++ [last]) := by
        rw [List.length_append, hlen]
        simpa [packetLength, Nat.add_assoc] using htotal
      obtain ⟨hlen', hcalls', hcount', hmem'⟩ := ih hds.tail hasm.tx hplain' htotal' h
      rw [packetCalls_cons hproc, packetReads_cons hproc]
      rw [List.append_assoc] at hcalls' hcount'
      refine ⟨?_, .append ?_ ?_, ?_, fun hloop => ?_⟩
      · rw [List.length_append, hlen, hlen']
        rfl
      · have hext := hasm.calls.extend hasm.count.le (packetReads fuel w₁ (front ++ [last]))
        rwa [List.append_assoc] at hext
      · rwa [hasm.count]
      · rw [List.length_append, ← Nat.add_assoc, hasm.count, hcount']
      · obtain ⟨hmem₁, hread⟩ := hmem hloop
        have hphy : w₁.dev.phyReg = w.dev.phyReg :=
          congrArg Rest.phyReg (processTxDesc_frame hproc).rest
        rw [hmem' (by rw [hphy]; exact hloop), hmem₁, List.flatMap_cons, ← hlen, ← hread]

theorem processDescs_returns {front : List TxDesc} {last : TxDesc} (hfit : c.Fits)
    (hds : PacketDescs front last) (hat : TsoAt c False bs w.dev.tx)
    (hcalls : CallsReturn w (front ++ [last])) :
    ∃ fuel w', processDescs fuel w (front ++ [last]) = .ok w' := by
  have hdesc : ∀ {bs : List U8} {w : World} {dp : TxDesc} {ds : List TxDesc},
      TsoAt c False bs w.dev.tx → IsTsoDesc dp → CallsReturn w (dp :: ds) →
        ∃ fuel w', processTxDesc fuel w dp = .ok w' := by
    intro bs w dp ds hat hdp hcalls
    have hhdr : w.dev.tx.hdrLen.toNat = c.h := congrArg TsoContext.h hat.context
    have hmss : w.dev.tx.mss.toNat = c.m := congrArg TsoContext.m hat.context
    refine processTxDesc_returns hdp ((congrArg TsoContext.tse hat.context).trans hfit.tse)
      (.inl ⟨?_, .inl ?_⟩) fun fuel a ha => hcalls fuel a (List.mem_append_left _ ha)
    · rw [hat.size, hhdr, hmss]
      exact (Segment.fill_lt hfit.payload _).le
    · rw [hmss]
      exact hfit.payload
  induction front generalizing w bs with
  | nil =>
      obtain ⟨fuel, w', hproc⟩ := hdesc hat (hds.tso last (by simp)) hcalls
      exact ⟨fuel, w', processDescs_cons hproc⟩
  | cons dp front ih =>
      obtain ⟨k, w₁, hproc⟩ := hdesc hat (hds.tso dp (by simp)) hcalls
      obtain ⟨-, hasm, -⟩ := processTxDesc_open hfit (hds.tso dp (by simp))
        (hds.not_eop dp (by simp)) hat False.elim hproc
      obtain ⟨n, w', hrest⟩ := ih hds.tail hasm.tx (hcalls.tail hproc)
      refine ⟨max k n, w', ?_⟩
      have hproc' := (processTxDesc_le (Nat.le_max_left k n) w dp).eq_ok hproc
      rw [List.cons_append, processDescs_cons hproc']
      exact (processDescs_le (Nat.le_max_right k n) w₁ _).eq_ok hrest

end Data

/-! ## The packet -/

/--
A context descriptor that turns segmentation on and the descriptors of a packet
with at least a header, met with no bytes of another packet in `tx`.
-/
structure TsoPacket (w : World) (ctx : TxDesc) (front : List TxDesc) (last : TxDesc) :
    Prop where
  context : descType ctx = txdCmdDext
  tse : test ctx.cmdAndLength txdCmdTse = true
  header : 0 < ctx.hdrLen.toNat
  payload : 0 < ctx.mss.toNat
  small : ctx.hdrLen.toNat + ctx.mss.toNat ≤ 65535
  empty : w.dev.tx.size = 0
  descs : PacketDescs front last
  total : ctx.hdrLen.toNat ≤ packetLength (front ++ [last])
  returns : CallsReturn w (ctx :: (front ++ [last]))

section Packet

variable {w : World} {ctx last : TxDesc} {front : List TxDesc}

def contextWorld (w : World) (ctx : TxDesc) : World :=
  (noteIde w ctx).setTx (contextTx w.dev.tx ctx)

def packetContext (w : World) (ctx : TxDesc) : TsoContext :=
  (contextWorld w ctx).dev.tx.context

theorem TsoPacket.fits (hp : TsoPacket w ctx front last) : (packetContext w ctx).Fits :=
  ⟨hp.tse, hp.header, hp.payload, hp.small⟩

theorem TsoPacket.processTxDesc_context (hp : TsoPacket w ctx front last) (fuel : Nat) :
    processTxDesc fuel w ctx = .ok (contextWorld w ctx) := by
  rw [processTxDesc, if_pos hp.context]
  rfl

theorem TsoPacket.tx_context {plain : Prop} (hp : TsoPacket w ctx front last)
    (hplain : plain → w.dev.tx.vlanNeeded = false) :
    TsoAt (packetContext w ctx) plain [] (contextWorld w ctx).dev.tx := by
  have hsize : (contextWorld w ctx).dev.tx.size = 0 := hp.empty
  have hheader : 0 < (packetContext w ctx).h := hp.header
  refine ⟨rfl, ?_, ?_, fun hle => ?_, ?_, hplain⟩
  · rw [hsize, List.length_nil, Segment.fill, if_pos hheader]
    rfl
  · rw [hsize, Segment.rest, List.length_nil, if_pos hheader]
    rfl
  · rw [List.length_nil] at hle
    omega
  · rw [List.length_nil, Segment.complete, Nat.zero_sub, Nat.zero_div]
    rfl

theorem TsoPacket.processDescs_returns (hp : TsoPacket w ctx front last) :
    ∃ fuel w', processDescs fuel w (ctx :: (front ++ [last])) = .ok w' := by
  obtain ⟨fuel, w', h⟩ := E1000.processDescs_returns hp.fits hp.descs
    (hp.tx_context False.elim) (hp.returns.tail (hp.processTxDesc_context 0))
  exact ⟨fuel, w', (processDescs_cons (hp.processTxDesc_context fuel)).trans h⟩

/-- The calls of a packet are those of the segments of its bytes. -/
theorem TsoPacket.calls {plain : Prop} {fuel : Nat} {w' : World}
    (hp : TsoPacket w ctx front last)
    (hplain : plain → w.dev.tx.vlanNeeded = false ∧ Untagged w (front ++ [last]))
    (h : processDescs fuel w (ctx :: (front ++ [last])) = .ok w') :
    let bytes := packetReads fuel w (ctx :: (front ++ [last]))
    let calls := packetCalls fuel w (ctx :: (front ++ [last]))
    bytes.length = packetLength (front ++ [last]) ∧
      TsoCalls (packetContext w ctx) plain bytes 0 calls ∧
      calls.length =
        Segment.complete (packetContext w ctx).h (packetContext w ctx).m bytes.length + 1 ∧
      (test (w.dev.phyReg Phy.ctrl) miiCrLoopback = false →
        bytes = (front ++ [last]).flatMap fun dp => w.mem.read dp.bufferAddr (descLen dp)) := by
  have hctx := hp.processTxDesc_context fuel
  rw [processDescs_cons hctx] at h
  obtain ⟨hlen, hcalls, hcount, hmem⟩ := processDescs_at hp.fits hp.descs
    (hp.tx_context fun hpl => (hplain hpl).1) (fun hpl => (hplain hpl).2)
    (by rw [List.length_nil, Nat.zero_add]; exact hp.total) h
  have hzero : Segment.complete (packetContext w ctx).h (packetContext w ctx).m
      ([] : List U8).length = 0 := by
    rw [List.length_nil, Segment.complete, Nat.zero_sub, Nat.zero_div]
  rw [hzero, List.nil_append] at hcalls hcount
  rw [packetReads_cons hctx, packetCalls_cons hctx, descReads, if_pos hp.context, descCalls,
    if_pos hp.context, List.nil_append, List.nil_append]
  exact ⟨hlen, hcalls, by omega, hmem⟩

theorem TsoCalls.map_callFrame {c : TsoContext} {plain : Prop} {bs : List U8} {k : Nat}
    {ws : List World} (h : TsoCalls c plain bs k ws) :
    ws.map callFrame = (List.range' k ws.length).map (Segment.segment c.h c.m bs) := by
  induction ws generalizing k with
  | nil => rfl
  | cons w ws ih =>
      rw [List.map_cons, List.length_cons, List.range'_succ, List.map_cons, ih h.2]
      exact congrArg (· :: _) h.1.data

/-- The frames of a packet. -/
theorem TsoPacket.frames {fuel : Nat} {w' : World} (hp : TsoPacket w ctx front last)
    (h : processDescs fuel w (ctx :: (front ++ [last])) = .ok w') :
    (packetCalls fuel w (ctx :: (front ++ [last]))).map callFrame =
      Segment.segments ctx.hdrLen.toNat ctx.mss.toNat
        (packetReads fuel w (ctx :: (front ++ [last]))) := by
  obtain ⟨-, hcalls, hcount, -⟩ := hp.calls (fun hf : False => hf.elim) h
  rw [hcalls.map_callFrame, hcount, ← List.range_eq_range']
  rfl

def tsoLast (len : U16) : TxDesc :=
  ⟨0x2000, txdCmdEop ||| txdCmdDext ||| txdDtypD ||| txdCmdTse ||| len.setWidth 32, 0⟩

/-- Two data descriptors right after power-on, when no frame is looped back. -/
theorem tsoPacket_powerOn {first : TxDesc}
    (hctx : descType ctx = txdCmdDext ∧ test ctx.cmdAndLength txdCmdTse = true)
    (hsize : 0 < ctx.hdrLen.toNat ∧ 0 < ctx.mss.toNat ∧
      ctx.hdrLen.toNat + ctx.mss.toNat ≤ 65535 ∧
      ctx.hdrLen.toNat ≤ packetLength [first, last])
    (hfirst : IsTsoDesc first ∧ txdEop first = false)
    (hlast : IsTsoDesc last ∧ txdEop last = true) :
    TsoPacket (powerOn (fun _ => 0) 0 false fun _ => 0) ctx [first] last := by
  refine ⟨hctx.1, hctx.2, hsize.1, hsize.2.1, hsize.2.2.1, rfl, ⟨?_, ?_, hlast.2⟩,
    hsize.2.2.2, callsReturn_of_no_loopback _ (by decide)⟩
  · intro dp hdp
    rcases List.mem_cons.mp hdp with rfl | hdp
    · exact hfirst.1
    · rw [List.mem_singleton.mp hdp]
      exact hlast.1
  · intro dp hdp
    rw [List.mem_singleton.mp hdp]
    exact hfirst.2

def payloadLength (ctx : TxDesc) (ds : List TxDesc) : Nat := packetLength ds - ctx.hdrLen.toNat

/-- As many frames as the payload takes up, none of them without a part of it. -/
def SegmentsCounted (w : World) (ctx : TxDesc) (ds : List TxDesc) : Prop :=
  ∃ fuel w', processDescs fuel w (ctx :: ds) = .ok w' ∧
    let P := payloadLength ctx ds
    let M := ctx.mss.toNat
    (packetCalls fuel w (ctx :: ds)).length = max 1 ((P + M - 1) / M) ∧
    (0 < P → ∀ c ∈ packetCalls fuel w (ctx :: ds), (callFrame c).drop ctx.hdrLen.toNat ≠ [])

theorem TsoPacket.length_calls {fuel : Nat} {w' : World} (hp : TsoPacket w ctx front last)
    (h : processDescs fuel w (ctx :: (front ++ [last])) = .ok w') :
    (packetCalls fuel w (ctx :: (front ++ [last]))).length =
      payloadLength ctx (front ++ [last]) / ctx.mss.toNat + 1 := by
  obtain ⟨hlen, -, hcount, -⟩ := hp.calls (fun hf : False => hf.elim) h
  rw [hcount, hlen]
  rfl

end Packet

end SE4VM.E1000
