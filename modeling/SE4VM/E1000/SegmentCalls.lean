import SE4VM.E1000.Frame

/-!
# The calls of `xmit_seg`

Which worlds `process_tx_desc` and `start_xmit` hand to `xmit_seg`, computed from
the heads that their loops pass.  A relation between worlds that the calls and
the steps between them satisfy holds of a whole transmission.
-/

namespace SE4VM.E1000

open SE4VM.Foundation

/-! ## The calls -/

/-- The chunk loop calls `xmit_seg` when the chunk completes a segment. -/
def tsoCalls (msh : U32) (st : TsoLoop) : List World :=
  let tp := st.world.dev.tx
  let bytes := tsoBytes tp msh st.splitSize
  let (chunk, w) := st.world.dmaRead .txData st.addr bytes.toNat
  if tp.size.toNat + bytes.toNat = msh.toNat then [w.setTx (appendChunk tp chunk)] else []

def fetchCalls (fuel : Nat) (w : World) (dp : TxDesc) : List World :=
  let tp := w.dev.tx
  if tp.tse && tp.cptse then
    (trail (tsoBody (tsoMsh tp) fuel) fuel ⟨w, dp.lower &&& 0xffff#32, dp.bufferAddr⟩).flatMap
      (tsoCalls (tsoMsh tp))
  else []

/-- The end of a packet calls `xmit_seg` unless a segmented header is incomplete. -/
def lastCalls (w : World) : List World :=
  let tp := w.dev.tx
  if tp.tse && tp.cptse && decide (tp.size.toNat < tp.hdrLen.toNat) then [] else [w]

def descCalls (fuel : Nat) (w : World) (dp : TxDesc) : List World :=
  if descType dp = txdCmdDext then []
  else
    fetchCalls fuel (beginDesc w dp) dp ++
      match fetchData fuel (beginDesc w dp) dp with
      | .ok w' => if txdEop dp then lastCalls w' else []
      | _ => []

def headCalls (fuel : Nat) (st : XmitLoop) : List World :=
  let w := st.world
  if w.reg Reg.tdh = w.reg Reg.tdt then []
  else descCalls fuel (w.emit (.dmaRead .txDesc (txHeadAddr w) descBytes))
    (TxDesc.fetch w.mem (txHeadAddr w))

def xmitCalls (fuel : Nat) (w : World) : List World :=
  if test (w.reg Reg.tctl) tctlEn then
    (trail (xmitBody (w.reg Reg.tdh) fuel) fuel ⟨w, icrTxqe⟩).flatMap (headCalls fuel)
  else []

/-! ## The frame of a call -/

/-- `tx` when the frame is handed over. -/
def frameTx (tp : E1000Tx) : E1000Tx :=
  let tp := finishFrame tp
  if tp.vlanNeeded then insertVlan tp else tp

def frameSent (tp : E1000Tx) : List U8 :=
  let tp := frameTx tp
  if tp.vlanNeeded then tp.vlan.slice 0 4 ++ tp.data.slice 0 tp.size.toNat
  else tp.data.slice 0 tp.size.toNat

/-- `tx` after the receiver may have edited the frame. -/
def takeBack (tp : E1000Tx) (bytes : List U8) : E1000Tx :=
  if tp.vlanNeeded then
    { tp with vlan := tp.vlan.store 0 (bytes.take 4), data := tp.data.store 0 (bytes.drop 4) }
  else { tp with data := tp.data.store 0 bytes }

theorem xmitSeg_eq (fuel : Nat) (w : World) :
    xmitSeg fuel w =
      (e1000SendPacket fuel (w.setTx (frameTx w.dev.tx)) (frameSent w.dev.tx) >>= fun r =>
        .ok (countFrame (r.1.setTx (takeBack r.1.dev.tx r.2)))) := by
  -- The receiver leaves `tx` alone, so the tag is still due when the buffer comes back.
  have htx : ∀ {w₁ w₂ : World} {frame bytes : List U8},
      e1000SendPacket fuel w₁ frame = .ok (w₂, bytes) → w₂.dev.tx = w₁.dev.tx :=
    fun h => (e1000SendPacket_frame h).2
  have hkeep : (insertVlan (finishFrame w.dev.tx)).vlanNeeded =
      (finishFrame w.dev.tx).vlanNeeded := rfl
  cases hv : (finishFrame w.dev.tx).vlanNeeded with
  | true =>
      simp only [xmitSeg, sendFrame, World.dev_setTx, frameTx, frameSent, hkeep, hv, if_true]
      rw [Run.bind_assoc]
      refine Run.bind_congr fun r hr => ?_
      have hr' : r.1.dev.tx.vlanNeeded = true := by rw [htx hr]; exact hv
      simp only [takeBack, hr', if_true, Run.ok_bind]
  | false =>
      simp only [xmitSeg, sendFrame, World.dev_setTx, frameTx, frameSent, hv,
        Bool.false_eq_true, if_false]
      rw [Run.bind_assoc]
      refine Run.bind_congr fun r hr => ?_
      have hr' : r.1.dev.tx.vlanNeeded = false := by rw [htx hr]; exact hv
      simp only [takeBack, hr', Bool.false_eq_true, if_false, Run.ok_bind]

theorem countFrame_mem (w : World) : (countFrame w).mem = w.mem := by
  simp only [countFrame]
  split_ifs <;> rfl

theorem countFrame_log (w : World) : (countFrame w).log = w.log := by
  simp only [countFrame]
  split_ifs <;> rfl

theorem countFrame_reg {i : Nat} (hi : i ∉ [Reg.tpt, Reg.gptc, Reg.totl, Reg.toth]) (w : World) :
    (countFrame w).reg i = w.reg i := by
  simp only [List.mem_cons, List.not_mem_nil, or_false, not_or] at hi
  simp only [countFrame]
  split_ifs <;> simp [World.reg, hi]

/-! ## A rule for segments -/

/-- What a relation has to satisfy to hold between the two ends of a segment. -/
structure SegRule (R : World → World → Prop) : Prop where
  refl : ∀ w, R w w
  trans : ∀ {w w' w''}, R w w' → R w' w'' → R w w''
  setTx : ∀ w tp, R w (w.setTx tp)
  send : ∀ w frame, R w (qemuSendPacket w frame)
  receive : ∀ {fuel w iov r}, e1000ReceiveIov fuel w iov = .ok r → R w r.world
  count : ∀ w, R w (countFrame w)

theorem SegRule.e1000SendPacket {R : World → World → Prop} (hR : SegRule R) {fuel : Nat}
    {w w' : World} {frame bytes : List U8}
    (h : E1000.e1000SendPacket fuel w frame = .ok (w', bytes)) : R w w' := by
  simp only [E1000.e1000SendPacket] at h
  split_ifs at h
  · obtain ⟨r, hr, h⟩ := Run.bind_eq_ok.mp h
    cases h
    exact hR.receive hr
  · cases h
    exact hR.send w frame

theorem SegRule.xmitSeg {R : World → World → Prop} (hR : SegRule R) {fuel : Nat}
    {w w' : World} (h : E1000.xmitSeg fuel w = .ok w') : R w w' := by
  rw [xmitSeg_eq] at h
  obtain ⟨⟨w₁, bytes⟩, hsend, h⟩ := Run.bind_eq_ok.mp h
  cases h
  have hsent := hR.trans (hR.setTx w (frameTx w.dev.tx)) (hR.e1000SendPacket hsend)
  exact hR.trans (hR.trans hsent (hR.setTx _ _)) (hR.count _)

/-- What only depends on registers that no counter is in is left to reception. -/
theorem SegRule.of_regs {R : World → World → Prop} (regs : List Nat)
    (hregs : ∀ i ∈ regs, i ∉ [Reg.tpt, Reg.gptc, Reg.totl, Reg.toth])
    (keeps : ∀ {w w'}, (∀ i ∈ regs, w'.reg i = w.reg i) → R w w')
    (trans : ∀ {w w' w''}, R w w' → R w' w'' → R w w'')
    (receive : ∀ {fuel w iov r}, e1000ReceiveIov fuel w iov = .ok r → R w r.world) :
    SegRule R where
  refl _ := keeps fun _ _ => rfl
  trans := trans
  setTx _ _ := keeps fun _ _ => rfl
  send _ _ := keeps fun _ _ => rfl
  receive := receive
  count w := keeps fun i hi => countFrame_reg (hregs i hi) w

/-! ## A rule for transmissions -/

/--
What a relation has to satisfy to hold between the two ends of a transmission;
the list in the middle is that of the `xmit_seg` calls.
-/
structure TxRule (fuel : Nat) (R : World → List World → World → Prop) : Prop where
  refl : ∀ w, R w [] w
  trans : ∀ {w w' w'' cs cs'}, R w cs w' → R w' cs' w'' → R w (cs ++ cs') w''
  setTx : ∀ w tp, R w [] (w.setTx tp)
  noteIde : ∀ w dp, R w [] (noteIde w dp)
  read : ∀ w buf addr n, R w [] (w.emit (.dmaRead buf addr n))
  writeback : ∀ w addr bs, R w [] (w.dmaWrite .txDesc addr bs)
  head : ∀ w v, R w [] (w.setReg Reg.tdh v)
  xmitSeg : ∀ w w', xmitSeg fuel w = .ok w' → R w [w] w'

/-- Between the segments, `TDH` is the only register that is written. -/
theorem TxRule.of_regs {S : World → World → Prop} {fuel : Nat} (regs : List Nat)
    (hregs : Reg.tdh ∉ regs) (keeps : ∀ {w w'}, (∀ i ∈ regs, w'.reg i = w.reg i) → S w w')
    (trans : ∀ {w w' w''}, S w w' → S w' w'' → S w w'')
    (xmitSeg : ∀ {w w'}, E1000.xmitSeg fuel w = .ok w' → S w w') :
    TxRule fuel fun w _ w' => S w w' where
  refl _ := keeps fun _ _ => rfl
  trans := trans
  setTx _ _ := keeps fun _ _ => rfl
  noteIde _ _ := keeps fun _ _ => rfl
  read _ _ _ _ := keeps fun _ _ => rfl
  writeback _ _ _ := keeps fun _ _ => rfl
  head w v := keeps fun i hi =>
    World.reg_setReg_of_ne w Reg.tdh i v (ne_of_mem_of_not_mem hi hregs)
  xmitSeg _ _ := xmitSeg

namespace TxRule

variable {fuel : Nat} {R : World → List World → World → Prop}

theorem tsoBody (hR : TxRule fuel R) {msh : U32} {st : TsoLoop}
    {r : Step TsoLoop World} (h : E1000.tsoBody msh fuel st = .ok r) :
    R st.world (tsoCalls msh st) (tsoWorld r) := by
  simp only [E1000.tsoBody, World.fst_dmaRead, World.snd_dmaRead] at h
  obtain ⟨w, hflush, h⟩ := Run.bind_eq_ok.mp h
  have hread : ∀ n tp, R st.world []
      ((st.world.emit (.dmaRead .txData st.addr n)).setTx tp) := fun n tp =>
    hR.trans (hR.read _ _ _ _) (hR.setTx _ _)
  have hworld : tsoWorld r = w := by
    split_ifs at h <;> cases h <;> rfl
  rw [hworld]
  simp only [flushSegment, decide_eq_true_eq] at hflush
  simp only [tsoCalls, World.fst_dmaRead, World.snd_dmaRead]
  split_ifs at hflush ⊢
  · obtain ⟨w₁, hxmit, hw⟩ := Run.bind_eq_ok.mp hflush
    cases hw
    exact hR.trans (hread _ _) (hR.trans (hR.xmitSeg _ _ hxmit) (hR.setTx _ _))
  · cases hflush
    exact hread _ _

theorem fetchData (hR : TxRule fuel R) {w w' : World} {dp : TxDesc}
    (h : E1000.fetchData fuel w dp = .ok w') : R w (fetchCalls fuel w dp) w' := by
  simp only [E1000.fetchData] at h
  simp only [fetchCalls]
  split_ifs at h ⊢
  · refine loop_trail
      (fun hs st => R w (hs.flatMap (tsoCalls (tsoMsh w.dev.tx))) st.world)
      (fun hs w' => R w (hs.flatMap (tsoCalls (tsoMsh w.dev.tx))) w') ?_ ?_ (hR.refl w) h
    · intro hs st st' hst hb
      rw [List.flatMap_append, List.flatMap_singleton]
      exact hR.trans hst (hR.tsoBody hb)
    · intro hs st w' hst hb
      rw [List.flatMap_append, List.flatMap_singleton]
      exact hR.trans hst (hR.tsoBody hb)
  · cases h
    exact hR.refl w
  · cases h
    exact hR.trans (hR.read _ _ _ _) (hR.setTx _ _)

theorem endPacket (hR : TxRule fuel R) {w w' : World}
    (h : E1000.endPacket fuel w = .ok w') : R w (lastCalls w) w' := by
  obtain ⟨w₁, hsend, h⟩ := Run.bind_eq_ok.mp h
  cases h
  simp only [sendLast] at hsend
  simp only [lastCalls]
  split_ifs at hsend ⊢
  · cases hsend
    exact hR.setTx _ _
  · exact hR.trans (hR.xmitSeg _ _ hsend) (hR.setTx _ _)

theorem beginDesc (hR : TxRule fuel R) (w : World) (dp : TxDesc) :
    R w [] (E1000.beginDesc w dp) :=
  hR.trans (hR.noteIde w dp) (hR.setTx _ _)

theorem processTxDesc (hR : TxRule fuel R) {w w' : World} {dp : TxDesc}
    (h : E1000.processTxDesc fuel w dp = .ok w') : R w (descCalls fuel w dp) w' := by
  simp only [E1000.processTxDesc] at h
  simp only [descCalls]
  split_ifs at h ⊢ with hctx heop
  · cases h
    exact hR.trans (hR.noteIde w dp) (hR.setTx _ _)
  · obtain ⟨w₁, hfetch, h⟩ := Run.bind_eq_ok.mp h
    have hdata : R w (fetchCalls fuel (E1000.beginDesc w dp) dp) w₁ :=
      hR.trans (hR.beginDesc w dp) (hR.fetchData hfetch)
    rw [hfetch]
    exact hR.trans hdata (hR.endPacket h)
  · obtain ⟨w₁, hfetch, h⟩ := Run.bind_eq_ok.mp h
    cases h
    rw [hfetch, List.append_nil]
    exact hR.trans (hR.beginDesc w dp) (hR.fetchData hfetch)

theorem finishDesc (hR : TxRule fuel R) (cause : U32) (base : U64) (dp : TxDesc) (w : World) :
    R w [] (E1000.finishDesc cause base dp w).world := by
  simp only [E1000.finishDesc, txdescWriteback]
  split_ifs
  · exact hR.trans (hR.writeback _ _ _) (hR.head _ _)
  · exact hR.head _ _

theorem xmitBody (hR : TxRule fuel R) {tdhStart : U32} {st st' : XmitLoop}
    {r : Step XmitLoop XmitLoop} (h : E1000.xmitBody tdhStart fuel st = .ok r)
    (hr : r = .next st' ∨ r = .done st') : R st.world (headCalls fuel st) st'.world := by
  simp only [E1000.xmitBody] at h
  simp only [headCalls]
  split_ifs at h ⊢
  · rcases hr with rfl | rfl <;> cases h
    exact hR.refl _
  · obtain ⟨w₁, hproc, h⟩ := Run.bind_eq_ok.mp h
    have hst : st' = E1000.finishDesc st.cause (txHeadAddr st.world)
        (TxDesc.fetch st.world.mem (txHeadAddr st.world)) w₁ := by
      split_ifs at h <;> cases h <;> rcases hr with hr | hr <;> cases hr <;> rfl
    have hdesc := hR.trans (hR.read _ _ _ _) (hR.processTxDesc hproc)
    rw [hst]
    simpa using hR.trans hdesc (hR.finishDesc _ _ _ _)

/-- The ring walk, up to the cause that `start_xmit` raises after it. -/
theorem startXmit (hR : TxRule fuel R) {w w' : World}
    (h : E1000.startXmit fuel w = .ok w') :
    (test (w.reg Reg.tctl) tctlEn = false ∧ w' = w) ∨
    (test (w.reg Reg.tctl) tctlEn = true ∧ ∃ st,
      loop (E1000.xmitBody (w.reg Reg.tdh) fuel) fuel ⟨w, icrTxqe⟩ = .ok st ∧
      R w (xmitCalls fuel w) st.world ∧ w' = setIcs st.world st.cause) := by
  simp only [E1000.startXmit] at h
  split_ifs at h with hen
  · obtain ⟨st, hloop, h⟩ := Run.bind_eq_ok.mp h
    cases h
    refine .inr ⟨hen, st, hloop, ?_, rfl⟩
    rw [xmitCalls, if_pos hen]
    refine loop_trail (fun hs (s : XmitLoop) => R w (hs.flatMap (headCalls fuel)) s.world)
      (fun hs (s : XmitLoop) => R w (hs.flatMap (headCalls fuel)) s.world) ?_ ?_
      (hR.refl w) hloop
    · intro hs s s' hst hb
      rw [List.flatMap_append, List.flatMap_singleton]
      exact hR.trans hst (hR.xmitBody hb (.inl rfl))
    · intro hs s s' hst hb
      rw [List.flatMap_append, List.flatMap_singleton]
      exact hR.trans hst (hR.xmitBody hb (.inr rfl))
  · cases h
    exact .inl ⟨by simpa using hen, rfl⟩

/-! ### Worlds in which a call is made -/

section Calls

variable {S : World → World → Prop}

theorem rel_trans (hS : TxRule fuel fun w _ w' => S w w') {w w' w'' : World} (h : S w w')
    (h' : S w' w'') : S w w'' :=
  @trans fuel _ hS w w' w'' [] [] h h'

theorem mem_tsoCalls (hS : TxRule fuel fun w _ w' => S w w') {msh : U32} {st : TsoLoop}
    {c : World} (hc : c ∈ tsoCalls msh st) : S st.world c := by
  simp only [tsoCalls, World.fst_dmaRead, World.snd_dmaRead, List.mem_ite_nil_right,
    List.mem_singleton] at hc
  obtain ⟨-, rfl⟩ := hc
  exact hS.rel_trans (hS.read _ _ _ _) (hS.setTx _ _)

theorem mem_fetchCalls (hS : TxRule fuel fun w _ w' => S w w') {w c : World} {dp : TxDesc}
    (hc : c ∈ fetchCalls fuel w dp) : S w c := by
  simp only [fetchCalls, List.mem_ite_nil_right, List.mem_flatMap] at hc
  obtain ⟨-, st, hst, hc⟩ := hc
  have hhead : S w st.world := trail_invariant (fun st => S w st.world)
    (fun s s' hs hb => hS.rel_trans hs (hS.tsoBody hb)) (hS.refl w) hst
  exact hS.rel_trans hhead (hS.mem_tsoCalls hc)

theorem mem_descCalls (hS : TxRule fuel fun w _ w' => S w w') {w c : World} {dp : TxDesc}
    (hc : c ∈ descCalls fuel w dp) : S w c := by
  have hbegin : S w (E1000.beginDesc w dp) := hS.beginDesc w dp
  rw [descCalls] at hc
  split at hc
  · cases hc
  · rcases List.mem_append.mp hc with hc | hc
    · exact hS.rel_trans hbegin (hS.mem_fetchCalls hc)
    · cases hfetch : E1000.fetchData fuel (E1000.beginDesc w dp) dp with
      | ok w' =>
          simp only [hfetch, lastCalls, List.mem_ite_nil_right, List.mem_ite_nil_left,
            List.mem_singleton] at hc
          obtain ⟨-, -, rfl⟩ := hc
          exact hS.rel_trans hbegin (hS.fetchData hfetch)
      | fault => simp [hfetch] at hc
      | timeout => simp [hfetch] at hc

/-- A relation that every step keeps leads from the start to each of the calls. -/
theorem mem_xmitCalls (hS : TxRule fuel fun w _ w' => S w w') {w c : World}
    (hc : c ∈ xmitCalls fuel w) : S w c := by
  simp only [xmitCalls, List.mem_ite_nil_right, List.mem_flatMap] at hc
  obtain ⟨-, st, hst, hc⟩ := hc
  have hhead : S w st.world := trail_invariant (fun st => S w st.world)
    (fun s s' hs hb => hS.rel_trans hs (hS.xmitBody hb (.inl rfl)))
    (hS.refl w) hst
  rw [headCalls] at hc
  split_ifs at hc
  · cases hc
  · exact hS.rel_trans (hS.rel_trans hhead (hS.read _ _ _ _)) (hS.mem_descCalls hc)

end Calls

end TxRule

end SE4VM.E1000
