import SE4VM.Foundation.Carry
import SE4VM.E1000.Packet
import SE4VM.E1000.Reach
import SE4VM.E1000.SegmentCalls

/-!
# The statistics counters

Beside the device runs a ledger of unbounded numbers: what was stored and what was
sent since each counter was last cleared.  The registers hold the ledger's numbers,
the octet counters modulo `2 ^ 64` and the packet counters modulo `2 ^ 32`.  A
looped-back frame is on both sides of the ledger.
-/

namespace SE4VM.E1000

open SE4VM.Foundation

/-! ## The ledger -/

structure Ledger where
  tor : Nat
  tot : Nat
  gprc : Nat
  tpr : Nat
  gptc : Nat
  tpt : Nat
  deriving DecidableEq, Repr

/-- A packet that is counted; the sizes are without the frame check sequence. -/
inductive Traffic where
  | stored (size : Nat)
  | sent (size : Nat)
  deriving DecidableEq, Repr

namespace Ledger

def empty : Ledger := ⟨0, 0, 0, 0, 0, 0⟩

def count (l : Ledger) : Traffic → Ledger
  | .stored size => { l with tor := l.tor + (size + 4), gprc := l.gprc + 1, tpr := l.tpr + 1 }
  | .sent size => { l with tot := l.tot + size, gptc := l.gptc + 1, tpt := l.tpt + 1 }

/-- The high half of an octet counter stands for the whole of it. -/
def clear (l : Ledger) (index : Nat) : Ledger :=
  if index = Reg.torh then { l with tor := 0 }
  else if index = Reg.toth then { l with tot := 0 }
  else if index = Reg.gprc then { l with gprc := 0 }
  else if index = Reg.tpr then { l with tpr := 0 }
  else if index = Reg.gptc then { l with gptc := 0 }
  else if index = Reg.tpt then { l with tpt := 0 }
  else l

end Ledger

def counterRegs : List Nat :=
  [Reg.torl, Reg.torh, Reg.totl, Reg.toth, Reg.gprc, Reg.tpr, Reg.gptc, Reg.tpt]

/-- The counters hold what the ledger says. -/
structure CountersMatch (l : Ledger) (r : Nat → U32) : Prop where
  tor : wordPair (r Reg.torh) (r Reg.torl) = l.tor % 2 ^ 64
  tot : wordPair (r Reg.toth) (r Reg.totl) = l.tot % 2 ^ 64
  gprc : (r Reg.gprc).toNat = l.gprc % 2 ^ 32
  tpr : (r Reg.tpr).toNat = l.tpr % 2 ^ 32
  gptc : (r Reg.gptc).toNat = l.gptc % 2 ^ 32
  tpt : (r Reg.tpt).toNat = l.tpt % 2 ^ 32

theorem CountersMatch.congr {l : Ledger} {r r' : Nat → U32} (h : ∀ i ∈ counterRegs, r' i = r i)
    (hr : CountersMatch l r) : CountersMatch l r' := by
  simp only [counterRegs, List.forall_mem_cons] at h
  obtain ⟨htorl, htorh, htotl, htoth, hgprc, htpr, hgptc, htpt, -⟩ := h
  constructor
  · rw [htorh, htorl, hr.tor]
  · rw [htoth, htotl, hr.tot]
  · rw [hgprc, hr.gprc]
  · rw [htpr, hr.tpr]
  · rw [hgptc, hr.gptc]
  · rw [htpt, hr.tpt]

theorem toNat_succ_of_eq_mod {v : U32} {n : Nat} (h : v.toNat = n % 2 ^ 32) :
    (v + 1).toNat = (n + 1) % 2 ^ 32 := by
  rw [BitVec.toNat_add, h, show (1 : U32).toNat = 1 from rfl]
  omega

/-! ## One packet -/

section Received

variable (s : E1000State) (size : Nat)

theorem countReceived_gprc :
    (countReceived s size).macReg Reg.gprc = s.macReg Reg.gprc + 1 := by
  simp only [countReceived]
  split_ifs <;> simp

theorem countReceived_tpr :
    (countReceived s size).macReg Reg.tpr = s.macReg Reg.tpr + 1 := by
  simp only [countReceived]
  split_ifs <;> simp

theorem countReceived_tor (hsize : size + 4 < 2 ^ 32) :
    wordPair ((countReceived s size).macReg Reg.torh) ((countReceived s size).macReg Reg.torl) =
      (wordPair (s.macReg Reg.torh) (s.macReg Reg.torl) + (size + 4)) % 2 ^ 64 := by
  rw [← wordPair_add _ _ hsize]
  simp only [countReceived]
  split_ifs <;> simp_all

end Received

theorem countersMatch_countReceived {l : Ledger} {s : E1000State} {size : Nat}
    (hsize : size + 4 < 2 ^ 32) (h : CountersMatch l s.macReg) :
    CountersMatch (l.count (.stored size)) (countReceived s size).macReg := by
  have hother : ∀ i ∈ [Reg.totl, Reg.toth, Reg.gptc, Reg.tpt],
      (countReceived s size).macReg i = s.macReg i := fun i hi =>
    countReceived_macReg s size ((by decide : ∀ i ∈ [Reg.totl, Reg.toth, Reg.gptc, Reg.tpt],
      i ∉ [Reg.gprc, Reg.tpr, Reg.torl, Reg.torh]) i hi)
  constructor
  · rw [countReceived_tor s size hsize, h.tor]
    exact Nat.mod_add_mod _ _ _
  · rw [hother _ (by decide), hother _ (by decide)]
    exact h.tot
  · rw [countReceived_gprc]
    exact toNat_succ_of_eq_mod h.gprc
  · rw [countReceived_tpr]
    exact toNat_succ_of_eq_mod h.tpr
  · rw [hother _ (by decide)]
    exact h.gptc
  · rw [hother _ (by decide)]
    exact h.tpt

section Sent

variable (w : World)

theorem countFrame_gptc :
    (countFrame w).dev.macReg Reg.gptc = w.dev.macReg Reg.gptc + 1 := by
  simp only [countFrame]
  split_ifs <;> simp [World.reg]

theorem countFrame_tpt : (countFrame w).dev.macReg Reg.tpt = w.dev.macReg Reg.tpt + 1 := by
  simp only [countFrame]
  split_ifs <;> simp [World.reg]

theorem countFrame_tot :
    wordPair ((countFrame w).dev.macReg Reg.toth) ((countFrame w).dev.macReg Reg.totl) =
      (wordPair (w.dev.macReg Reg.toth) (w.dev.macReg Reg.totl) +
        w.dev.tx.size.toNat) % 2 ^ 64 := by
  have hsize := w.dev.tx.size.isLt
  have hwidth : w.dev.tx.size.setWidth 32 = BitVec.ofNat 32 w.dev.tx.size.toNat := by
    rw [BitVec.ofNat_toNat]
  rw [← wordPair_add _ _ (by omega), ← hwidth]
  by_cases hcarry : w.dev.macReg Reg.totl + w.dev.tx.size.setWidth 32 < w.dev.macReg Reg.totl
  · simp [countFrame, World.reg, if_pos hcarry]
  · simp [countFrame, World.reg, if_neg hcarry]

theorem countFrame_received {i : Nat} (hi : i ∈ [Reg.torl, Reg.torh, Reg.gprc, Reg.tpr]) :
    (countFrame w).dev.macReg i = w.dev.macReg i :=
  countFrame_reg ((by decide : ∀ i ∈ [Reg.torl, Reg.torh, Reg.gprc, Reg.tpr],
    i ∉ [Reg.tpt, Reg.gptc, Reg.totl, Reg.toth]) i hi) w

end Sent

theorem countersMatch_countFrame {l : Ledger} {w : World} (h : CountersMatch l w.dev.macReg) :
    CountersMatch (l.count (.sent w.dev.tx.size.toNat)) (countFrame w).dev.macReg := by
  constructor
  · rw [countFrame_received w (by decide), countFrame_received w (by decide)]
    exact h.tor
  · rw [countFrame_tot, h.tot]
    exact Nat.mod_add_mod _ _ _
  · rw [countFrame_received w (by decide)]
    exact h.gprc
  · rw [countFrame_received w (by decide)]
    exact h.tpr
  · rw [countFrame_gptc]
    exact toNat_succ_of_eq_mod h.gptc
  · rw [countFrame_tpt]
    exact toNat_succ_of_eq_mod h.tpt

/-! ## The packets of a step -/

/-- A packet that is let in and not refused for lack of room is stored. -/
def storedBy (fuel : Nat) (w : World) (iov : Iov) : List Traffic :=
  match e1000ReceiveIov fuel w iov with
  | .ok r =>
      if accepted w.dev iov.flatten ∧ r.ret ≠ -1 then
        [.stored (frameBytes w.dev iov.flatten).length]
      else []
  | _ => []

/-- The frame of a call of `xmit_seg`, after what it leaves in the receive ring. -/
def segTraffic (fuel : Nat) (w : World) : List Traffic :=
  (if test (w.dev.phyReg Phy.ctrl) miiCrLoopback then
    storedBy fuel (w.setTx (frameTx w.dev.tx)) [frameSent w.dev.tx] else []) ++
  [.sent w.dev.tx.size.toNat]

def tctlWritten (w : World) (index : Nat) (val : U32) : World :=
  let w := w.setReg index val
  w.setReg Reg.tdt (w.reg Reg.tdt &&& 0xffff#32)

def traffic (fuel : Nat) (w : World) : Op → List Traffic
  | .receive iov => storedBy fuel w iov
  | .mmioWrite addr val =>
      if macregWriteops (mmioIndex addr) = some .setTctl then
        (xmitCalls fuel (tctlWritten w (mmioIndex addr) (val.setWidth 32))).flatMap
          (segTraffic fuel)
      else []
  | _ => []

def Ledger.after (fuel : Nat) (w : World) (op : Op) (l : Ledger) : Ledger :=
  match op with
  | .mmioRead addr => l.clear (mmioIndex addr)
  | .reset => .empty
  | op => (traffic fuel w op).foldl Ledger.count l

/-- A run of the device with its ledger, from a reset on. -/
inductive Accounted : Ledger → World → Prop
  | reset (w : World) : Accounted .empty (e1000Reset w)
  | step {l : Ledger} {fuel : Nat} {w w' : World} {op : Op} {reply : Reply} :
      Accounted l w → step fuel w op = .ok (w', reply) → Accounted (l.after fuel w op) w'

/-! ## Tallies -/

/-- From `w` to `w'` the counters count `ts`. -/
def Tallies (ts : List Traffic) (w w' : World) : Prop :=
  ∀ l, CountersMatch l w.dev.macReg → CountersMatch (ts.foldl Ledger.count l) w'.dev.macReg

namespace Tallies

variable {ts ts' : List Traffic} {w w' w'' : World}

theorem of_reg (h : ∀ i ∈ counterRegs, w'.reg i = w.reg i) : Tallies [] w w' :=
  fun _ hl => hl.congr h

theorem trans (h : Tallies ts w w') (h' : Tallies ts' w' w'') : Tallies (ts ++ ts') w w'' := by
  intro l hl
  rw [List.foldl_append]
  exact h' _ (h l hl)

theorem of_frame {regs : List Nat} {ev : Event → Bool} (h : Frame regs ev w w')
    (hregs : ∀ i ∈ counterRegs, i ∉ regs) : Tallies [] w w' :=
  of_reg fun i hi => h.reg i (hregs i hi)

end Tallies

theorem setIcs_tallies (w : World) (val : U32) : Tallies [] w (setIcs w val) :=
  .of_frame (setInterruptCause_frame w _) (by decide)

/-! ## Reception -/

/-- Buffers are multiples of 256 bytes while reception is enabled. -/
def AlignedBuffers (w : World) : Prop :=
  test (w.reg Reg.rctl) rctlEn = true → w.dev.rxbufSize.toNat % 256 = 0

theorem rxbufsize_mod (v : U32) : rxbufsize v % 256 = 0 := by
  simp only [rxbufsize]
  split_ifs <;> rfl

theorem SinceReset.alignedBuffers {w : World} (h : SinceReset w) : AlignedBuffers w := by
  intro hen
  rw [h.regInv.toNat_rxbufSize hen]
  exact rxbufsize_mod _

/-- The capacity check leaves room for four more bytes in a word. -/
theorem add_four_lt_of_hasRxbufs {s : E1000State} {n : Nat} (h : e1000HasRxbufs s n = true)
    (hmod : s.rxbufSize.toNat % 256 = 0) : n + 4 < 2 ^ 32 := by
  have hroom : ∀ d : U32, n ≤ (d * s.rxbufSize).toNat → n + 4 < 2 ^ 32 := by
    intro d hle
    have hlt := (d * s.rxbufSize).isLt
    have hprod : (d * s.rxbufSize).toNat % 256 = 0 := by
      rw [BitVec.toNat_mul, Nat.mod_mod_of_dvd _ (by decide), Nat.mul_mod, hmod,
        Nat.mul_zero, Nat.zero_mod]
    omega
  have hlt := s.rxbufSize.isLt
  simp only [e1000HasRxbufs] at h
  split_ifs at h
  · omega
  · exact hroom _ (of_decide_eq_true h)
  · exact hroom _ (of_decide_eq_true h)

theorem storePacket_tallies {fuel : Nat} {w : World} {p : RxPacket} {r : Received}
    (hmod : w.dev.rxbufSize.toNat % 256 = 0) (h : storePacket fuel w p = .ok r) :
    Tallies (if r.ret ≠ -1 then [.stored p.size] else []) w r.world := by
  simp only [storePacket] at h
  split_ifs at h with hroom
  · obtain ⟨⟨wrapped, w₁⟩, hloop, hr⟩ := Run.bind_eq_ok.mp h
    have hdma : Tallies [] w w₁ := .of_frame (rxLoop_frame hloop).1 (by decide)
    cases wrapped with
    | true =>
        cases hr
        exact hdma.trans (setIcs_tallies w₁ _)
    | false =>
        cases hr
        have hsize : p.size + 4 < 2 ^ 32 :=
          lt_of_le_of_lt (by omega) (add_four_lt_of_hasRxbufs hroom hmod)
        have hcount : Tallies [.stored p.size] w₁
            { w₁ with dev := countReceived w₁.dev p.size } :=
          fun l hl => countersMatch_countReceived hsize hl
        have hret : (p.size : Int) ≠ -1 := by omega
        rw [if_pos hret]
        exact hdma.trans (hcount.trans (setIcs_tallies _ _))
  · cases h
    exact setIcs_tallies w _

theorem receive_tallies {fuel : Nat} {w : World} {iov : Iov} {r : Received}
    (hbuf : AlignedBuffers w) (h : e1000ReceiveIov fuel w iov = .ok r) :
    Tallies (storedBy fuel w iov) w r.world := by
  have hne : iov ≠ [] := by
    rintro rfl
    cases h
  rw [storedBy, h]
  cases hacc : accepted w.dev iov.flatten with
  | false =>
      rw [receive_refused hne hacc] at h
      cases h
      exact .of_reg fun _ _ => rfl
  | true =>
      obtain ⟨p, -, hcarries, hrun⟩ := receive_accepted hne hacc
      have hen : test (w.reg Reg.rctl) rctlEn = true := by
        simp only [accepted, Bool.and_eq_true] at hacc
        exact hacc.1.1.2
      rw [hrun] at h
      simpa [hcarries.size] using storePacket_tallies (hbuf hen) h

/-! ## Transmission -/

/-- The counters count `ts`, and the receive buffers are as they were. -/
def SegTallies (ts : List Traffic) (w w' : World) : Prop :=
  w'.reg Reg.rctl = w.reg Reg.rctl ∧ w'.dev.rxbufSize = w.dev.rxbufSize ∧
    (AlignedBuffers w → Tallies ts w w')

theorem SegTallies.alignedBuffers {ts : List Traffic} {w w' : World} (h : SegTallies ts w w')
    (hbuf : AlignedBuffers w) : AlignedBuffers w' := by
  intro hen
  rw [h.2.1]
  rw [h.1] at hen
  exact hbuf hen

theorem SegTallies.trans {ts ts' : List Traffic} {w w' w'' : World} (h : SegTallies ts w w')
    (h' : SegTallies ts' w' w'') : SegTallies (ts ++ ts') w w'' :=
  ⟨h'.1.trans h.1, h'.2.1.trans h.2.1, fun hbuf =>
    (h.2.2 hbuf).trans (h'.2.2 (h.alignedBuffers hbuf))⟩

theorem SegTallies.of_eq {w w' : World} (hrctl : w'.reg Reg.rctl = w.reg Reg.rctl)
    (hbuf : w'.dev.rxbufSize = w.dev.rxbufSize)
    (h : ∀ i ∈ counterRegs, w'.reg i = w.reg i) : SegTallies [] w w' :=
  ⟨hrctl, hbuf, fun _ => .of_reg h⟩

theorem countFrame_segTallies (w : World) :
    SegTallies [.sent w.dev.tx.size.toNat] w (countFrame w) := by
  obtain ⟨hframe, -⟩ := countFrame_frame w
  exact ⟨hframe.reg _ (by decide), hframe.rxbufSize, fun _ _ hl => countersMatch_countFrame hl⟩

theorem frameTx_size (tp : E1000Tx) : (frameTx tp).size = tp.size := by
  obtain ⟨vlan, data, frames, hedit⟩ := finishFrame_edited tp
  simp only [frameTx]
  split_ifs <;> simp [insertVlan, hedit]

theorem takeBack_size (tp : E1000Tx) (bytes : List U8) : (takeBack tp bytes).size = tp.size := by
  rw [takeBack]
  split_ifs <;> rfl

theorem xmitSeg_tallies {fuel : Nat} {w w' : World} (h : xmitSeg fuel w = .ok w') :
    SegTallies (segTraffic fuel w) w w' := by
  rw [xmitSeg_eq] at h
  obtain ⟨⟨w₁, bytes⟩, hsend, h⟩ := Run.bind_eq_ok.mp h
  cases h
  obtain ⟨hframe, htx⟩ := e1000SendPacket_frame hsend
  have hstart : SegTallies [] w (w.setTx (frameTx w.dev.tx)) := .of_eq rfl rfl fun _ _ => rfl
  have hsent : SegTallies (if test (w.dev.phyReg Phy.ctrl) miiCrLoopback then
      storedBy fuel (w.setTx (frameTx w.dev.tx)) [frameSent w.dev.tx] else [])
      (w.setTx (frameTx w.dev.tx)) w₁ := by
    refine ⟨hframe.reg _ (by decide), hframe.rxbufSize, fun hbuf => ?_⟩
    rw [e1000SendPacket] at hsend
    cases hloop : test (w.dev.phyReg Phy.ctrl) miiCrLoopback with
    | true =>
        rw [World.dev_setTx, if_pos hloop] at hsend
        obtain ⟨r, hr, hsend⟩ := Run.bind_eq_ok.mp hsend
        cases hsend
        exact receive_tallies hbuf hr
    | false =>
        rw [World.dev_setTx, if_neg (by simp [hloop])] at hsend
        cases hsend
        exact .of_reg fun _ _ => rfl
  have hback : SegTallies [] w₁ (w₁.setTx (takeBack w₁.dev.tx bytes)) :=
    .of_eq rfl rfl fun _ _ => rfl
  have hcount := countFrame_segTallies (w₁.setTx (takeBack w₁.dev.tx bytes))
  have hsize : (takeBack w₁.dev.tx bytes).size = w.dev.tx.size := by
    rw [takeBack_size, htx]
    exact frameTx_size w.dev.tx
  rw [World.dev_setTx, hsize] at hcount
  exact hstart.trans (hsent.trans (hback.trans hcount))

theorem segTallies_txRule (fuel : Nat) :
    TxRule fuel fun w cs w' => SegTallies (cs.flatMap (segTraffic fuel)) w w' where
  refl w := .of_eq rfl rfl fun _ _ => rfl
  trans h h' := by
    rw [List.flatMap_append]
    exact h.trans h'
  setTx w tp := .of_eq rfl rfl fun _ _ => rfl
  noteIde w dp := .of_eq rfl rfl fun _ _ => rfl
  read w buf addr n := .of_eq rfl rfl fun _ _ => rfl
  writeback w addr bs := .of_eq rfl rfl fun _ _ => rfl
  head w v := by
    refine .of_eq (World.reg_setReg_of_ne _ _ _ _ (by decide)) rfl fun i hi => ?_
    exact World.reg_setReg_of_ne _ _ _ _ ((by decide : ∀ i ∈ counterRegs, i ≠ Reg.tdh) i hi)
  xmitSeg w w' h := by
    rw [List.flatMap_singleton]
    exact xmitSeg_tallies h

theorem startXmit_tallies {fuel : Nat} {w w' : World} (hbuf : AlignedBuffers w)
    (h : startXmit fuel w = .ok w') :
    Tallies ((xmitCalls fuel w).flatMap (segTraffic fuel)) w w' := by
  rcases (segTallies_txRule fuel).startXmit h with ⟨hen, rfl⟩ | ⟨-, st, -, hst, rfl⟩
  · rw [xmitCalls, if_neg (by simp [hen])]
    exact .of_reg fun _ _ => rfl
  · rw [← List.append_nil (List.flatMap _ _)]
    exact (hst.2.2 hbuf).trans (setIcs_tallies _ _)

/-! ## Steps -/

theorem not_mem_handlerRegs_of_counter {i : Nat} (hi : i ∈ counterRegs) : i ∉ handlerRegs :=
  (by decide : ∀ i ∈ counterRegs, i ∉ handlerRegs) i hi

theorem mmioWrite_tallies {fuel : Nat} {w w' : World} {addr val : U64}
    (hbuf : AlignedBuffers w) (h : e1000MmioWrite fuel w addr val = .ok w') :
    Tallies (traffic fuel w (.mmioWrite addr val)) w w' := by
  rw [e1000MmioWrite] at h
  rw [traffic]
  cases hop : macregWriteops (mmioIndex addr) with
  | none =>
      rw [hop] at h
      cases h
      exact .of_reg fun _ _ => rfl
  | some op =>
      rw [hop] at h
      have hne : ∀ i ∈ counterRegs, i ≠ mmioIndex addr := by
        rintro i hi rfl
        rw [(by decide : ∀ i ∈ counterRegs, macregWriteops i = none) _ hi] at hop
        cases hop
      by_cases htctl : op = .setTctl
      · subst htctl
        have hset : Tallies [] w (tctlWritten w (mmioIndex addr) (val.setWidth 32)) := by
          refine .of_reg fun i hi => ?_
          rw [tctlWritten, World.reg_setReg_of_ne _ _ _ _
            ((by decide : ∀ i ∈ counterRegs, i ≠ Reg.tdt) i hi),
            World.reg_setReg_of_ne _ _ _ _ (hne i hi)]
        have hindex : Reg.rctl ≠ mmioIndex addr := by
          intro heq
          rw [← heq] at hop
          cases hop
        have hbuf' : AlignedBuffers (tctlWritten w (mmioIndex addr) (val.setWidth 32)) := by
          intro hen
          rw [tctlWritten, World.reg_setReg_of_ne _ _ _ _ (by decide),
            World.reg_setReg_of_ne _ _ _ _ hindex] at hen
          exact hbuf hen
        rw [if_pos rfl]
        exact hset.trans (startXmit_tallies hbuf' h)
      · rw [if_neg (by simp [htctl])]
        exact .of_reg fun i hi => runWriteOp_reg (not_mem_handlerRegs_of_counter hi)
          (fun heq => absurd heq htctl) (hne i hi) h

theorem Ledger.clear_of_not_mem {l : Ledger} {index : Nat}
    (h : index ∉ [Reg.torh, Reg.toth, Reg.gprc, Reg.tpr, Reg.gptc, Reg.tpt]) :
    l.clear index = l := by
  simp only [List.mem_cons, List.not_mem_nil, or_false, not_or] at h
  simp [Ledger.clear, h]

theorem runReadOp_counter {op : ReadOp} (w : World) {index : Nat}
    (hop : macregReadops index = some op)
    (h : index ∉ [Reg.torh, Reg.toth, Reg.gprc, Reg.tpr, Reg.gptc, Reg.tpt]) {i : Nat}
    (hi : i ∈ counterRegs) : (runReadOp op w index).1.reg i = w.reg i := by
  simp only [List.mem_cons, List.not_mem_nil, or_false, not_or] at h
  cases op with
  | macReadClr4 =>
      have hmem := mem_of_macReadClr4 hop
      simp [h] at hmem
  | macReadClr8 =>
      have hmem := eq_of_macReadClr8 hop
      simp [h] at hmem
  | macIcrRead => exact setInterruptCause_handler (not_mem_handlerRegs_of_counter hi) w 0
  | macReadreg => rfl
  | getEecd => rfl
  | flashEerdRead => rfl

theorem wordPair_zero : wordPair 0 0 = 0 % 2 ^ 64 := by decide

theorem countersMatch_read {l : Ledger} {w : World} (addr : U64)
    (h : CountersMatch l w.dev.macReg) :
    CountersMatch (l.clear (mmioIndex addr)) (e1000MmioRead w addr).1.dev.macReg := by
  rw [e1000MmioRead]
  generalize mmioIndex addr = index
  obtain ⟨htor, htot, hgprc, htpr, hgptc, htpt⟩ := h
  by_cases hclear : index ∈ [Reg.torh, Reg.toth, Reg.gprc, Reg.tpr, Reg.gptc, Reg.tpt]
  · simp only [List.mem_cons, List.not_mem_nil, or_false] at hclear
    rcases hclear with rfl | rfl | rfl | rfl | rfl | rfl
    · exact ⟨wordPair_zero, htot, hgprc, htpr, hgptc, htpt⟩
    · exact ⟨htor, wordPair_zero, hgprc, htpr, hgptc, htpt⟩
    · exact ⟨htor, htot, rfl, htpr, hgptc, htpt⟩
    · exact ⟨htor, htot, hgprc, rfl, hgptc, htpt⟩
    · exact ⟨htor, htot, hgprc, htpr, rfl, htpt⟩
    · exact ⟨htor, htot, hgprc, htpr, hgptc, rfl⟩
  · rw [Ledger.clear_of_not_mem hclear]
    split
    · next op hop =>
        exact CountersMatch.congr (fun i hi => runReadOp_counter w hop hclear hi)
          ⟨htor, htot, hgprc, htpr, hgptc, htpt⟩
    · exact ⟨htor, htot, hgprc, htpr, hgptc, htpt⟩

theorem countersMatch_reset (w : World) : CountersMatch .empty (e1000Reset w).dev.macReg := by
  have hzero : ∀ i ∈ counterRegs, (e1000Reset w).dev.macReg i = 0 := by
    intro i hi
    have hne := (by decide : ∀ i ∈ counterRegs, i ≠ Reg.ra ∧ i ≠ Reg.ra + 1 ∧
      i ≠ Reg.status ∧ macRegInit i = 0) i hi
    rw [e1000Reset_macReg w hne.1 hne.2.1 hne.2.2.1, hne.2.2.2]
  exact CountersMatch.congr (r := fun _ => 0) hzero ⟨rfl, rfl, rfl, rfl, rfl, rfl⟩

theorem step_countersMatch {fuel : Nat} {w w' : World} {op : Op} {reply : Reply} {l : Ledger}
    (hbuf : AlignedBuffers w) (h : step fuel w op = .ok (w', reply))
    (hl : CountersMatch l w.dev.macReg) : CountersMatch (l.after fuel w op) w'.dev.macReg := by
  cases op with
  | mmioRead addr =>
      cases h
      exact countersMatch_read addr hl
  | mmioWrite addr val =>
      obtain ⟨w₁, hw, h⟩ := Run.bind_eq_ok.mp h
      cases h
      exact mmioWrite_tallies hbuf hw l hl
  | receive iov =>
      obtain ⟨r, hr, h⟩ := Run.bind_eq_ok.mp h
      cases h
      exact receive_tallies hbuf hr l hl
  | linkStatus down =>
      cases h
      exact hl.congr fun i hi =>
        e1000SetLinkStatus_reg (not_mem_handlerRegs_of_counter hi) w down
  | autonegTimer =>
      cases h
      exact hl.congr fun i hi => e1000AutonegTimer_reg (not_mem_handlerRegs_of_counter hi) w
  | mitTimer =>
      cases h
      exact hl.congr fun i hi =>
        setInterruptCause_handler (not_mem_handlerRegs_of_counter hi) _ _
  | preSave =>
      cases h
      exact hl.congr fun i hi => e1000PreSave_reg (not_mem_handlerRegs_of_counter hi) w
  | reset =>
      cases h
      exact countersMatch_reset w
  | guestStore mem =>
      cases h
      exact hl

/-! ## Runs -/

theorem Accounted.sinceReset {l : Ledger} {w : World} (h : Accounted l w) : SinceReset w := by
  induction h with
  | reset w => exact .reset w
  | step _ hs ih => exact .step ih hs

theorem Accounted.countersMatch {l : Ledger} {w : World} (h : Accounted l w) :
    CountersMatch l w.dev.macReg := by
  induction h with
  | reset w => exact countersMatch_reset w
  | step hrun hs ih => exact step_countersMatch hrun.sinceReset.alignedBuffers hs ih

theorem storePacket_counters {fuel : Nat} {w : World} {p : RxPacket} {r : Received}
    (h : storePacket fuel w p = .ok r) (hret : r.ret = -1) :
    ∀ i ∈ counterRegs, r.world.reg i = w.reg i := by
  have hics : ∀ (w : World) (val : U32), ∀ i ∈ counterRegs, (setIcs w val).reg i = w.reg i :=
    fun w val i hi => setInterruptCause_handler (not_mem_handlerRegs_of_counter hi) w _
  simp only [storePacket] at h
  split_ifs at h
  · obtain ⟨⟨wrapped, w₁⟩, hloop, hr⟩ := Run.bind_eq_ok.mp h
    have hdma : ∀ i ∈ counterRegs, w₁.reg i = w.reg i := fun i hi =>
      (rxLoop_frame hloop).1.reg i ((by decide : ∀ i ∈ counterRegs, i ∉ [Reg.rdh]) i hi)
    cases wrapped with
    | true =>
        cases hr
        exact fun i hi => (hics w₁ _ i hi).trans (hdma i hi)
    | false =>
        cases hr
        have hsize : (p.size : Int) = -1 := hret
        omega
  · cases h
    exact hics w _

theorem receive_counters {fuel : Nat} {w : World} {iov : Iov} {r : Received}
    (h : e1000ReceiveIov fuel w iov = .ok r)
    (hnot : r.ret = -1 ∨ accepted w.dev iov.flatten = false) :
    ∀ i ∈ counterRegs, r.world.reg i = w.reg i := by
  have hne : iov ≠ [] := by
    rintro rfl
    cases h
  cases hacc : accepted w.dev iov.flatten with
  | false =>
      rw [receive_refused hne hacc] at h
      cases h
      exact fun _ _ => rfl
  | true =>
      obtain ⟨p, -, -, hrun⟩ := receive_accepted hne hacc
      rw [hrun] at h
      exact storePacket_counters h (hnot.resolve_right (by simp [hacc]))

/--
The counters are those of the ledger, a read of a high half clears both halves, and
a packet that is not stored counts nowhere.
-/
theorem counters_of_run {l : Ledger} {w : World} (h : Accounted l w) :
    CountersMatch l w.dev.macReg ∧
    (∀ addr, mmioIndex addr = Reg.torh →
      (e1000MmioRead w addr).1.reg Reg.torh = 0 ∧ (e1000MmioRead w addr).1.reg Reg.torl = 0) ∧
    (∀ addr, mmioIndex addr = Reg.toth →
      (e1000MmioRead w addr).1.reg Reg.toth = 0 ∧ (e1000MmioRead w addr).1.reg Reg.totl = 0) ∧
    (∀ fuel iov r, e1000ReceiveIov fuel w iov = .ok r →
      r.ret = -1 ∨ accepted w.dev iov.flatten = false →
      ∀ i ∈ counterRegs, r.world.reg i = w.reg i) := by
  refine ⟨h.countersMatch, fun addr haddr => ?_, fun addr haddr => ?_,
    fun fuel iov r hr hnot => receive_counters hr hnot⟩
  · rw [e1000MmioRead, haddr]
    exact ⟨rfl, rfl⟩
  · rw [e1000MmioRead, haddr]
    exact ⟨rfl, rfl⟩

/-- A ring of eight slots whose first descriptor is a whole packet of two bytes. -/
def countingRing : World :=
  setDlen (powerOn (fun _ => 0) 0 false ((Memory.blank.write 8 [2]).write 11 [1]))
    Reg.tdlen 128

/-- The transmitter is enabled, then the tail is moved past the packet. -/
theorem accounted_packet : ∃ w, Accounted ⟨0, 2, 0, 0, 1, 1⟩ w := by
  have hring : Accounted .empty countingRing :=
    @Accounted.step _ 0 _ countingRing (.mmioWrite 0x3808 128) .none (.reset _) rfl
  obtain ⟨w₁, h₁⟩ : ∃ w, step 3 countingRing (.mmioWrite 0x400 2) = .ok (w, .none) := ⟨_, rfl⟩
  obtain ⟨w₂, h₂⟩ : ∃ w, step 3 w₁ (.mmioWrite 0x3818 1) = .ok (w, .none) := by
    cases h₁
    exact ⟨_, rfl⟩
  have h := (hring.step h₁).step h₂
  refine ⟨w₂, ?_⟩
  cases h₁
  exact h

theorem counters_of_run_packet :
    ∃ w : World, Accounted ⟨0, 2, 0, 0, 1, 1⟩ w ∧
      wordPair (w.reg Reg.toth) (w.reg Reg.totl) = 2 ∧ (w.reg Reg.gptc).toNat = 1 := by
  obtain ⟨w, h⟩ := accounted_packet
  obtain ⟨hmatch, -⟩ := counters_of_run h
  exact ⟨w, h, hmatch.tot, hmatch.gptc⟩

end SE4VM.E1000
