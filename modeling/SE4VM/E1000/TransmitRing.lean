import SE4VM.E1000.Frame

/-!
# The walk over the transmit ring

`startXmit` leaves its loop when the head meets the tail or its own starting
value.  The heads it passes are those of a ring of `slots TDLEN` positions, so
whether it leaves at all depends on which of the two values lie in that ring.
-/

namespace SE4VM.E1000

open SE4VM.Foundation

/-- The `process_tx_desc` call at this loop head returns, if there is one. -/
def DescReturns (w : World) : Prop :=
  w.reg Reg.tdh ≠ w.reg Reg.tdt →
    ∃ fuel w', processTxDesc fuel (w.emit (.dmaRead .txDesc (txHeadAddr w) descBytes))
      (TxDesc.fetch w.mem (txHeadAddr w)) = .ok w'

def XmitReturns (w : World) : Prop := ∃ fuel w', startXmit fuel w = .ok w'

/-! ## One descriptor -/

structure Advanced (w w' : World) : Prop where
  tdh : w'.reg Reg.tdh = ringNext (w.reg Reg.tdlen) (w.reg Reg.tdh)
  tdt : w'.reg Reg.tdt = w.reg Reg.tdt
  tdlen : w'.reg Reg.tdlen = w.reg Reg.tdlen

theorem txdescWriteback_reg (w : World) (base : U64) (dp : TxDesc) (i : Nat) :
    (txdescWriteback w base dp).1.reg i = w.reg i := by
  simp only [txdescWriteback]
  split_ifs <;> rfl

theorem advanced_finishDesc {fuel : Nat} {w w' : World} {dp : TxDesc} {e : Event}
    (cause : U32) (base : U64) (h : processTxDesc fuel (w.emit e) dp = .ok w') :
    Advanced w (finishDesc cause base dp w').world := by
  have hframe := processTxDesc_frame h
  have hreg : ∀ i, i ∉ txRegs → w'.reg i = w.reg i := fun i hi => hframe.reg i hi
  have hh := hreg Reg.tdh (by decide)
  have ht := hreg Reg.tdt (by decide)
  have hl := hreg Reg.tdlen (by decide)
  simp only [finishDesc]
  refine ⟨?_, ?_, ?_⟩
  · rw [World.reg_setReg_self, txdescWriteback_reg, txdescWriteback_reg, hh, hl]
  · rw [World.reg_setReg_of_ne _ _ _ _ (by decide), txdescWriteback_reg, ht]
  · rw [World.reg_setReg_of_ne _ _ _ _ (by decide), txdescWriteback_reg, hl]

def xmitNext (tdhStart : U32) (st : XmitLoop) : Step XmitLoop XmitLoop :=
  if st.world.reg Reg.tdh = tdhStart then .done st else .next st

theorem xmitBody_cases {tdhStart : U32} {fuel : Nat} {st : XmitLoop}
    {r : Step XmitLoop XmitLoop} (h : xmitBody tdhStart fuel st = .ok r) :
    (st.world.reg Reg.tdh = st.world.reg Reg.tdt ∧ r = .done st) ∨
    (st.world.reg Reg.tdh ≠ st.world.reg Reg.tdt ∧
      ∃ st', Advanced st.world st'.world ∧ r = xmitNext tdhStart st') := by
  simp only [xmitBody] at h
  split_ifs at h with hempty
  · cases h
    exact .inl ⟨hempty, rfl⟩
  · obtain ⟨w, hproc, h⟩ := Run.bind_eq_ok.mp h
    exact .inr ⟨hempty, _, advanced_finishDesc _ _ hproc, (Run.ok.inj h).symm⟩

theorem xmitBody_progress (tdhStart : U32) {st : XmitLoop}
    (hne : st.world.reg Reg.tdh ≠ st.world.reg Reg.tdt) (hret : DescReturns st.world) :
    ∃ fuel st', Advanced st.world st'.world ∧
      xmitBody tdhStart fuel st = .ok (xmitNext tdhStart st') := by
  obtain ⟨fuel, w, hproc⟩ := hret hne
  refine ⟨fuel, _, advanced_finishDesc st.cause (txHeadAddr st.world) hproc, ?_⟩
  simp only [xmitBody, if_neg hne, hproc, Run.ok_bind, xmitNext]

/-! ## A ring of blank descriptors -/

def blankTxRing (tdh tdt tdlen : U32) : World :=
  ((((powerOn (fun _ => 0) 0 false Memory.blank).setReg Reg.tctl tctlEn).setReg
    Reg.tdh tdh).setReg Reg.tdt tdt).setReg Reg.tdlen tdlen

theorem fetch_blank (base : U64) : TxDesc.fetch Memory.blank base = ⟨0, 0, 0⟩ := by
  rw [TxDesc.fetch, Memory.read_blank]
  decide

theorem processTxDesc_blank (fuel : Nat) (w : World) :
    ∃ w', processTxDesc fuel w ⟨0, 0, 0⟩ = .ok w' ∧ w'.mem = w.mem := by
  have hvlan : isVlanTxd ⟨0, 0, 0⟩ = false := by decide
  have heop : txdEop ⟨0, 0, 0⟩ = false := by decide
  have hctx : descType ⟨0, 0, 0⟩ ≠ txdCmdDext := by decide
  have hdata : descType ⟨0, 0, 0⟩ ≠ txdCmdDext ||| txdDtypD := by decide
  simp only [processTxDesc, if_neg hctx, beginDesc, hdata, decide_false, beginData, tagTx,
    hvlan, heop, fetchData, Bool.and_false, Bool.false_and, Bool.false_eq_true, if_false,
    World.dev_setTx, Run.ok_bind]
  exact ⟨_, rfl, rfl⟩

theorem blank_heads {tdhStart : U32} {st st' : XmitLoop} (hst : st.world.mem = Memory.blank)
    (h : Heads (xmitBody tdhStart) st st') : st'.world.mem = Memory.blank := by
  induction h with
  | refl => exact hst
  | @tail st₁ st₂ _ hnext ih =>
      obtain ⟨fuel, hnext⟩ := hnext
      obtain ⟨w, hproc, hmem⟩ := processTxDesc_blank fuel
        (st₁.world.emit (.dmaRead .txDesc (txHeadAddr st₁.world) descBytes))
      simp only [xmitBody, ih, fetch_blank, hproc, Run.ok_bind] at hnext
      split_ifs at hnext <;> cases hnext
      exact hmem.trans ih

theorem blank_descReturns {tdhStart : U32} {st st' : XmitLoop}
    (hst : st.world.mem = Memory.blank) (h : Heads (xmitBody tdhStart) st st') :
    DescReturns st'.world := by
  intro _
  rw [blank_heads hst h, fetch_blank]
  obtain ⟨w', hproc, -⟩ := processTxDesc_blank 0
    (st'.world.emit (.dmaRead .txDesc (txHeadAddr st'.world) descBytes))
  exact ⟨0, w', hproc⟩

/-! ## The whole walk -/

section Walk

variable {tdhStart : U32}

theorem xmitBody_fuelMonotone (tdhStart : U32) : FuelMonotone (xmitBody tdhStart) :=
  fun _ _ hmn st => xmitBody_le hmn tdhStart st

/--
A potential on the head's position that drops whenever the walk goes on makes
the walk end.
-/
theorem walk_returns {st : XmitLoop}
    (hproc : ∀ st', Heads (xmitBody tdhStart) st st' → DescReturns st'.world)
    (Ok : Nat → Prop) (pot : Nat → Nat) (hst : Ok (st.world.reg Reg.tdh).toNat)
    (hdrop : ∀ i, Ok i → i ≠ (st.world.reg Reg.tdt).toNat →
      ringSucc (slots (st.world.reg Reg.tdlen)) i ≠ tdhStart.toNat →
      Ok (ringSucc (slots (st.world.reg Reg.tdlen)) i) ∧
        pot (ringSucc (slots (st.world.reg Reg.tdlen)) i) < pot i) :
    Returns (xmitBody tdhStart) st := by
  refine returns_of_measure (xmitBody_fuelMonotone tdhStart)
    (fun s => Heads (xmitBody tdhStart) st s ∧
      s.world.reg Reg.tdt = st.world.reg Reg.tdt ∧
      s.world.reg Reg.tdlen = st.world.reg Reg.tdlen ∧
      Ok (s.world.reg Reg.tdh).toNat)
    (fun s => pot (s.world.reg Reg.tdh).toNat) ?_ ⟨.refl, rfl, rfl, hst⟩
  rintro s ⟨hheads, htdt, hlen, hok⟩
  by_cases hempty : s.world.reg Reg.tdh = s.world.reg Reg.tdt
  · exact .inl ⟨0, s, by simp only [xmitBody, if_pos hempty]⟩
  obtain ⟨fuel, s', hadv, hbody⟩ := xmitBody_progress tdhStart hempty (hproc s hheads)
  have hmoved : (s'.world.reg Reg.tdh).toNat =
      ringSucc (slots (st.world.reg Reg.tdlen)) (s.world.reg Reg.tdh).toNat := by
    rw [hadv.tdh, toNat_ringNext, hlen]
  by_cases hstart : s'.world.reg Reg.tdh = tdhStart
  · exact .inl ⟨fuel, s', by rw [hbody, xmitNext, if_pos hstart]⟩
  · have hnext : Next (xmitBody tdhStart) s s' :=
      ⟨fuel, by rw [hbody, xmitNext, if_neg hstart]⟩
    have hd := hdrop _ hok
      (fun h => hempty (BitVec.eq_of_toNat_eq (by rw [h, htdt])))
      (fun h => hstart (BitVec.eq_of_toNat_eq (by rw [hmoved, h])))
    rw [← hmoved] at hd
    exact .inr ⟨s', hnext,
      ⟨hheads.tail hnext, hadv.tdt.trans htdt, hadv.tdlen.trans hlen, hd.1⟩, hd.2⟩

theorem walk_returns_of_start_inside {st : XmitLoop}
    (hproc : ∀ st', Heads (xmitBody tdhStart) st st' → DescReturns st'.world)
    (hstart : st.world.reg Reg.tdh = tdhStart)
    (hin : tdhStart.toNat < slots (st.world.reg Reg.tdlen)) :
    Returns (xmitBody tdhStart) st := by
  generalize hn : slots (st.world.reg Reg.tdlen) = n at hin
  refine walk_returns hproc (fun i => i < n)
    (fun i => if i = tdhStart.toNat then n else ringDist n i tdhStart.toNat)
    (by rw [hstart]; exact hin) ?_
  rw [hn]
  intro i hi _ hne
  have hlt := ringSucc_lt (by omega : 0 < n) i
  refine ⟨hlt, ?_⟩
  rw [if_neg hne]
  split_ifs with hi₀
  · exact ringDist_lt hlt hin
  · have := ringDist_ringSucc hi hin hi₀
    omega

theorem walk_returns_of_tail_inside {st : XmitLoop}
    (hproc : ∀ st', Heads (xmitBody tdhStart) st st' → DescReturns st'.world)
    (hin : (st.world.reg Reg.tdt).toNat < slots (st.world.reg Reg.tdlen)) :
    Returns (xmitBody tdhStart) st := by
  generalize hn : slots (st.world.reg Reg.tdlen) = n at hin
  refine walk_returns hproc (fun _ => True)
    (fun i => if i < n then ringDist n i (st.world.reg Reg.tdt).toNat else n)
    trivial ?_
  rw [hn]
  intro i _ hne _
  have hlt := ringSucc_lt (by omega : 0 < n) i
  refine ⟨trivial, ?_⟩
  rw [if_pos hlt]
  split_ifs with hi
  · have := ringDist_ringSucc hi hin hne
    omega
  · exact ringDist_lt hlt hin

theorem walk_diverges (st : XmitLoop)
    (hne : st.world.reg Reg.tdh ≠ st.world.reg Reg.tdt)
    (hstart : slots (st.world.reg Reg.tdlen) ≤ tdhStart.toNat)
    (htail : slots (st.world.reg Reg.tdlen) ≤ (st.world.reg Reg.tdt).toNat) :
    ¬ Returns (xmitBody tdhStart) st := by
  refine not_returns_of_trap (fun s =>
    s.world.reg Reg.tdt = st.world.reg Reg.tdt ∧
      s.world.reg Reg.tdlen = st.world.reg Reg.tdlen ∧
      s.world.reg Reg.tdh ≠ s.world.reg Reg.tdt) ?_ ⟨rfl, rfl, hne⟩
  rintro s fuel r ⟨htdt, hlen, hopen⟩ hbody
  rcases xmitBody_cases hbody with ⟨hempty, -⟩ | ⟨-, s', hadv, rfl⟩
  · exact absurd hempty hopen
  · have hlt : (s'.world.reg Reg.tdh).toNat < slots (st.world.reg Reg.tdlen) := by
      rw [hadv.tdh, toNat_ringNext, hlen]
      exact ringSucc_lt (slots_pos _) _
    have hgo : s'.world.reg Reg.tdh ≠ tdhStart := fun h => by
      rw [h] at hlt
      omega
    refine ⟨s', by rw [xmitNext, if_neg hgo], hadv.tdt.trans htdt,
      hadv.tdlen.trans hlen, fun h => ?_⟩
    rw [h, hadv.tdt, htdt] at hlt
    omega

end Walk

theorem xmitReturns_iff_returns {w : World} (hen : test (w.reg Reg.tctl) tctlEn = true) :
    XmitReturns w ↔ Returns (xmitBody (w.reg Reg.tdh)) ⟨w, icrTxqe⟩ := by
  simp only [XmitReturns, startXmit, hen, if_true]
  constructor
  · rintro ⟨fuel, w', h⟩
    obtain ⟨st, hst, -⟩ := Run.bind_eq_ok.mp h
    exact ⟨fuel, st, hst⟩
  · rintro ⟨fuel, st, hst⟩
    exact ⟨fuel, setIcs st.world st.cause, by rw [hst, Run.ok_bind]⟩

/--
With `TCTL.EN` set and every `process_tx_desc` call returning, the loop is left
unless the head and the tail are distinct positions outside the ring.
-/
theorem startXmit_returns_iff (w : World) (hen : test (w.reg Reg.tctl) tctlEn = true)
    (hproc : ∀ st, Heads (xmitBody (w.reg Reg.tdh)) ⟨w, icrTxqe⟩ st →
      DescReturns st.world) :
    XmitReturns w ↔
      ¬ (w.reg Reg.tdh ≠ w.reg Reg.tdt ∧
        OutsideRing (w.reg Reg.tdlen) (w.reg Reg.tdh) ∧
        OutsideRing (w.reg Reg.tdlen) (w.reg Reg.tdt)) := by
  rw [xmitReturns_iff_returns hen, outsideRing_iff, outsideRing_iff]
  constructor
  · rintro hret ⟨hne, hhead, htail⟩
    exact walk_diverges ⟨w, icrTxqe⟩ hne hhead htail hret
  · intro hcond
    by_cases hempty : w.reg Reg.tdh = w.reg Reg.tdt
    · have hdone : xmitBody (w.reg Reg.tdh) 0 ⟨w, icrTxqe⟩ = .ok (.done ⟨w, icrTxqe⟩) := by
        simp only [xmitBody, if_pos hempty]
      exact returns_of_done hdone (xmitBody_fuelMonotone _)
    by_cases hhead : slots (w.reg Reg.tdlen) ≤ (w.reg Reg.tdh).toNat
    · by_cases htail : slots (w.reg Reg.tdlen) ≤ (w.reg Reg.tdt).toNat
      · exact absurd ⟨hempty, hhead, htail⟩ hcond
      · exact walk_returns_of_tail_inside hproc (not_le.mp htail)
    · exact walk_returns_of_start_inside hproc rfl (not_le.mp hhead)

theorem startXmit_returns_blank : XmitReturns (blankTxRing 0 1 128) :=
  (startXmit_returns_iff (blankTxRing 0 1 128) (by decide)
    fun _ => blank_descReturns rfl).mpr (by decide)

/-- Head 8 and tail 9 of an eight-slot ring: the device never stops. -/
theorem startXmit_stuck :
    ∃ w : World, test (w.reg Reg.tctl) tctlEn = true ∧
      (w.reg Reg.tdh).toNat < 2 ^ 16 ∧ (w.reg Reg.tdt).toNat < 2 ^ 16 ∧
      (∃ val : U32, w.reg Reg.tdlen = val &&& 0xfff80#32) ∧
      (∀ st, Heads (xmitBody (w.reg Reg.tdh)) ⟨w, icrTxqe⟩ st → DescReturns st.world) ∧
      ¬ XmitReturns w := by
  refine ⟨blankTxRing 8 9 128, by decide, by decide, by decide, ⟨128, by decide⟩,
    fun _ => blank_descReturns rfl, ?_⟩
  rw [xmitReturns_iff_returns (by decide)]
  exact walk_diverges _ (by decide) (by decide) (by decide)

end SE4VM.E1000
