import Mathlib.Data.List.Nodup
import SE4VM.E1000.Reach
import SE4VM.E1000.TransmitRing

/-!
# The order in which the transmit ring is processed

A walk of `start_xmit` that starts inside the ring takes the descriptors from
the head up to the tail, or all of them once when the tail lies outside.  The
processing of a descriptor is assumed to return and to leave the ring alone.
-/

namespace SE4VM.E1000

open SE4VM.Foundation

/-! ## Descriptors of the ring -/

def txDescAt (w : World) (i : U32) : TxDesc :=
  TxDesc.fetch w.mem (descAddr (txDescBase w.dev) i)

/-- The position `j` places behind the head. -/
def txSlot (w : World) (n j : Nat) : U32 :=
  BitVec.ofNat 32 (((w.reg Reg.tdh).toNat + j) % n)

/-- The `k` descriptors from the head on, as they are when the walk starts. -/
def ringDescs (w : World) (n k : Nat) : List (U32 × TxDesc) :=
  (List.range k).map fun j => (txSlot w n j, txDescAt w (txSlot w n j))

/-- Up to the tail, or once around when the tail is outside the ring. -/
def walkLength (w : World) (n : Nat) : Nat :=
  if (w.reg Reg.tdt).toNat < n then
    ringDist n (w.reg Reg.tdh).toNat (w.reg Reg.tdt).toNat
  else n

/-- The guest asks for a report on this descriptor. -/
def reports (dp : TxDesc) : Bool := test dp.lower (txdCmdRs ||| txdCmdRps)

def doneStatus (dp : TxDesc) : U32 :=
  (dp.upper ||| txdStatDd) &&& ~~~(txdStatEc ||| txdStatLc ||| txdStatTu)

def reported (dp : TxDesc) : TxDesc :=
  if reports dp then { dp with upper := doneStatus dp } else dp

def writebackOf (base : U64) (d : U32 × TxDesc) : Option (U64 × List U8) :=
  if reports d.2 then some (descAddr base d.1 + 12, toLe 4 (doneStatus d.2).toNat) else none

def Event.txDescWrite : Event → Option (U64 × List U8)
  | .dmaWrite .txDesc addr bs => some (addr, bs)
  | _ => none

/-- The writes to the transmit ring, oldest first. -/
def txDescWrites (es : List Event) : List (U64 × List U8) :=
  es.reverse.filterMap Event.txDescWrite

/-- The descriptor that a head of the loop hands to `process_tx_desc`. -/
def headDesc (st : XmitLoop) : List (U32 × TxDesc) :=
  let w := st.world
  if w.reg Reg.tdh = w.reg Reg.tdt then [] else [(w.reg Reg.tdh, txDescAt w (w.reg Reg.tdh))]

def xmitDescs (fuel : Nat) (w : World) : List (U32 × TxDesc) :=
  if test (w.reg Reg.tctl) tctlEn then
    (trail (xmitBody (w.reg Reg.tdh) fuel) fuel ⟨w, icrTxqe⟩).flatMap headDesc
  else []

/-- The `process_tx_desc` call at this head returns and leaves the ring alone. -/
def DescProcessed (n : Nat) (w : World) : Prop :=
  w.reg Reg.tdh ≠ w.reg Reg.tdt →
    ∃ fuel w', processTxDesc fuel (w.emit (.dmaRead .txDesc (txHeadAddr w) descBytes))
      (txDescAt w (w.reg Reg.tdh)) = .ok w' ∧
      ∀ i : U32, i.toNat < n → txDescAt w' i = txDescAt w i

def xmitReport (ds : List (U32 × TxDesc)) : U32 :=
  icrTxqe ||| if ds.any (fun d => reports d.2) then icrTxdw else 0

/-! ## Positions -/

section Slots

variable {w : World} {n : Nat} (hhead : (w.reg Reg.tdh).toNat < n)
include hhead

theorem toNat_txSlot (hn : n ≤ 2 ^ 32) (j : Nat) :
    (txSlot w n j).toNat = ((w.reg Reg.tdh).toNat + j) % n := by
  have hlt : ((w.reg Reg.tdh).toNat + j) % n < n := Nat.mod_lt _ (by omega)
  rw [txSlot, BitVec.toNat_ofNat, Nat.mod_eq_of_lt (by omega)]

theorem txSlot_zero : txSlot w n 0 = w.reg Reg.tdh := by
  rw [txSlot, Nat.add_zero, Nat.mod_eq_of_lt hhead, BitVec.ofNat_toNat, BitVec.setWidth_eq]

theorem ringDist_txSlot (hn : n ≤ 2 ^ 32) {j : Nat} (hj : j < n) :
    ringDist n (w.reg Reg.tdh).toNat (txSlot w n j).toNat = j := by
  rw [toNat_txSlot hhead hn, ringDist_add_mod hhead hj]

theorem txSlot_inj (hn : n ≤ 2 ^ 32) {j k : Nat} (hj : j < n) (hk : k < n)
    (h : txSlot w n j = txSlot w n k) : j = k := by
  rw [← ringDist_txSlot hhead hn hj, h, ringDist_txSlot hhead hn hk]

theorem nodup_ringDescs (hn : n ≤ 2 ^ 32) {k : Nat} (hk : k ≤ n) :
    ((ringDescs w n k).map Prod.fst).Nodup := by
  rw [ringDescs, List.map_map]
  refine List.Nodup.map_on ?_ List.nodup_range
  intro i hi j hj heq
  have hi' := List.mem_range.mp hi
  have hj' := List.mem_range.mp hj
  exact txSlot_inj hhead hn (by omega) (by omega) heq

theorem walkLength_le : walkLength w n ≤ n := by
  rw [walkLength]
  split_ifs with htail
  · exact (ringDist_lt hhead htail).le
  · exact le_rfl

end Slots

theorem ringDescs_succ (w : World) (n j : Nat) :
    ringDescs w n (j + 1) = ringDescs w n j ++ [(txSlot w n j, txDescAt w (txSlot w n j))] := by
  simp [ringDescs, List.range_succ]

theorem slots_eq {len : U32} {n : Nat} (hn : 0 < n) (hlen : len.toNat = descBytes * n) :
    slots len = n := by
  simp only [slots, hlen, descBytes]
  omega

/-! ## One descriptor -/

def ringRegs : List Nat := [Reg.tdt, Reg.tdlen, Reg.tdbal, Reg.tdbah]

theorem processTxDesc_unique {fuel fuel' : Nat} {w w₁ w₂ : World} {dp : TxDesc}
    (h : processTxDesc fuel w dp = .ok w₁) (h' : processTxDesc fuel' w dp = .ok w₂) :
    w₁ = w₂ := by
  have hmax := (processTxDesc_le (Nat.le_max_left fuel fuel') w dp).eq_ok h
  have hmax' := (processTxDesc_le (Nat.le_max_right fuel fuel') w dp).eq_ok h'
  exact Run.ok.inj (hmax.symm.trans hmax')

theorem txDescBase_congr {w w' : World} (h : ∀ i ∈ ringRegs, w'.reg i = w.reg i) :
    txDescBase w'.dev = txDescBase w.dev := by
  have hbah : w'.dev.macReg Reg.tdbah = w.dev.macReg Reg.tdbah := h _ (by simp [ringRegs])
  have hbal : w'.dev.macReg Reg.tdbal = w.dev.macReg Reg.tdbal := h _ (by simp [ringRegs])
  rw [txDescBase, txDescBase, hbah, hbal]

theorem finishDesc_reg (cause : U32) (base : U64) (dp : TxDesc) (w : World) {i : Nat}
    (hi : i ∈ ringRegs) : (finishDesc cause base dp w).world.reg i = w.reg i := by
  have hne : i ≠ Reg.tdh := by
    rintro rfl
    exact absurd hi (by decide)
  simp only [finishDesc]
  rw [World.reg_setReg_of_ne _ _ _ _ hne, txdescWriteback_reg]

theorem txdescWriteback_eq (w : World) (base : U64) (dp : TxDesc) :
    txdescWriteback w base dp =
      if reports dp then
        (w.dmaWrite .txDesc (base + 12) (toLe 4 (doneStatus dp).toNat), icrTxdw)
      else (w, 0) :=
  rfl

theorem finishDesc_cause (cause : U32) (base : U64) (dp : TxDesc) (w : World) :
    (finishDesc cause base dp w).cause = cause ||| if reports dp then icrTxdw else 0 := by
  rw [finishDesc, txdescWriteback_eq]
  cases reports dp <;> rfl

theorem finishDesc_mem (cause : U32) (base : U64) (dp : TxDesc) (w : World) :
    (finishDesc cause base dp w).world.mem =
      if reports dp then w.mem.write (base + 12) (toLe 4 (doneStatus dp).toNat)
      else w.mem := by
  rw [finishDesc, txdescWriteback_eq]
  cases reports dp <;> rfl

theorem finishDesc_log (cause : U32) (base : U64) (dp : TxDesc) (w : World) :
    ∃ es, (finishDesc cause base dp w).world.log = es ++ w.log ∧
      txDescWrites es =
        if reports dp then [(base + 12, toLe 4 (doneStatus dp).toNat)] else [] := by
  rw [finishDesc, txdescWriteback_eq]
  cases reports dp with
  | true => exact ⟨[_], rfl, rfl⟩
  | false => exact ⟨[], rfl, rfl⟩

/-- Only the processed descriptor changes in the ring, and only its status. -/
theorem txDescAt_finishDesc (cause : U32) (w : World) (i j : U32) :
    txDescAt (finishDesc cause (descAddr (txDescBase w.dev) j) (txDescAt w j) w).world i =
      if i = j then reported (txDescAt w j) else txDescAt w i := by
  have hbase : txDescBase (finishDesc cause (descAddr (txDescBase w.dev) j)
      (txDescAt w j) w).world.dev = txDescBase w.dev :=
    txDescBase_congr fun i hi => finishDesc_reg _ _ _ _ hi
  rw [txDescAt, hbase, finishDesc_mem, reported]
  by_cases hij : i = j
  · rw [if_pos hij, hij]
    split_ifs
    · exact TxDesc.fetch_write_upper _ _ _
    · rfl
  · rw [if_neg hij]
    split_ifs
    · exact TxDesc.fetch_write_upper_other _ _ (descAddr_disjoint _ hij)
    · rfl

/-! ## The walk -/

theorem txDescWrites_append (es es' : List Event) :
    txDescWrites (es' ++ es) = txDescWrites es ++ txDescWrites es' := by
  simp [txDescWrites]

theorem txDescWrites_eq_nil {es : List Event} {ev : Event → Bool}
    (hes : ∀ e ∈ es, ev e = true) (hev : ∀ e, ev e = true → e.txDescWrite = none) :
    txDescWrites es = [] := by
  simpa [txDescWrites] using fun e he => hev e (hes e he)

theorem Event.txDescWrite_of_isTx {e : Event} (h : e.isTx = true) : e.txDescWrite = none := by
  cases e with
  | dmaWrite buf =>
      cases buf <;> simp_all [Event.isTx, Event.isXmit, Event.isRx, Event.isPin,
        Event.txDescWrite]
  | _ => rfl

/-- The state of the walk after `j` descriptors of the ring of `w`. -/
structure RingInv (w : World) (n j : Nat) (st : XmitLoop) : Prop where
  tdh : st.world.reg Reg.tdh = txSlot w n j
  reg : ∀ i ∈ ringRegs, st.world.reg i = w.reg i
  desc : ∀ k < n, txDescAt st.world (txSlot w n k) =
    if k < j then reported (txDescAt w (txSlot w n k)) else txDescAt w (txSlot w n k)
  log : ∃ es, st.world.log = es ++ w.log ∧
    txDescWrites es = (ringDescs w n j).filterMap (writebackOf (txDescBase w.dev))
  cause : st.cause = xmitReport (ringDescs w n j)

section Walk

variable {w : World} {n : Nat} (hhead : (w.reg Reg.tdh).toNat < n)
  (hlen : (w.reg Reg.tdlen).toNat = descBytes * n)
include hhead

theorem ringInv_start : RingInv w n 0 ⟨w, icrTxqe⟩ := by
  refine ⟨(txSlot_zero hhead).symm, fun _ _ => rfl, fun k _ => by simp, ⟨[], rfl, rfl⟩, ?_⟩
  simp [xmitReport, ringDescs]

include hlen

omit hhead in
theorem slots_le : n ≤ 2 ^ 32 := by
  have := (w.reg Reg.tdlen).isLt
  simp only [descBytes] at hlen
  omega

theorem RingInv.step {j fuel : Nat} {st : XmitLoop} {w₁ : World} (hst : RingInv w n j st)
    (hj : j < n) (hproc : DescProcessed n st.world)
    (hne : st.world.reg Reg.tdh ≠ st.world.reg Reg.tdt)
    (h : processTxDesc fuel (st.world.emit (.dmaRead .txDesc (txHeadAddr st.world) descBytes))
      (TxDesc.fetch st.world.mem (txHeadAddr st.world)) = .ok w₁) :
    headDesc st = [(txSlot w n j, txDescAt w (txSlot w n j))] ∧
      RingInv w n (j + 1) (finishDesc st.cause (txHeadAddr st.world)
        (TxDesc.fetch st.world.mem (txHeadAddr st.world)) w₁) := by
  have hn := slots_le hlen
  have hbase : txDescBase st.world.dev = txDescBase w.dev := txDescBase_congr hst.reg
  have hdesc : txDescAt st.world (st.world.reg Reg.tdh) = txDescAt w (txSlot w n j) := by
    rw [hst.tdh, hst.desc j hj, if_neg (lt_irrefl j)]
  have hframe := processTxDesc_frame h
  have hkept : ∀ i : U32, i.toNat < n → txDescAt w₁ i = txDescAt st.world i := by
    obtain ⟨fuel', w', h', hk⟩ := hproc hne
    rw [processTxDesc_unique h h']
    exact hk
  have hreg : ∀ i ∈ ringRegs, w₁.reg i = st.world.reg i := fun i hi =>
    hframe.reg i ((by decide : ∀ i ∈ ringRegs, i ∉ txRegs) i hi)
  have hbase₁ : txDescBase w₁.dev = txDescBase w.dev := (txDescBase_congr hreg).trans hbase
  -- The call works on the descriptor as it still stands in the ring.
  have haddr : txHeadAddr st.world = descAddr (txDescBase w₁.dev) (txSlot w n j) := by
    rw [txHeadAddr, hst.tdh, hbase, hbase₁]
  have hslot : ∀ k, (txSlot w n k).toNat < n := fun k => by
    rw [toNat_txSlot hhead hn]
    exact Nat.mod_lt _ (by omega)
  have hsame : TxDesc.fetch st.world.mem (txHeadAddr st.world) = txDescAt w₁ (txSlot w n j) := by
    rw [hkept _ (hslot j), ← hst.tdh]
    rfl
  have hdp : txDescAt w₁ (txSlot w n j) = txDescAt w (txSlot w n j) := by
    rw [← hsame, ← hdesc]
    rfl
  refine ⟨?_, ?_⟩
  · rw [headDesc, if_neg hne, hdesc, hst.tdh]
  rw [hsame, haddr]
  obtain ⟨es, hes, hev⟩ := hframe.log
  obtain ⟨es₀, hlog₀, hwrites₀⟩ := hst.log
  obtain ⟨es₁, hlog₁, hwrites₁⟩ := finishDesc_log st.cause
    (descAddr (txDescBase w₁.dev) (txSlot w n j)) (txDescAt w₁ (txSlot w n j)) w₁
  refine ⟨?_, fun i hi => ?_, fun k hk => ?_,
    ⟨es₁ ++ (es ++ [.dmaRead .txDesc (txHeadAddr st.world) descBytes] ++ es₀), ?_, ?_⟩, ?_⟩
  · refine BitVec.eq_of_toNat_eq ?_
    rw [← hsame, ← haddr, (advanced_finishDesc _ _ h).tdh, toNat_ringNext,
      hst.reg _ (by simp [ringRegs]), slots_eq (by omega) hlen, hst.tdh, toNat_txSlot hhead hn,
      toNat_txSlot hhead hn, ringSucc_eq_mod (Nat.mod_lt _ (by omega)), Nat.mod_add_mod,
      Nat.add_assoc]
  · rw [finishDesc_reg _ _ _ _ hi, hreg i hi, hst.reg i hi]
  · rw [txDescAt_finishDesc, hdp, hkept _ (hslot k), hst.desc k hk]
    by_cases hkj : k = j
    · rw [if_pos (by rw [hkj]), if_pos (by omega), hkj]
    · rw [if_neg fun heq => hkj (txSlot_inj hhead hn hk hj heq)]
      by_cases hlt : k < j
      · rw [if_pos hlt, if_pos (by omega)]
      · rw [if_neg hlt, if_neg (by omega)]
  · rw [hlog₁, hes, World.log_emit, hlog₀, haddr]
    simp
  · rw [txDescWrites_append, txDescWrites_append, txDescWrites_append, hwrites₀, hwrites₁,
      txDescWrites_eq_nil hev fun _ => Event.txDescWrite_of_isTx, ringDescs_succ,
      List.filterMap_append, hdp, hbase₁]
    simp only [List.filterMap_cons, writebackOf]
    split_ifs <;> simp [txDescWrites, Event.txDescWrite]
  · rw [finishDesc_cause, hst.cause, hdp, ringDescs_succ]
    simp only [xmitReport, List.any_append, List.any_cons, List.any_nil, Bool.or_false]
    cases (ringDescs w n j).any fun d => reports d.2 <;>
      cases reports (txDescAt w (txSlot w n j)) <;> simp [BitVec.or_assoc]

/-- At a head that is the tail, the walk has its length. -/
theorem walkLength_of_tail {j : Nat} (hj : j < n) (h : txSlot w n j = w.reg Reg.tdt) :
    walkLength w n = j := by
  have hn := slots_le hlen
  have hlt : (txSlot w n j).toNat < n := by
    rw [toNat_txSlot hhead hn]
    exact Nat.mod_lt _ (by omega)
  rw [walkLength, ← h, if_pos hlt, ringDist_txSlot hhead hn hj]

/-- Back at the start, it has gone around, because it did not meet the tail. -/
theorem walkLength_of_start {j : Nat} (hj : j < n) (hle : j < walkLength w n)
    (h : txSlot w n (j + 1) = w.reg Reg.tdh) : walkLength w n = j + 1 := by
  have hn := slots_le hlen
  have hround : j + 1 = n := by
    by_contra hne
    have hzero := txSlot_inj hhead hn (j := j + 1) (k := 0) (by omega) (by omega)
      (by rw [h, txSlot_zero hhead])
    omega
  have := walkLength_le hhead
  omega

theorem lt_walkLength {j : Nat} (hj : j < n) (hle : j ≤ walkLength w n)
    (hne : txSlot w n j ≠ w.reg Reg.tdt) : j < walkLength w n := by
  have hn := slots_le hlen
  rw [walkLength] at hle ⊢
  split_ifs at hle ⊢ with htail
  · refine lt_of_le_of_ne hle fun heq => hne (BitVec.eq_of_toNat_eq ?_)
    rw [toNat_txSlot hhead hn, heq, add_ringDist hhead htail]
  · exact hj

theorem walk_ringInv {fuel : Nat} {st : XmitLoop}
    (hproc : ∀ st, Heads (xmitBody (w.reg Reg.tdh)) ⟨w, icrTxqe⟩ st → DescProcessed n st.world)
    (h : loop (xmitBody (w.reg Reg.tdh) fuel) fuel ⟨w, icrTxqe⟩ = .ok st) :
    (trail (xmitBody (w.reg Reg.tdh) fuel) fuel ⟨w, icrTxqe⟩).flatMap headDesc =
      ringDescs w n (walkLength w n) ∧ RingInv w n (walkLength w n) st := by
  -- What one body does to a head with `j` descriptors behind it.
  have hbody : ∀ {hs s r} (j : Nat), j < n → j ≤ walkLength w n →
      hs.flatMap headDesc = ringDescs w n j → RingInv w n j s →
      Heads (xmitBody (w.reg Reg.tdh)) ⟨w, icrTxqe⟩ s →
      xmitBody (w.reg Reg.tdh) fuel s = .ok r →
      (j = walkLength w n ∧ r = .done s ∧ (hs ++ [s]).flatMap headDesc = ringDescs w n j) ∨
      (j < walkLength w n ∧ ∃ s', r = xmitNext (w.reg Reg.tdh) s' ∧
        (hs ++ [s]).flatMap headDesc = ringDescs w n (j + 1) ∧ RingInv w n (j + 1) s') := by
    intro hs s r j hj hle hdescs hinv hheads hb
    rw [xmitBody] at hb
    have htdt : s.world.reg Reg.tdt = w.reg Reg.tdt := hinv.reg _ (by simp [ringRegs])
    by_cases hempty : s.world.reg Reg.tdh = s.world.reg Reg.tdt
    · rw [if_pos hempty] at hb
      refine .inl ⟨(walkLength_of_tail hhead hlen hj ?_).symm, (Run.ok.inj hb).symm, ?_⟩
      · rw [← hinv.tdh, hempty, htdt]
      · rw [List.flatMap_append, List.flatMap_singleton, headDesc, if_pos hempty, hdescs,
          List.append_nil]
    · rw [if_neg hempty] at hb
      obtain ⟨w₁, hp, hb⟩ := Run.bind_eq_ok.mp hb
      obtain ⟨hhd, hinv'⟩ := hinv.step hhead hlen hj (hproc s hheads) hempty hp
      refine .inr ⟨lt_walkLength hhead hlen hj hle ?_, _, (Run.ok.inj hb).symm, ?_, hinv'⟩
      · rw [← hinv.tdh, ← htdt]
        exact hempty
      · rw [List.flatMap_append, List.flatMap_singleton, hdescs, hhd, ringDescs_succ]
  refine loop_trail
    (fun hs s => ∃ j, j < n ∧ j ≤ walkLength w n ∧ hs.flatMap headDesc = ringDescs w n j ∧
      RingInv w n j s ∧ Heads (xmitBody (w.reg Reg.tdh)) ⟨w, icrTxqe⟩ s)
    (fun hs s => hs.flatMap headDesc = ringDescs w n (walkLength w n) ∧
      RingInv w n (walkLength w n) s) ?_ ?_
    ⟨0, by omega, by omega, rfl, ringInv_start hhead, .refl⟩ h
  · rintro hs s s' ⟨j, hj, hle, hdescs, hinv, hheads⟩ hb
    rcases hbody j hj hle hdescs hinv hheads hb with ⟨-, hr, -⟩ | ⟨hlt, s₁, hr, hdescs', hinv'⟩
    · cases hr
    · rw [xmitNext] at hr
      split_ifs at hr with hstart
      cases hr
      refine ⟨j + 1, ?_, hlt, hdescs', hinv', hheads.tail ⟨fuel, hb⟩⟩
      -- A full round would have come back to the start.
      refine lt_of_le_of_ne hj fun hround => hstart ?_
      rw [hinv'.tdh, hround, txSlot, Nat.add_mod_right, Nat.mod_eq_of_lt hhead,
        BitVec.ofNat_toNat, BitVec.setWidth_eq]
  · rintro hs s s' ⟨j, hj, hle, hdescs, hinv, hheads⟩ hb
    rcases hbody j hj hle hdescs hinv hheads hb with ⟨hend, hr, hdescs'⟩ |
      ⟨hlt, s₁, hr, hdescs', hinv'⟩
    · cases hr
      rw [← hend]
      exact ⟨hdescs', hinv⟩
    · rw [xmitNext] at hr
      split_ifs at hr with hstart
      cases hr
      rw [walkLength_of_start hhead hlen hj hlt (by rw [← hinv'.tdh, hstart])]
      exact ⟨hdescs', hinv'⟩

end Walk

/-! ## The whole call -/

/-- What a call of `start_xmit` does to a ring of `n` descriptors. -/
structure Transmits (w : World) (n fuel : Nat) (w' : World) : Prop where
  descs : xmitDescs fuel w = ringDescs w n (walkLength w n)
  once : ((xmitDescs fuel w).map Prod.fst).Nodup
  tdh : w'.reg Reg.tdh =
    if (w.reg Reg.tdt).toNat < n then w.reg Reg.tdt else w.reg Reg.tdh
  writes : ∃ es, w'.log = es ++ w.log ∧ txDescWrites es =
    (ringDescs w n (walkLength w n)).filterMap (writebackOf (txDescBase w.dev))
  ring : ∀ k < n, txDescAt w' (txSlot w n k) =
    if k < walkLength w n then reported (txDescAt w (txSlot w n k))
    else txDescAt w (txSlot w n k)
  raises : ∃ st, loop (xmitBody (w.reg Reg.tdh) fuel) fuel ⟨w, icrTxqe⟩ = .ok st ∧
    w' = setIcs st.world (xmitReport (ringDescs w n (walkLength w n)))

theorem txSlot_walkLength {w : World} {n : Nat} (hhead : (w.reg Reg.tdh).toNat < n)
    (hn : n ≤ 2 ^ 32) : txSlot w n (walkLength w n) =
      if (w.reg Reg.tdt).toNat < n then w.reg Reg.tdt else w.reg Reg.tdh := by
  refine BitVec.eq_of_toNat_eq ?_
  rw [toNat_txSlot hhead hn, walkLength]
  split_ifs with htail
  · exact add_ringDist hhead htail
  · rw [Nat.add_mod_right, Nat.mod_eq_of_lt hhead]

theorem exists_transmits {w : World} {n : Nat} (hen : test (w.reg Reg.tctl) tctlEn = true)
    (hlen : (w.reg Reg.tdlen).toNat = descBytes * n) (hhead : (w.reg Reg.tdh).toNat < n)
    (hproc : ∀ st, Heads (xmitBody (w.reg Reg.tdh)) ⟨w, icrTxqe⟩ st →
      DescProcessed n st.world) :
    ∃ fuel w', startXmit fuel w = .ok w' ∧ Transmits w n fuel w' := by
  have hn := slots_le hlen
  have hslots := slots_eq (by omega) hlen
  have hreturn : ∀ st, Heads (xmitBody (w.reg Reg.tdh)) ⟨w, icrTxqe⟩ st →
      DescReturns st.world := by
    intro st hst hne
    obtain ⟨fuel, w', hp, -⟩ := hproc st hst hne
    exact ⟨fuel, w', hp⟩
  obtain ⟨fuel, st, hloop⟩ := walk_returns_of_start_inside hreturn rfl
    (show (w.reg Reg.tdh).toNat < slots (w.reg Reg.tdlen) by rw [hslots]; exact hhead)
  obtain ⟨hdescs, hinv⟩ := walk_ringInv hhead hlen hproc hloop
  have hdescs' : xmitDescs fuel w = ringDescs w n (walkLength w n) := by
    rw [xmitDescs, if_pos hen, hdescs]
  have hics := setInterruptCause_frame st.world (st.cause ||| st.world.reg Reg.icr)
  have hring : ∀ i ∈ ringRegs, (setIcs st.world st.cause).reg i = st.world.reg i := fun i hi =>
    hics.reg i ((by decide : ∀ i ∈ ringRegs, i ∉ [Reg.icr, Reg.ics]) i hi)
  refine ⟨fuel, setIcs st.world st.cause, ?_, hdescs', ?_, ?_, ?_, fun k hk => ?_, st, hloop, ?_⟩
  · rw [startXmit, if_pos hen, hloop, Run.ok_bind]
  · rw [hdescs']
    exact nodup_ringDescs hhead hn (walkLength_le hhead)
  · rw [← txSlot_walkLength hhead hn, ← hinv.tdh]
    exact hics.reg _ (by decide)
  · obtain ⟨es, hes, hwrites⟩ := hinv.log
    obtain ⟨pins, hpins, hlog⟩ := setInterruptCause_pinsOnly st.world
      (st.cause ||| st.world.reg Reg.icr)
    refine ⟨pins ++ es, by rw [setIcs, hlog, hes, List.append_assoc], ?_⟩
    rw [txDescWrites_append, hwrites, txDescWrites_eq_nil hpins, List.append_nil]
    intro e he
    cases e <;> simp_all [Event.isPin, Event.txDescWrite]
  · rw [← hinv.desc k hk, txDescAt, txDescAt, txDescBase_congr hring, setIcs_mem]
  · rw [hinv.cause]

/--
A transmission whose descriptors are processed without touching the ring takes
the descriptors from the head to the tail, or all of them when the tail is
outside, in order and once each, and reports those for which the guest asked.
-/
theorem startXmit_processes_ring (w : World) (n : Nat)
    (hen : test (w.reg Reg.tctl) tctlEn = true)
    (hlen : (w.reg Reg.tdlen).toNat = descBytes * n) (hhead : (w.reg Reg.tdh).toNat < n)
    (hproc : ∀ st, Heads (xmitBody (w.reg Reg.tdh)) ⟨w, icrTxqe⟩ st →
      DescProcessed n st.world) :
    ∃ fuel w', startXmit fuel w = .ok w' ∧ Transmits w n fuel w' :=
  exists_transmits hen hlen hhead hproc

theorem blank_descProcessed {tdhStart : U32} {st st' : XmitLoop} (n : Nat)
    (hst : st.world.mem = Memory.blank) (h : Heads (xmitBody tdhStart) st st') :
    DescProcessed n st'.world := by
  intro _
  have hmem := blank_heads hst h
  have hblank : ∀ w : World, w.mem = Memory.blank → ∀ i, txDescAt w i = ⟨0, 0, 0⟩ := by
    intro w hw i
    rw [txDescAt, hw, fetch_blank]
  obtain ⟨w', hproc, hmem'⟩ := processTxDesc_blank 0
    (st'.world.emit (.dmaRead .txDesc (txHeadAddr st'.world) descBytes))
  refine ⟨0, w', by rw [hblank _ hmem]; exact hproc, fun i _ => ?_⟩
  rw [hblank _ hmem, hblank w' (hmem'.trans hmem)]

/-- Head 6 and tail 2 of an eight-slot ring. -/
theorem startXmit_processes_around :
    ∃ fuel w', startXmit fuel (blankTxRing 6 2 128) = .ok w' ∧ w'.reg Reg.tdh = 2 ∧
      (xmitDescs fuel (blankTxRing 6 2 128)).map Prod.fst = [6, 7, 0, 1] := by
  obtain ⟨fuel, w', hrun, h⟩ := startXmit_processes_ring (blankTxRing 6 2 128) 8 (by decide)
    (by decide) (by decide) fun st => blank_descProcessed 8 rfl
  exact ⟨fuel, w', hrun, h.tdh, by rw [h.descs]; decide⟩

/-! ## The ring of a reachable device -/

/-- `TDLEN` is written through `set_dlen` only, so it counts whole descriptors. -/
theorem Reachable.tdlen_eq {w : World} (h : Reachable w) :
    ∃ n, (w.reg Reg.tdlen).toNat = descBytes * n := by
  have hmask : ∃ v : U32, w.reg Reg.tdlen = v &&& 0xfff80#32 := by
    refine Reachable.invariant (fun w => ∃ v : U32, w.reg Reg.tdlen = v &&& 0xfff80#32) ?_ ?_ h
    · exact fun macaddr flags down mem =>
        ⟨0, e1000Reset_macReg _ (by decide) (by decide) (by decide)⟩
    · rintro fuel w op w' reply ⟨v, hv⟩ hs
      rcases step_reg (by decide : Reg.tdlen ∉ ownRegs) hs with heq | rfl |
        ⟨addr, val, rfl, hindex⟩
      · exact ⟨v, heq.trans hv⟩
      · exact ⟨0, e1000Reset_macReg _ (by decide) (by decide) (by decide)⟩
      · obtain ⟨w₁, hwrite, hs⟩ := Run.bind_eq_ok.mp hs
        cases hs
        rw [e1000MmioWrite, hindex, show macregWriteops Reg.tdlen = some .setDlen from rfl]
          at hwrite
        cases hwrite
        exact ⟨val.setWidth 32, World.reg_setReg_self _ _ _⟩
  obtain ⟨v, hv⟩ := hmask
  have hmod := toNat_and_dlenMask_mod v
  rw [← hv] at hmod
  exact ⟨_, (Nat.mul_div_cancel' (Nat.dvd_of_mod_eq_zero hmod)).symm⟩

/-- `TDLEN` of a reachable device tells its ring, so only the head has to be in it. -/
theorem Reachable.exists_transmits {w : World} (h : Reachable w)
    (hen : test (w.reg Reg.tctl) tctlEn = true)
    (hhead : (w.reg Reg.tdh).toNat < (w.reg Reg.tdlen).toNat / descBytes)
    (hproc : ∀ st, Heads (xmitBody (w.reg Reg.tdh)) ⟨w, icrTxqe⟩ st →
      DescProcessed ((w.reg Reg.tdlen).toNat / descBytes) st.world) :
    ∃ fuel w', startXmit fuel w = .ok w' ∧
      Transmits w ((w.reg Reg.tdlen).toNat / descBytes) fuel w' := by
  obtain ⟨n, hlen⟩ := h.tdlen_eq
  have hslots : (w.reg Reg.tdlen).toNat / descBytes = n := by
    rw [hlen, Nat.mul_div_cancel_left _ (by decide)]
  rw [hslots] at hhead hproc ⊢
  exact E1000.exists_transmits hen hlen hhead hproc

end SE4VM.E1000
