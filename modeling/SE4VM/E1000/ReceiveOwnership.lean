import SE4VM.E1000.ReceiveRing

/-!
# The descriptors a packet touches

The driver hands the device the slots from `RDH` up to `RDT`.  The check before
the loop counts every one of them as a full buffer, but a null descriptor takes
nothing, and the loop itself never looks at `RDT` again.  The packet stays
inside the interval exactly if the buffers met there are enough for it.
-/

namespace SE4VM.E1000

open SE4VM.Foundation

/-! ## Ownership -/

def rxSlots (w : World) : Nat := (w.reg Reg.rdlen).toNat / descBytes

/-- Slot `i` is one of those from `RDH` up to, but not including, `RDT`. -/
def Owned (w : World) (i : U32) : Prop :=
  i.toNat < rxSlots w ∧
    ringDist (rxSlots w) (w.reg Reg.rdh).toNat i.toNat <
      ringDist (rxSlots w) (w.reg Reg.rdh).toNat (w.reg Reg.rdt).toNat

def Event.rxDescAddr : Event → Option U64
  | .dmaRead .rxDesc addr _ => some addr
  | .dmaWrite .rxDesc addr _ => some addr
  | _ => none

/-- Of the receive ring, only owned slots are read or written between `w` and `w'`. -/
def TouchesOwned (w w' : World) : Prop :=
  ∃ es, w'.log = es ++ w.log ∧ ∀ e ∈ es, ∀ addr, e.rxDescAddr = some addr →
    ∃ i, Owned w i ∧ addr = descAddr (rxDescBase w.dev) i

def ReceiveOwned (w : World) (iov : Iov) : Prop :=
  ∃ fuel r, e1000ReceiveIov fuel w iov = .ok r ∧ TouchesOwned w r.world

/-! ## Transfers of a walk -/

theorem DataWrites.rxDescAddr {ba : U64} {bs : List U8} {es : List Event}
    (h : DataWrites ba bs es) : ∀ e ∈ es, e.rxDescAddr = none := by
  induction h with
  | nil => simp
  | cons _ ih =>
      intro e he
      rcases List.mem_append.mp he with he | he
      · exact ih e he
      · rw [List.mem_singleton.mp he]
        rfl

theorem Realises.rxDescAddr_iff {base : U64} {vs : List Visit} {es : List Event}
    (h : Realises base vs es) (addr : U64) :
    (∃ e ∈ es, e.rxDescAddr = some addr) ↔ ∃ v ∈ vs, addr = descAddr base v.index := by
  induction vs generalizing es with
  | nil =>
      obtain rfl : es = [] := h
      simp
  | cons v vs ih =>
      obtain ⟨ds, es', rfl, hds, hvs⟩ := h
      have hcons : (∃ v' ∈ v :: vs, addr = descAddr base v'.index) ↔
          addr = descAddr base v.index ∨ ∃ e ∈ es', e.rxDescAddr = some addr := by
        rw [List.exists_mem_cons_iff, ih hvs]
      rw [hcons]
      constructor
      · rintro ⟨e, he, haddr⟩
        rcases List.mem_cons.mp he with rfl | he
        · exact .inl (Option.some.inj haddr).symm
        rcases List.mem_append.mp he with he | he
        · rw [hds.rxDescAddr e he] at haddr
          cases haddr
        rcases List.mem_cons.mp he with rfl | he
        · exact .inl (Option.some.inj haddr).symm
        · exact .inr ⟨e, he, haddr⟩
      · rintro (rfl | ⟨e, he, haddr⟩)
        · exact ⟨_, List.mem_cons_self, rfl⟩
        · exact ⟨e, by simp [he], haddr⟩

namespace RxTask

variable {t : RxTask} {s : RxPos}

theorem visits_rxVisit : (t.rxVisit s).visits = t.visit s :: s.visits := rfl

theorem visits_iterate (hs : s.visits = []) (k : Nat) :
    (t.rxVisit^[k] s).visits.reverse =
      (List.range k).map fun j => t.visit (t.rxVisit^[j] s) := by
  induction k with
  | zero => simp [hs]
  | succ k ih =>
      rw [Function.iterate_succ_apply', visits_rxVisit, List.reverse_cons, ih,
        List.range_succ, List.map_append, List.map_singleton]

theorem visit_index (t : RxTask) (s : RxPos) : (t.visit s).index = s.rdh := by
  rw [visit]
  split_ifs <;> rfl

theorem forall_visits_iterate (P : U32 → Prop) (hs : s.visits = []) (k : Nat) :
    (∀ v ∈ (t.rxVisit^[k] s).visits, P v.index) ↔ ∀ j < k, P (t.rxVisit^[j] s).rdh := by
  have hmem : ∀ v, v ∈ (t.rxVisit^[k] s).visits ↔
      ∃ j < k, t.visit (t.rxVisit^[j] s) = v := by
    intro v
    rw [← List.mem_reverse, visits_iterate hs, List.mem_map]
    simp only [List.mem_range]
  simp only [hmem, forall_exists_index, and_imp, forall_apply_eq_imp_iff₂, visit_index]

theorem length_chunk_le (t : RxTask) (s : RxPos) : (t.visit s).chunk.length ≤ t.rxbuf := by
  rw [visit]
  split_ifs
  · exact Nat.zero_le _
  · rw [List.length_take]
    exact Nat.min_le_left _ _

theorem fetch_rxVisit_of_ne {i : U32} (hi : i ≠ s.rdh)
    (hapart : Memory.Disjoint (descAddr t.base i) descBytes (t.fetched s).bufferAddr t.rxbuf) :
    RxDesc.fetch (t.rxVisit s).mem (descAddr t.base i) =
      RxDesc.fetch s.mem (descAddr t.base i) := by
  rw [rxVisit, RxDesc.fetch_write_other _ _ hi, RxDesc.fetch,
    Memory.read_write_of_disjoint _ (hapart.mono (length_chunk_le t s)), RxDesc.fetch]

/-! ## Buffers met by a walk -/

/-- How many of the next `d` descriptors have a buffer when the walk reaches them. -/
def buffersMet (t : RxTask) (s : RxPos) (d : Nat) : Nat :=
  (List.range d).countP fun j => (t.fetched (t.rxVisit^[j] s)).bufferAddr ≠ 0#64

theorem buffersMet_succ (t : RxTask) (s : RxPos) (d : Nat) :
    t.buffersMet s (d + 1) = t.buffersMet s d +
      if (t.fetched (t.rxVisit^[d] s)).bufferAddr = 0#64 then 0 else 1 := by
  rw [buffersMet, List.range_succ, List.countP_append, List.countP_singleton, buffersMet]
  by_cases hnull : (t.fetched (t.rxVisit^[d] s)).bufferAddr = 0#64
  · rw [if_pos hnull, if_neg (by simpa using hnull)]
  · rw [if_neg hnull, if_pos (by simpa using hnull)]

theorem buffersMet_le (t : RxTask) (s : RxPos) (d : Nat) : t.buffersMet s d ≤ d :=
  List.countP_le_length.trans_eq List.length_range

theorem buffersMet_eq_iff (t : RxTask) (s : RxPos) (d : Nat) :
    t.buffersMet s d = d ↔ ∀ j < d, (t.fetched (t.rxVisit^[j] s)).bufferAddr ≠ 0#64 := by
  have hcount := List.countP_eq_length (l := List.range d)
    (p := fun j => (t.fetched (t.rxVisit^[j] s)).bufferAddr ≠ 0#64)
  rw [List.length_range] at hcount
  rw [buffersMet, hcount]
  simp only [List.mem_range, decide_eq_true_eq]

theorem off_iterate (hs : s.off = 0) (d : Nat) :
    (t.rxVisit^[d] s).off = min t.params.totalSize (t.buffersMet s d * t.rxbuf) := by
  induction d with
  | zero => simp [buffersMet, hs]
  | succ d ih =>
      rw [Function.iterate_succ_apply', buffersMet_succ]
      by_cases hnull : (t.fetched (t.rxVisit^[d] s)).bufferAddr = 0#64
      · rw [off_of_null hnull, ih, if_pos hnull, Nat.add_zero]
      · rw [off_of_ne hnull, ih, if_neg hnull, Nat.add_mul, descSize]
        omega

theorem off_iterate_mono (t : RxTask) (s : RxPos) {i j : Nat} (h : i ≤ j) :
    (t.rxVisit^[i] s).off ≤ (t.rxVisit^[j] s).off := by
  induction j, h using Nat.le_induction with
  | base => exact le_refl _
  | succ j _ ih =>
      rw [Function.iterate_succ_apply']
      exact ih.trans off_le_rxVisit

end RxTask

/-! ## The walk and the interval -/

def ownedSlots (w : World) : Nat :=
  ringDist (rxSlots w) (w.reg Reg.rdh).toNat (w.reg Reg.rdt).toNat

/-- The bytes that the buffers met among the owned slots can take. -/
def ownedRoom (w : World) (pkt : List U8) : Nat :=
  (frameTask w pkt).buffersMet (rxStart w) (ownedSlots w) * w.dev.rxbufSize.toNat

def rxSlot (w : World) (j : Nat) : U32 :=
  BitVec.ofNat 32 (((w.reg Reg.rdh).toNat + j) % rxSlots w)

def rxDescAt (w : World) (j : Nat) : RxDesc :=
  RxDesc.fetch w.mem (descAddr (rxDescBase w.dev) (rxSlot w j))

/-- No receive buffer reaches into the ring. -/
def BuffersApart (w : World) : Prop :=
  ∀ i j : U32, i.toNat < rxSlots w → j.toNat < rxSlots w →
    Memory.Disjoint (descAddr (rxDescBase w.dev) j) descBytes
      (RxDesc.fetch w.mem (descAddr (rxDescBase w.dev) i)).bufferAddr w.dev.rxbufSize.toNat

theorem rxSlots_lt (w : World) : rxSlots w < 2 ^ 32 := by
  have hlen := (w.reg Reg.rdlen).isLt
  simp only [rxSlots, descBytes]
  omega

theorem slots_eq_rxSlots {w : World} (h : RegInv w.dev) (hpos : 0 < rxSlots w) :
    slots (w.reg Reg.rdlen) = rxSlots w := by
  have hmod : (w.reg Reg.rdlen).toNat % descBytes = 0 := h.rdlen_bounds.1
  simp only [rxSlots, slots, descBytes] at *
  omega

section Interval

variable {w : World} {pkt : List U8} (hrdh : (w.reg Reg.rdh).toNat < rxSlots w)
  (hinv : RegInv w.dev) (hrdt : (w.reg Reg.rdt).toNat < rxSlots w)

include hrdh

theorem toNat_rxSlot (j : Nat) :
    (rxSlot w j).toNat = ((w.reg Reg.rdh).toNat + j) % rxSlots w := by
  have hlt := rxSlots_lt w
  have hmod : ((w.reg Reg.rdh).toNat + j) % rxSlots w < rxSlots w :=
    Nat.mod_lt _ (by omega)
  rw [rxSlot, BitVec.toNat_ofNat, Nat.mod_eq_of_lt (by omega)]

theorem rxSlot_lt (j : Nat) : (rxSlot w j).toNat < rxSlots w := by
  rw [toNat_rxSlot hrdh]
  exact Nat.mod_lt _ (by omega)

theorem rxSlot_ne {i j : Nat} (hij : i < j) (hj : j < rxSlots w) :
    rxSlot w i ≠ rxSlot w j := by
  intro heq
  have htoNat := congrArg BitVec.toNat heq
  rw [toNat_rxSlot hrdh, toNat_rxSlot hrdh] at htoNat
  have hi := ringDist_add_mod hrdh (show i < rxSlots w by omega)
  rw [htoNat, ringDist_add_mod hrdh hj] at hi
  omega

include hinv

theorem rdh_walk (j : Nat) :
    ((frameTask w pkt).rxVisit^[j] (rxStart w)).rdh.toNat =
      ((w.reg Reg.rdh).toNat + j) % rxSlots w := by
  have hslots : slots (frameTask w pkt).rdlen = rxSlots w :=
    slots_eq_rxSlots hinv (by omega)
  rw [RxTask.toNat_rdh_iterate, hslots]
  exact ringSucc_iterate hrdh j

theorem rdh_walk_eq (j : Nat) :
    ((frameTask w pkt).rxVisit^[j] (rxStart w)).rdh = rxSlot w j :=
  BitVec.eq_of_toNat_eq ((rdh_walk hrdh hinv j).trans (toNat_rxSlot hrdh j).symm)

theorem owned_walk_iff {j : Nat} (hj : j < rxSlots w) :
    Owned w ((frameTask w pkt).rxVisit^[j] (rxStart w)).rdh ↔ j < ownedSlots w := by
  rw [Owned, rdh_walk hrdh hinv, ringDist_add_mod hrdh hj]
  exact and_iff_right (Nat.mod_lt _ (by omega))

theorem stop_walk_iff {j : Nat} (hpos : 0 < j) (hj : j < rxSlots w) :
    (frameTask w pkt).Stop ((frameTask w pkt).rxVisit^[j] (rxStart w)) ↔
      (frameParams w pkt).totalSize ≤ ((frameTask w pkt).rxVisit^[j] (rxStart w)).off := by
  refine or_iff_right fun hback => ?_
  have heq := congrArg BitVec.toNat hback
  rw [rdh_walk hrdh hinv] at heq
  have hdist := ringDist_add_mod hrdh hj
  rw [heq] at hdist
  simp [frameTask, rxTask, frameParams] at hdist
  omega

theorem fetched_walk (hapart : BuffersApart w) {j : Nat} (hj : j < rxSlots w) :
    (frameTask w pkt).fetched ((frameTask w pkt).rxVisit^[j] (rxStart w)) = rxDescAt w j := by
  have hlater : ∀ k ≤ j, ∀ i, k ≤ i → i < rxSlots w →
      RxDesc.fetch ((frameTask w pkt).rxVisit^[k] (rxStart w)).mem
        (descAddr (rxDescBase w.dev) (rxSlot w i)) = rxDescAt w i := by
    intro k
    induction k with
    | zero => exact fun _ _ _ _ => rfl
    | succ k ih =>
        intro hk i hi hin
        have hhere : (frameTask w pkt).fetched ((frameTask w pkt).rxVisit^[k] (rxStart w)) =
            rxDescAt w k := by
          rw [RxTask.fetched, rdh_walk_eq hrdh hinv]
          exact ih (by omega) k (le_refl k) (by omega)
        rw [Function.iterate_succ_apply', ← ih (by omega) i (by omega) hin]
        refine RxTask.fetch_rxVisit_of_ne ?_ ?_
        · rw [rdh_walk_eq hrdh hinv]
          exact (rxSlot_ne hrdh (by omega) hin).symm
        · rw [hhere]
          exact hapart _ _ (rxSlot_lt hrdh k) (rxSlot_lt hrdh i)
  rw [RxTask.fetched, rdh_walk_eq hrdh hinv]
  exact hlater j (le_refl j) j (le_refl j) hj

theorem walk_back : (frameTask w pkt).Stop
    ((frameTask w pkt).rxVisit^[rxSlots w] (rxStart w)) := by
  refine .inl (BitVec.eq_of_toNat_eq ?_)
  rw [rdh_walk hrdh hinv, Nat.add_mod_right, Nat.mod_eq_of_lt hrdh]
  rfl

include hrdt

theorem walk_owned_iff (hne : w.reg Reg.rdh ≠ w.reg Reg.rdt) {k : Nat}
    (hstop : (frameTask w pkt).Stop ((frameTask w pkt).rxVisit^[k + 1] (rxStart w)))
    (hfirst : ∀ i < k, ¬ (frameTask w pkt).Stop
      ((frameTask w pkt).rxVisit^[i + 1] (rxStart w))) :
    (∀ v ∈ ((frameTask w pkt).rxVisit^[k + 1] (rxStart w)).visits, Owned w v.index) ↔
      (frameParams w pkt).totalSize ≤ ownedRoom w pkt := by
  have hlast : k < rxSlots w := by
    by_contra hge
    refine hfirst (rxSlots w - 1) (by omega) ?_
    rw [Nat.sub_add_cancel (by omega)]
    exact walk_back hrdh hinv
  have hd : ownedSlots w < rxSlots w := ringDist_lt hrdh hrdt
  have hd' : 0 < ownedSlots w := by
    rw [Nat.pos_iff_ne_zero]
    intro hzero
    have hadd := add_ringDist hrdh hrdt
    rw [show ringDist _ _ _ = 0 from hzero, Nat.add_zero, Nat.mod_eq_of_lt hrdh] at hadd
    exact hne (BitVec.eq_of_toNat_eq hadd)
  have hvisits : (∀ v ∈ ((frameTask w pkt).rxVisit^[k + 1] (rxStart w)).visits,
      Owned w v.index) ↔ k < ownedSlots w := by
    rw [RxTask.forall_visits_iterate (Owned w) rfl]
    constructor
    · intro hall
      exact (owned_walk_iff hrdh hinv hlast).mp (hall k (Nat.lt_succ_self k))
    · intro hk j hj
      exact (owned_walk_iff hrdh hinv (by omega)).mpr (by omega)
  have hoff : ((frameTask w pkt).rxVisit^[ownedSlots w] (rxStart w)).off =
      min (frameParams w pkt).totalSize (ownedRoom w pkt) := RxTask.off_iterate rfl _
  rw [hvisits]
  constructor
  · intro hk
    have hstored := (stop_walk_iff hrdh hinv (by omega) (by omega)).mp hstop
    have hmono := RxTask.off_iterate_mono (frameTask w pkt) (rxStart w)
      (show k + 1 ≤ ownedSlots w by omega)
    omega
  · intro hroom
    by_contra hge
    refine hfirst (ownedSlots w - 1) (by omega) ?_
    rw [Nat.sub_add_cancel hd', stop_walk_iff hrdh hinv hd' hd, hoff]
    omega

theorem ownedRoom_of_apart (hapart : BuffersApart w) :
    ownedRoom w pkt = ((List.range (ownedSlots w)).countP fun j =>
      (rxDescAt w j).bufferAddr ≠ 0#64) * w.dev.rxbufSize.toNat := by
  have hd : ownedSlots w < rxSlots w := ringDist_lt hrdh hrdt
  have hcount : (frameTask w pkt).buffersMet (rxStart w) (ownedSlots w) =
      (List.range (ownedSlots w)).countP fun j => (rxDescAt w j).bufferAddr ≠ 0#64 := by
    rw [RxTask.buffersMet]
    refine List.countP_congr fun j hj => ?_
    rw [fetched_walk hrdh hinv hapart ((List.mem_range.mp hj).trans hd)]
  rw [ownedRoom, hcount]

end Interval

/-! ## The call -/

theorem Event.rxDescAddr_of_isPin {e : Event} (h : e.isPin = true) : e.rxDescAddr = none := by
  cases e <;> simp_all [Event.isPin, Event.rxDescAddr]

theorem touchesOwned_of_pinsOnly {w w' : World} (h : PinsOnly w w') : TouchesOwned w w' := by
  obtain ⟨pins, hpin, hlog⟩ := h
  refine ⟨pins, hlog, fun e he addr haddr => ?_⟩
  rw [Event.rxDescAddr_of_isPin (hpin e he)] at haddr
  cases haddr

theorem touchesOwned_iff_visits {w : World} {pkt : List U8} {r : Received} {s : RxPos}
    (h : RxResult w pkt r s) :
    TouchesOwned w r.world ↔ ∀ v ∈ s.visits, Owned w v.index := by
  obtain ⟨pins, es, hlog, hpin, hreal⟩ := h.log
  constructor
  · rintro ⟨es', hlog', howned⟩ v hv
    have hes' : es' = pins ++ es := by
      rw [hlog, ← List.append_assoc] at hlog'
      exact (List.append_cancel_right hlog').symm
    obtain ⟨e, he, haddr⟩ := (hreal.rxDescAddr_iff _).mpr ⟨v, hv, rfl⟩
    obtain ⟨i, hi, heq⟩ := howned e (by simp [hes', he]) _ haddr
    rwa [descAddr_injective _ heq]
  · intro hall
    refine ⟨pins ++ es, by rw [hlog, List.append_assoc], fun e he addr haddr => ?_⟩
    rcases List.mem_append.mp he with he | he
    · rw [Event.rxDescAddr_of_isPin (hpin e he)] at haddr
      cases haddr
    · obtain ⟨v, hv, rfl⟩ := (hreal.rxDescAddr_iff addr).mp ⟨e, he, haddr⟩
      exact ⟨v.index, hall v hv, rfl⟩

section Call

variable {w : World} {iov : Iov} (hinv : RegInv w.dev) (hne : iov ≠ [])
  (hrdh : (w.reg Reg.rdh).toNat < rxSlots w) (hrdt : (w.reg Reg.rdt).toNat < rxSlots w)

include hinv hne hrdh

theorem receiveReturns_of_inside (hring : entersRing w iov.flatten = true) :
    ReceiveReturns w iov := by
  rw [receiveReturns_iff_not_stuck hne hring]
  intro hstuck
  have hout := outsideRing_iff.mp hstuck.outside
  rw [slots_eq_rxSlots hinv (by omega)] at hout
  omega

include hrdt

theorem receiveOwned_iff_of_enters (hring : entersRing w iov.flatten = true) :
    ReceiveOwned w iov ↔ (frameParams w iov.flatten).totalSize ≤ ownedRoom w iov.flatten := by
  have hdiff : w.reg Reg.rdh ≠ w.reg Reg.rdt := by
    intro heq
    have hroom := (Bool.and_eq_true_iff.mp hring).2
    simp only [World.reg] at heq
    simp [e1000HasRxbufs, heq] at hroom
  have hrun : ∀ {fuel : Nat} {r : Received}, e1000ReceiveIov fuel w iov = .ok r →
      (TouchesOwned w r.world ↔
        (frameParams w iov.flatten).totalSize ≤ ownedRoom w iov.flatten) := by
    intro fuel r hr
    obtain ⟨s, hs, hres⟩ := (receive_sim hne hring fuel).ok_left hr
    obtain ⟨k, -, rfl, hstop, hfirst⟩ := loop_until_eq_ok.mp hs
    rw [touchesOwned_iff_visits hres]
    exact walk_owned_iff hrdh hinv hrdt hdiff hstop hfirst
  constructor
  · rintro ⟨fuel, r, hr, htouch⟩
    exact (hrun hr).mp htouch
  · intro hroom
    obtain ⟨fuel, r, hr⟩ := receiveReturns_of_inside hinv hne hrdh hring
    exact ⟨fuel, r, hr, (hrun hr).mpr hroom⟩

end Call

/--
With head and tail inside the ring the device keeps to the descriptors between
them, unless the packet enters the ring and the buffers met there are too few
for it.
-/
theorem receive_owned_iff (w : World) (frag : List U8) (rest : Iov) (hreach : Reachable w)
    (hrdh : (w.reg Reg.rdh).toNat < rxSlots w) (hrdt : (w.reg Reg.rdt).toNat < rxSlots w) :
    ReceiveOwned w (frag :: rest) ↔
      ¬ (entersRing w (frag :: rest).flatten = true ∧
        ownedRoom w (frag :: rest).flatten <
          (frameParams w (frag :: rest).flatten).totalSize) := by
  have hne : frag :: rest ≠ [] := by simp
  generalize frag :: rest = iov at *
  cases hring : entersRing w iov.flatten with
  | false =>
      obtain ⟨callerIov, hrun⟩ := receive_unstored hne hring
      refine iff_of_true ⟨0, _, hrun 0, ?_⟩ (by simp)
      split_ifs
      · exact touchesOwned_of_pinsOnly (setInterruptCause_pinsOnly w _)
      · exact touchesOwned_of_pinsOnly ⟨[], by simp, rfl⟩
  | true =>
      rw [receiveOwned_iff_of_enters hreach.regInv hne hrdh hrdt hring]
      simp

theorem receive_owned_small :
    ReceiveOwned (rxReady (rctlEn ||| rctlUpe) 128 0 1 fun _ => 0x10) [List.replicate 60 0] :=
  (receive_owned_iff _ _ [] (reachable_rxReady _ _ _ _ _) (by decide) (by decide)).mpr
    (by decide +kernel)

/-- The same packet passes a null descriptor and goes on to the one `RDT` points at. -/
theorem receive_not_owned :
    Reachable (rxReady (rctlEn ||| rctlUpe) 128 0 1 Memory.blank) ∧
      ReceiveReturns (rxReady (rctlEn ||| rctlUpe) 128 0 1 Memory.blank)
        [List.replicate 60 0] ∧
      ¬ ReceiveOwned (rxReady (rctlEn ||| rctlUpe) 128 0 1 Memory.blank)
        [List.replicate 60 0] := by
  have hreach := reachable_rxReady (rctlEn ||| rctlUpe) 128 0 1 Memory.blank
  have hring : entersRing (rxReady (rctlEn ||| rctlUpe) 128 0 1 Memory.blank)
      [List.replicate 60 0].flatten = true := by
    decide +kernel
  refine ⟨hreach, receiveReturns_of_inside hreach.regInv (by simp) (by decide) hring, ?_⟩
  rw [receiveOwned_iff_of_enters hreach.regInv (by simp) (by decide) (by decide) hring]
  decide +kernel

end SE4VM.E1000
