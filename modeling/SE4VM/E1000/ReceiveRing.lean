import SE4VM.E1000.Reach
import SE4VM.E1000.ReceiveWalk

/-!
# Where the receiver's walk ends

The walk ends when the head is back at its start or the frame is stored.  From
inside the ring the head always comes back.  From outside it does not, and then
the walk lives on the descriptors with a buffer: one that has been used is
written back with its buffer address, so progress, once possible, recurs.
-/

namespace SE4VM.E1000

open SE4VM.Foundation

/-! ## Null descriptors along the walk -/

namespace RxTask

variable {t : RxTask} {s : RxPos}

def Null (t : RxTask) (mem : Memory) (i : U32) : Prop :=
  (RxDesc.fetch mem (descAddr t.base i)).bufferAddr = 0#64

instance (t : RxTask) (mem : Memory) (i : U32) : Decidable (t.Null mem i) :=
  inferInstanceAs (Decidable (_ = _))

theorem stored_bufferAddr (t : RxTask) (s : RxPos) :
    (t.visit s).stored.bufferAddr = (t.fetched s).bufferAddr := by
  rw [visit]
  split_ifs <;> rfl

theorem null_rxVisit_self : t.Null (t.rxVisit s).mem s.rdh ↔ t.Null s.mem s.rdh := by
  rw [Null, rxVisit, RxDesc.fetch_write_self, stored_bufferAddr]
  rfl

theorem null_rxVisit_of_ne {i : U32} (h : i ≠ s.rdh) :
    t.Null (t.rxVisit s).mem i ↔
      t.Null (s.mem.write (t.fetched s).bufferAddr (t.visit s).chunk) i := by
  rw [Null, rxVisit, RxDesc.fetch_write_other _ _ h, Null]

theorem null_rxVisit_of_null (h : t.Null s.mem s.rdh) (i : U32) :
    t.Null (t.rxVisit s).mem i ↔ t.Null s.mem i := by
  by_cases hi : i = s.rdh
  · rw [hi]
    exact null_rxVisit_self
  · rw [null_rxVisit_of_ne hi, visit_of_null h, Memory.write_nil]

theorem toNat_rdh_rxVisit : (t.rxVisit s).rdh.toNat = ringSucc (slots t.rdlen) s.rdh.toNat :=
  toNat_ringNext t.rdlen s.rdh

theorem toNat_rdh_iterate (t : RxTask) (s : RxPos) (k : Nat) :
    (t.rxVisit^[k] s).rdh.toNat = (ringSucc (slots t.rdlen))^[k] s.rdh.toNat := by
  induction k generalizing s with
  | zero => rfl
  | succ k ih =>
      rw [Function.iterate_succ_apply, Function.iterate_succ_apply, ih, toNat_rdh_rxVisit]

/-! ## Walks that end -/

theorem stops_of_start_inside (hstart : s.rdh = t.params.rdhStart)
    (hin : s.rdh.toNat < slots t.rdlen) : ∃ k, t.Stop (t.rxVisit^[k + 1] s) := by
  refine ⟨slots t.rdlen - 1, .inl (BitVec.eq_of_toNat_eq ?_)⟩
  rw [Nat.sub_add_cancel (slots_pos _), toNat_rdh_iterate, ringSucc_iterate hin,
    Nat.add_mod_right, Nat.mod_eq_of_lt hin, hstart]

theorem off_lt_of_ne (hbuf : 0 < t.rxbuf) (hne : ¬ t.Null s.mem s.rdh)
    (hmore : s.off < t.params.totalSize) : s.off < (t.rxVisit s).off := by
  rw [off_of_ne hne, descSize]
  omega

theorem off_le_rxVisit : s.off ≤ (t.rxVisit s).off := by
  by_cases hnull : (t.fetched s).bufferAddr = 0#64
  · rw [off_of_null hnull]
  · rw [off_of_ne hnull]
    omega

/--
A slot with a buffer keeps the walk progressing: the measure is the number of
missing bytes, then the distance to a slot known to have a buffer.
-/
theorem stops_of_buffer (hbuf : 0 < t.rxbuf) (j : U32) (hs : s.rdh.toNat < slots t.rdlen)
    (hj : j.toNat < slots t.rdlen) (hne : ¬ t.Null s.mem j) :
    ∃ k, t.Stop (t.rxVisit^[k + 1] s) := by
  induction hm : (t.params.totalSize - s.off) * slots t.rdlen +
      ringDist (slots t.rdlen) s.rdh.toNat j.toNat using Nat.strongRecOn
      generalizing s j with
  | ind m ih =>
      by_cases hstop : t.Stop (t.rxVisit s)
      · exact ⟨0, hstop⟩
      obtain ⟨-, hmore⟩ := not_or.mp hstop
      have hs' : (t.rxVisit s).rdh.toNat < slots t.rdlen := by
        rw [toNat_rdh_rxVisit]
        exact ringSucc_lt (slots_pos _) _
      have hoff : s.off ≤ (t.rxVisit s).off := off_le_rxVisit
      suffices h : ∃ k, t.Stop (t.rxVisit^[k + 1] (t.rxVisit s)) by
        obtain ⟨k, hk⟩ := h
        exact ⟨k + 1, hk⟩
      by_cases hnull : t.Null s.mem s.rdh
      · have hsj : s.rdh.toNat ≠ j.toNat := fun h => by
          rw [BitVec.eq_of_toNat_eq h] at hnull
          exact hne hnull
        have hdist := ringDist_ringSucc hs hj hsj
        refine ih _ ?_ j hs' hj (by rwa [null_rxVisit_of_null hnull]) rfl
        rw [off_of_null hnull, toNat_rdh_rxVisit]
        omega
      · have hlt := off_lt_of_ne hbuf hnull (by omega)
        refine ih _ ?_ s.rdh hs' hs (by rwa [null_rxVisit_self]) rfl
        have hdist := ringDist_lt hs' hs
        have hbytes : (t.params.totalSize - (t.rxVisit s).off + 1) * slots t.rdlen ≤
            (t.params.totalSize - s.off) * slots t.rdlen :=
          Nat.mul_le_mul_right _ (by omega)
        rw [Nat.add_mul, Nat.one_mul] at hbytes
        omega

/-! ## Walks that do not end -/

/-- Inside the ring without a buffer anywhere nothing changes any more. -/
theorem not_stops_of_null (hstart : slots t.rdlen ≤ t.params.rdhStart.toNat)
    (hs : s.rdh.toNat < slots t.rdlen) (hmore : s.off < t.params.totalSize)
    (hnull : ∀ i : U32, i.toNat < slots t.rdlen → t.Null s.mem i) (k : Nat) :
    ¬ t.Stop (t.rxVisit^[k] s) := by
  induction k generalizing s with
  | zero =>
      rintro (hwrap | hend)
      · rw [Function.iterate_zero, id] at hwrap
        rw [← hwrap] at hstart
        omega
      · rw [Function.iterate_zero, id] at hend
        omega
  | succ k ih =>
      have hhere := hnull s.rdh hs
      rw [Function.iterate_succ_apply]
      refine ih ?_ (by rwa [off_of_null hhere]) fun i hi => ?_
      · rw [toNat_rdh_rxVisit]
        exact ringSucc_lt (slots_pos _) _
      · rw [null_rxVisit_of_null hhere]
        exact hnull i hi

end RxTask

/-! ## Termination of the receive loop -/

def ReceiveReturns (w : World) (iov : Iov) : Prop :=
  ∃ fuel r, e1000ReceiveIov fuel w iov = .ok r

def firstDesc (w : World) : RxDesc := RxDesc.fetch w.mem (rxHeadAddr w)

/-- Guest memory once the first buffer, if there is one, has been filled. -/
def firstFilled (w : World) (pkt : List U8) : Memory :=
  if (firstDesc w).bufferAddr = 0#64 then w.mem
  else w.mem.write (firstDesc w).bufferAddr
    ((frameBytes w.dev pkt).take w.dev.rxbufSize.toNat)

/--
The head is outside the ring, the descriptor it points at cannot take the whole
frame, and no descriptor of the ring has a buffer.
-/
structure RxStuck (w : World) (pkt : List U8) : Prop where
  outside : OutsideRing (w.reg Reg.rdlen) (w.reg Reg.rdh)
  first : (firstDesc w).bufferAddr = 0#64 ∨
    w.dev.rxbufSize.toNat < (frameParams w pkt).totalSize
  ring : ∀ i : U32, ¬ OutsideRing (w.reg Reg.rdlen) i →
    (RxDesc.fetch (firstFilled w pkt) (descAddr (rxDescBase w.dev) i)).bufferAddr = 0#64

theorem frame_pos (w : World) (pkt : List U8) : 0 < (frameParams w pkt).totalSize := by
  have hlen := length_frameBytes w.dev pkt
  have hpad := length_padFrame pkt
  simp only [minBufSize] at hpad
  simp only [frameParams]
  split_ifs at hlen <;> omega

theorem rxbuf_pos_of_hasRxbufs {s : E1000State} {total : Nat} (hpos : 0 < total)
    (h : e1000HasRxbufs s total = true) : 0 < s.rxbufSize.toNat := by
  by_contra hzero
  have hz : s.rxbufSize = 0#32 := BitVec.eq_of_toNat_eq (by simpa using hzero)
  have hover : ¬ total ≤ s.rxbufSize.toNat := by omega
  -- A product with the zero buffer size is never enough for the frame.
  simp only [e1000HasRxbufs, if_neg hover] at h
  rw [hz] at h
  split_ifs at h <;> simp only [BitVec.mul_zero, BitVec.toNat_ofNat, Nat.zero_mod,
    decide_eq_true_eq] at h <;> omega

section First

variable (w : World) (pkt : List U8)

def afterFirst : RxPos := (frameTask w pkt).rxVisit (rxStart w)

theorem afterFirst_off : (afterFirst w pkt).off =
    if (firstDesc w).bufferAddr = 0#64 then 0
    else min (frameParams w pkt).totalSize w.dev.rxbufSize.toNat := by
  by_cases hnull : (firstDesc w).bufferAddr = 0#64
  · rw [if_pos hnull]
    exact RxTask.off_of_null (t := frameTask w pkt) (s := rxStart w) hnull
  · rw [if_neg hnull]
    exact (RxTask.off_of_ne (t := frameTask w pkt) (s := rxStart w) hnull).trans
      (Nat.zero_add _)

theorem null_afterFirst {i : U32} (hi : i ≠ w.reg Reg.rdh) :
    (frameTask w pkt).Null (afterFirst w pkt).mem i ↔
      (RxDesc.fetch (firstFilled w pkt) (descAddr (rxDescBase w.dev) i)).bufferAddr =
        0#64 := by
  have hfill : w.mem.write (firstDesc w).bufferAddr
      ((frameTask w pkt).visit (rxStart w)).chunk = firstFilled w pkt := by
    rw [firstFilled]
    by_cases hnull : (firstDesc w).bufferAddr = 0#64
    · rw [if_pos hnull,
        RxTask.visit_of_null (t := frameTask w pkt) (s := rxStart w) hnull, Memory.write_nil]
    · rw [if_neg hnull, RxTask.visit_of_ne (t := frameTask w pkt) (s := rxStart w) hnull]
      rfl
  rw [afterFirst, RxTask.null_rxVisit_of_ne hi, RxTask.Null]
  exact iff_of_eq (congrArg (fun m => (RxDesc.fetch m _).bufferAddr = 0#64) hfill)

end First

theorem walk_stops_iff (w : World) (pkt : List U8) (hbuf : 0 < w.dev.rxbufSize.toNat) :
    (∃ k, (frameTask w pkt).Stop ((frameTask w pkt).rxVisit^[k + 1] (rxStart w))) ↔
      ¬ RxStuck w pkt := by
  have hpos := frame_pos w pkt
  by_cases hout : OutsideRing (w.reg Reg.rdlen) (w.reg Reg.rdh)
  · have hge : slots (w.reg Reg.rdlen) ≤ (w.reg Reg.rdh).toNat := outsideRing_iff.mp hout
    have hin : (afterFirst w pkt).rdh.toNat < slots (w.reg Reg.rdlen) := by
      rw [afterFirst, RxTask.toNat_rdh_rxVisit]
      exact ringSucc_lt (slots_pos _) _
    have hoff := afterFirst_off w pkt
    have hne : ∀ i : U32, i.toNat < slots (w.reg Reg.rdlen) → i ≠ w.reg Reg.rdh := by
      rintro i hi rfl
      omega
    constructor
    · rintro ⟨k, hstop⟩ hstuck
      refine RxTask.not_stops_of_null (t := frameTask w pkt) hge hin ?_ (fun i hi => ?_) k hstop
      · rw [hoff]
        change _ < (frameParams w pkt).totalSize
        split_ifs with hnull
        · exact hpos
        · have hlt := hstuck.first.resolve_left hnull
          omega
      · rw [null_afterFirst w pkt (hne i hi)]
        exact hstuck.ring i (by rw [outsideRing_iff]; exact not_le.mpr hi)
    · intro hgo
      by_cases hend : (frameTask w pkt).Stop (afterFirst w pkt)
      · exact ⟨0, hend⟩
      -- The frame is not stored yet, so some slot of the ring must have a buffer.
      have hmore : (afterFirst w pkt).off < (frameParams w pkt).totalSize :=
        not_le.mp (not_or.mp hend).2
      have hfirst : (firstDesc w).bufferAddr = 0#64 ∨
          w.dev.rxbufSize.toNat < (frameParams w pkt).totalSize := by
        rw [hoff] at hmore
        split_ifs at hmore with hnull
        · exact .inl hnull
        · right
          omega
      obtain ⟨j, hj, hbuffer⟩ : ∃ j : U32, j.toNat < slots (w.reg Reg.rdlen) ∧
          ¬ (frameTask w pkt).Null (afterFirst w pkt).mem j := by
        by_contra hall
        push Not at hall
        refine hgo ⟨hout, hfirst, fun i hi => ?_⟩
        have hlt : i.toNat < slots (w.reg Reg.rdlen) := by
          rwa [outsideRing_iff, not_le] at hi
        exact (null_afterFirst w pkt (hne i hlt)).mp (hall i hlt)
      obtain ⟨k, hk⟩ := RxTask.stops_of_buffer (t := frameTask w pkt) hbuf j hin hj hbuffer
      exact ⟨k + 1, hk⟩
  · have hin : (w.reg Reg.rdh).toNat < slots (w.reg Reg.rdlen) := by
      rw [outsideRing_iff, not_le] at hout
      exact hout
    exact iff_of_true (RxTask.stops_of_start_inside rfl hin) fun h => hout h.outside

theorem receiveReturns_iff_not_stuck {w : World} {iov : Iov} (hne : iov ≠ [])
    (h : entersRing w iov.flatten = true) :
    ReceiveReturns w iov ↔ ¬ RxStuck w iov.flatten := by
  have hbuf := rxbuf_pos_of_hasRxbufs (frame_pos w iov.flatten) (Bool.and_eq_true_iff.mp h).2
  rw [← walk_stops_iff w _ hbuf, ← exists_loop_until]
  constructor
  · rintro ⟨fuel, r, hr⟩
    obtain ⟨s, hs, -⟩ := (receive_sim hne h fuel).ok_left hr
    exact ⟨fuel, s, hs⟩
  · rintro ⟨fuel, s, hs⟩
    obtain ⟨r, hr, -⟩ := (receive_sim hne h fuel).ok_right hs
    exact ⟨fuel, r, hr⟩

/--
`e1000_receive_iov` returns on every packet, unless the packet enters the ring
and the walk is stuck there.
-/
theorem receive_returns_iff (w : World) (frag : List U8) (rest : Iov) :
    ReceiveReturns w (frag :: rest) ↔
      ¬ (entersRing w (frag :: rest).flatten = true ∧ RxStuck w (frag :: rest).flatten) := by
  have hne : frag :: rest ≠ [] := by simp
  generalize frag :: rest = iov at *
  cases hring : entersRing w iov.flatten with
  | false =>
      obtain ⟨callerIov, hrun⟩ := receive_unstored hne hring
      exact iff_of_true ⟨0, _, hrun 0⟩ (by simp)
  | true =>
      rw [receiveReturns_iff_not_stuck hne hring]
      simp

theorem fetch_blank_bufferAddr (base : U64) :
    (RxDesc.fetch Memory.blank base).bufferAddr = 0#64 := by
  rw [RxDesc.fetch, Memory.read_blank]
  decide

/-- A head just behind the ring and descriptors without buffers: the walk goes on for ever. -/
theorem receive_stuck :
    Reachable (rxReady (rctlEn ||| rctlUpe) 128 8 0 Memory.blank) ∧
      ¬ ReceiveReturns (rxReady (rctlEn ||| rctlUpe) 128 8 0 Memory.blank)
        [List.replicate 60 0] := by
  refine ⟨reachable_rxReady _ _ _ _ _, ?_⟩
  have hring : entersRing (rxReady (rctlEn ||| rctlUpe) 128 8 0 Memory.blank)
      [List.replicate 60 0].flatten = true := by
    decide +kernel
  rw [receiveReturns_iff_not_stuck (by simp) hring, not_not]
  have hfirst : (firstDesc (rxReady (rctlEn ||| rctlUpe) 128 8 0 Memory.blank)).bufferAddr =
      0#64 := fetch_blank_bufferAddr _
  refine ⟨by decide, .inl hfirst, fun i _ => ?_⟩
  rw [firstFilled, if_pos hfirst]
  exact fetch_blank_bufferAddr _

end SE4VM.E1000
