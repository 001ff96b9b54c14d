import SE4VM.E1000.Packet
import SE4VM.E1000.Reach

/-!
# What a reception does to the caller's packet

The buffers come in as `const`.  A tag is nevertheless removed in place, by
moving the addresses of the frame four bytes up, before the receiver knows
whether it has room for the frame.
-/

namespace SE4VM.E1000

open SE4VM.Foundation

/-! ## The moved header -/

theorem moveHeader_eq_self_iff {buf : List U8} (h : 16 ≤ buf.length) :
    moveHeader buf = buf ↔ buf.take 12 = (buf.drop 4).take 12 := by
  have hsplit : buf = buf.take 4 ++ (buf.drop 4).take 12 ++ buf.drop 16 := by
    rw [List.append_assoc, show buf.drop 16 = (buf.drop 4).drop 12 by rw [List.drop_drop],
      List.take_append_drop, List.take_append_drop]
  have hlen : (buf.take 12).length = ((buf.drop 4).take 12).length := by
    simp only [List.length_take, List.length_drop]
    omega
  constructor
  · intro heq
    have hparts := heq.trans hsplit
    rw [moveHeader, List.append_assoc, List.append_assoc, List.append_cancel_left_eq] at hparts
    exact (List.append_inj hparts hlen).1
  · intro heq
    rw [moveHeader, heq]
    exact hsplit.symm

/-! ## What the receiver hands back -/

/-- The packets whose header is moved where the caller keeps it. -/
def stripsInPlace (s : E1000State) (pkt : List U8) : Bool :=
  accepted s pkt && tagged s pkt && decide (minBufSize ≤ pkt.length)

/-- The caller's fragments after the packet's header has been moved in them. -/
structure Moved (iov iov' : Iov) : Prop where
  bytes : iov'.flatten = moveHeader iov.flatten
  lengths : iov'.map List.length = iov.map List.length

theorem Moved.eq_iff {iov iov' : Iov} (h : Moved iov iov') (hlen : 16 ≤ iov.flatten.length) :
    iov' = iov ↔ iov.flatten.take 12 = (iov.flatten.drop 4).take 12 := by
  rw [List.eq_iff_flatten_eq, h.bytes, ← moveHeader_eq_self_iff hlen]
  exact and_iff_left h.lengths

theorem moved_inPlace {first : List U8} (rest : Iov) (h : 16 ≤ first.length) :
    Moved (first :: rest) (moveHeader first :: rest) := by
  refine ⟨?_, by simp [length_moveHeader h]⟩
  simp only [List.flatten_cons, moveHeader]
  rw [List.take_append_of_le_length (by omega), List.take_append_of_le_length (by omega),
    List.drop_append_of_le_length h, List.append_assoc, List.append_assoc]

theorem moved_gathered {iov iov' : Iov} {done : Nat}
    (hlen : minBufSize ≤ iov.flatten.length)
    (h : iovFromBuf iov 4 (iov.flatten.take maximumEthernetHdrLen) 12 = .ok (iov', done)) :
    Moved iov iov' := by
  simp only [minBufSize] at hlen
  have hbuf : 12 ≤ (iov.flatten.take maximumEthernetHdrLen).length := by
    simp only [List.length_take, maximumEthernetHdrLen]
    omega
  obtain ⟨iov₁, hfrom, hflat, hlengths⟩ := iovFromBuf_eq iov hbuf
    (show 4 ≤ iov.flatten.length by omega)
  rw [hfrom] at h
  cases h
  refine ⟨?_, hlengths⟩
  rw [hflat, Nat.min_eq_left (show 12 ≤ iov.flatten.length - 4 by omega), List.take_take,
    overwrite, moveHeader, List.length_take,
    Nat.min_eq_left (show 12 ≤ maximumEthernetHdrLen by decide),
    Nat.min_eq_left (show 12 ≤ iov.flatten.length by omega)]

theorem stripVlan_callerIov {s : E1000State} {iov : Iov} {h : RxHeader} {p : RxPacket}
    (hne : iov ≠ []) (hh : receiveHeader iov = .ok h) (hp : stripVlan s iov h = .ok p) :
    if tagged s iov.flatten && decide (minBufSize ≤ iov.flatten.length) then
      Moved iov p.callerIov
    else p.callerIov = iov := by
  obtain ⟨h', hh', hok⟩ := receiveHeader_spec hne
  obtain rfl : h' = h := Run.ok.inj (hh'.symm.trans hh)
  have htag : (vlanEnabled s && isVlanPacket s h'.filterBuf) = tagged s iov.flatten := by
    rw [tagged, (header_congr s hok.header).2.1]
  simp only [stripVlan, htag] at hp
  cases ht : tagged s iov.flatten with
  | false =>
      simp only [ht, Bool.false_eq_true, if_false] at hp
      cases hp
      rfl
  | true =>
      simp only [ht, if_true] at hp
      simp only [receiveHeader, iovSize_eq, iovToBuf_zero, Run.ok_bind] at hh
      by_cases hshort : iov.flatten.length < minBufSize
      · rw [if_pos hshort] at hh
        cases hh
        cases hp
        rw [if_neg (by simpa using hshort)]
      · rw [if_neg hshort] at hh
        rw [if_pos (by simpa using hshort)]
        obtain ⟨first, rest, rfl⟩ := List.exists_cons_of_ne_nil hne
        dsimp only at hh
        split_ifs at hh with hfirst
        · cases hh
          obtain ⟨⟨iov', done⟩, hfrom, hp⟩ := Run.bind_eq_ok.mp hp
          obtain ⟨⟨tail, ofs⟩, -, hp⟩ := Run.bind_eq_ok.mp hp
          cases hp
          exact moved_gathered (by omega) hfrom
        · cases hh
          cases hp
          simp only [maximumEthernetHdrLen] at hfirst
          exact moved_inPlace rest (by omega)

theorem storePacket_callerIov {fuel : Nat} {w : World} {p : RxPacket} {r : Received}
    (h : storePacket fuel w p = .ok r) : r.callerIov = p.callerIov := by
  simp only [storePacket] at h
  split_ifs at h
  · obtain ⟨⟨wrapped, w₁⟩, -, hr⟩ := Run.bind_eq_ok.mp h
    dsimp only at hr
    split_ifs at hr <;> cases hr <;> rfl
  · cases h
    rfl

theorem e1000ReceiveIov_callerIov {fuel : Nat} {w : World} {iov : Iov} {r : Received}
    (h : e1000ReceiveIov fuel w iov = .ok r) :
    if stripsInPlace w.dev iov.flatten then Moved iov r.callerIov else r.callerIov = iov := by
  have hne : iov ≠ [] := by
    rintro rfl
    simp [e1000ReceiveIov] at h
  cases hacc : accepted w.dev iov.flatten with
  | false =>
      rw [receive_refused hne hacc] at h
      cases h
      simp [stripsInPlace, hacc]
  | true =>
      simp only [stripsInPlace, hacc, Bool.true_and]
      simp only [e1000ReceiveIov, if_neg hne] at h
      split_ifs at h with hlu hen
      · simp only [accepted, World.reg] at hacc hlu
        simp_all
      · simp only [accepted, World.reg] at hacc hen
        simp_all
      · obtain ⟨hd, hheader, h⟩ := Run.bind_eq_ok.mp h
        obtain ⟨hd', hheader', hok⟩ := receiveHeader_spec hne
        obtain rfl : hd' = hd := Run.ok.inj (hheader'.symm.trans hheader)
        split_ifs at h with hsize hfilter
        · rw [hok.size] at hsize
          simp [accepted, hsize] at hacc
        · rw [(header_congr w.dev hok.header).1] at hfilter
          simp_all [accepted]
        · obtain ⟨p, hp, h⟩ := Run.bind_eq_ok.mp h
          rw [storePacket_callerIov h]
          exact stripVlan_callerIov hne hheader hp

/-! ## The caller's packet -/

/--
The packet survives unless its header is moved in place, and then only if the move
changes nothing: each of the sixteen bytes repeats the one four places before it.
-/
theorem e1000ReceiveIov_keeps_input_iff {fuel : Nat} {w : World} {iov : Iov} {r : Received}
    (h : e1000ReceiveIov fuel w iov = .ok r) :
    r.callerIov = iov ↔ (stripsInPlace w.dev iov.flatten = true →
      iov.flatten.take 12 = (iov.flatten.drop 4).take 12) := by
  have hcaller := e1000ReceiveIov_callerIov h
  cases hstrip : stripsInPlace w.dev iov.flatten with
  | false =>
      rw [hstrip, if_neg (by decide)] at hcaller
      exact iff_of_true hcaller fun hno => absurd hno (by decide)
  | true =>
      have hlen : minBufSize ≤ iov.flatten.length := by
        simp only [stripsInPlace, Bool.and_eq_true, decide_eq_true_eq] at hstrip
        exact hstrip.2
      simp only [minBufSize] at hlen
      rw [hstrip, if_pos rfl] at hcaller
      rw [hcaller.eq_iff (by omega)]
      exact ⟨fun heq _ => heq, fun heq => heq rfl⟩

/-- Promiscuous, with tags removed, and without a single receive buffer. -/
def fullReceiver : World :=
  macWritereg (setCtrl (setRxControl (powerOn (fun _ => 0) 0 false Memory.blank) 0xa) ctrlVme)
    Reg.vet 0x8100

theorem reachable_fullReceiver : Reachable fullReceiver := by
  refine .mmioWrite ?_ 0x38#64 .macWritereg 0x8100 rfl fun _ => rfl
  refine .mmioWrite ?_ 0x0#64 .setCtrl ctrlVme rfl fun _ => rfl
  refine .mmioWrite ?_ 0x100#64 .setRxControl 0xa rfl fun _ => rfl
  exact .powerOn _ _ _ _

def taggedPacket : List U8 :=
  [1, 2, 3, 4, 5, 6, 7, 8, 9, 10, 11, 12, 0x81, 0, 0, 5] ++ List.replicate 44 0

theorem e1000Receive_fullReceiver :
    e1000Receive 0 fullReceiver taggedPacket =
      .ok ⟨-1, [moveHeader taggedPacket], setIcs fullReceiver icrRxo⟩ := rfl

theorem e1000ReceiveIov_keeps_input_tagged :
    ([moveHeader taggedPacket] = [taggedPacket] ↔
      (stripsInPlace fullReceiver.dev [taggedPacket].flatten = true →
        [taggedPacket].flatten.take 12 = ([taggedPacket].flatten.drop 4).take 12)) ∧
      stripsInPlace fullReceiver.dev [taggedPacket].flatten = true :=
  ⟨e1000ReceiveIov_keeps_input_iff e1000Receive_fullReceiver, by decide +kernel⟩

/-- The call fails for want of a buffer, and the caller's packet has changed all the same. -/
theorem e1000Receive_changes_input :
    Reachable fullReceiver ∧ ∃ r, e1000Receive 0 fullReceiver taggedPacket = .ok r ∧
      r.ret = -1 ∧ r.callerIov ≠ [taggedPacket] :=
  ⟨reachable_fullReceiver, _, e1000Receive_fullReceiver, rfl, by decide⟩

end SE4VM.E1000
