import SE4VM.Foundation.Segment
import SE4VM.E1000.Capacity

/-!
# Scattering a frame over the ring

The specification of a stored packet: which descriptors are used, what is
written back to them, which bytes reach their buffers, and what the head and the
cause register say afterwards.  Over descriptors with buffers the walk meets it,
but for one status bit, `VP`, which is set on tagged frames and never cleared, and
for short tagged packets, which are padded before they lose their tag.
-/

namespace SE4VM.E1000

open SE4VM.Foundation

/-! ## Specification -/

section Spec

variable (w : World) (pkt : List U8)

def frameTotal : Nat := (specFrame w.dev pkt).length + fcsLen w.dev

/-- The number of buffers that the frame needs, rounded up. -/
def usedSlots : Nat :=
  (frameTotal w pkt + (w.dev.rxbufSize.toNat - 1)) / w.dev.rxbufSize.toNat

structure FilledDesc (j : Nat) (v : Visit) : Prop where
  index : v.index = rxSlot w j
  bufferAddr : v.stored.bufferAddr = v.fetched.bufferAddr
  length : v.stored.length.toNat =
    min w.dev.rxbufSize.toNat (frameTotal w pkt - j * w.dev.rxbufSize.toNat)
  dd : test v.stored.status rxdStatDd = true
  eop : test v.stored.status rxdStatEop = decide (j + 1 = usedSlots w pkt)
  special : v.stored.special = frameSpecial w.dev pkt
  vp : test v.stored.status rxdStatVp = tagged w.dev pkt

structure Fills (vs : List Visit) : Prop where
  count : vs.length = usedSlots w pkt
  desc : ∀ j v, vs[j]? = some v → FilledDesc w pkt j v
  bytes : (vs.map Visit.chunk).flatten = specFrame w.dev pkt

def rxCauses : U32 :=
  if descBytes * (ownedSlots w - usedSlots w pkt) ≤
      (w.reg Reg.rdlen >>> w.dev.rxbufMinShift.toNat).toNat then icrRxt0 ||| icrRxdmt0
  else icrRxt0

/-- What a stored packet leaves behind. -/
structure Scattered (w' : World) : Prop where
  transfers : ∃ pins es vs, w'.log = pins ++ (es ++ w.log) ∧ (∀ e ∈ pins, e.isPin = true) ∧
    Realises (rxDescBase w.dev) vs es ∧ Fills w pkt vs.reverse
  rdh : (w'.reg Reg.rdh).toNat =
    ((w.reg Reg.rdh).toNat + usedSlots w pkt) % rxSlots w
  icr : w'.reg Reg.icr = w.reg Reg.icr ||| rxCauses w pkt

end Spec

def ReceiveScattered (w : World) (iov : Iov) : Prop :=
  ∃ fuel r, e1000ReceiveIov fuel w iov = .ok r ∧ Scattered w iov.flatten r.world

/-- Without its tag the packet is still a minimum frame. -/
def StaysMinimum (s : E1000State) (pkt : List U8) : Prop :=
  tagged s pkt = true → minBufSize + 4 ≤ pkt.length

instance (s : E1000State) (pkt : List U8) : Decidable (StaysMinimum s pkt) :=
  inferInstanceAs (Decidable (_ → _))

theorem minBufSize_le_frameTotal (w : World) (pkt : List U8) :
    minBufSize + fcsLen w.dev ≤ frameTotal w pkt := by
  rw [frameTotal, specFrame, length_padFrame]
  omega

theorem StaysMinimum.frameTotal_eq {w : World} {pkt : List U8}
    (h : StaysMinimum w.dev pkt) : frameTotal w pkt = (frameParams w pkt).totalSize := by
  rw [frameTotal, ← frameBytes_eq_specFrame _ h]
  rfl

section Short

variable {w : World} {pkt : List U8} (hshort : ¬ StaysMinimum w.dev pkt)

include hshort

theorem frameTotal_of_short : frameTotal w pkt = minBufSize + fcsLen w.dev := by
  obtain ⟨htag, hlen⟩ := Classical.not_imp.mp hshort
  rw [frameTotal, specFrame, if_pos htag, length_padFrame, List.length_append,
    List.length_take, List.length_drop]
  simp only [minBufSize] at hlen ⊢
  omega

theorem totalSize_lt_of_short : (frameParams w pkt).totalSize < frameTotal w pkt := by
  obtain ⟨htag, hlen⟩ := Classical.not_imp.mp hshort
  have hbytes := length_frameBytes w.dev pkt
  rw [if_pos htag, length_padFrame] at hbytes
  simp only [frameParams, frameTotal_of_short hshort, minBufSize] at hlen hbytes ⊢
  omega

end Short

theorem totalSize_le_frameTotal (w : World) (pkt : List U8) :
    (frameParams w pkt).totalSize ≤ frameTotal w pkt := by
  by_cases h : StaysMinimum w.dev pkt
  · exact h.frameTotal_eq.ge
  · exact (totalSize_lt_of_short h).le

section Used

variable {w : World} {pkt : List U8} (hbuf : 0 < w.dev.rxbufSize.toNat)

include hbuf

theorem total_le_usedSlots : frameTotal w pkt ≤ usedSlots w pkt * w.dev.rxbufSize.toNat := by
  have h := Nat.lt_mul_div_succ (frameTotal w pkt + (w.dev.rxbufSize.toNat - 1)) hbuf
  rw [Nat.mul_comm, Nat.add_mul] at h
  rw [usedSlots]
  omega

theorem lt_total_of_lt_usedSlots {j : Nat} (h : j < usedSlots w pkt) :
    j * w.dev.rxbufSize.toNat < frameTotal w pkt := by
  have hj := (Nat.le_div_iff_mul_le hbuf).mp (Nat.succ_le_of_lt h)
  rw [Nat.succ_mul] at hj
  omega

theorem usedSlots_le_iff {d : Nat} :
    usedSlots w pkt ≤ d ↔ frameTotal w pkt ≤ d * w.dev.rxbufSize.toNat := by
  constructor
  · intro h
    exact (total_le_usedSlots hbuf).trans (Nat.mul_le_mul_right _ h)
  · intro h
    by_contra hlt
    have := lt_total_of_lt_usedSlots hbuf (Nat.not_le.mp hlt)
    omega

theorem usedSlots_pos : 0 < usedSlots w pkt := by
  by_contra h
  have hle : frameTotal w pkt ≤ usedSlots w pkt * _ := total_le_usedSlots hbuf
  have hmin := minBufSize_le_frameTotal w pkt
  rw [Nat.eq_zero_of_not_pos h, Nat.zero_mul] at hle
  simp only [minBufSize] at hmin
  omega

theorem stored_iff_last {j : Nat} (hj : j < usedSlots w pkt) :
    frameTotal w pkt ≤ j * w.dev.rxbufSize.toNat +
        min (frameTotal w pkt - j * w.dev.rxbufSize.toNat) w.dev.rxbufSize.toNat ↔
      j + 1 = usedSlots w pkt := by
  have hlt := lt_total_of_lt_usedSlots hbuf hj
  have hle : usedSlots w pkt ≤ j + 1 ↔ _ := usedSlots_le_iff hbuf
  rw [Nat.succ_mul] at hle
  omega

end Used

/-! ## Transfers -/

def Event.rxDescWrite : Event → Option (U64 × List U8)
  | .dmaWrite .rxDesc addr bs => some (addr, bs)
  | _ => none

theorem Event.rxDescWrite_of_isPin {e : Event} (h : e.isPin = true) :
    e.rxDescWrite = none := by
  cases e <;> simp_all [Event.isPin, Event.rxDescWrite]

theorem DataWrites.rxDescWrite {ba : U64} {bs : List U8} {es : List Event}
    (h : DataWrites ba bs es) : es.filterMap Event.rxDescWrite = [] := by
  induction h with
  | nil => rfl
  | cons _ ih =>
      rw [List.filterMap_append, ih]
      rfl

theorem Realises.rxDescWrite {base : U64} {vs : List Visit} {es : List Event}
    (h : Realises base vs es) :
    es.filterMap Event.rxDescWrite =
      vs.map fun v => (descAddr base v.index, v.stored.toBytes) := by
  induction vs generalizing es with
  | nil =>
      obtain rfl : es = [] := h
      rfl
  | cons v vs ih =>
      obtain ⟨ds, es', rfl, hds, hvs⟩ := h
      rw [List.map_cons, ← ih hvs]
      simp only [List.filterMap_cons, List.filterMap_append, Event.rxDescWrite,
        hds.rxDescWrite, List.nil_append]

theorem RxDesc.toBytes_injective : Function.Injective RxDesc.toBytes := by
  intro d d' h
  rw [← RxDesc.ofBytes_toBytes d, h, RxDesc.ofBytes_toBytes]

theorem Realises.stored_eq {base : U64} {vs vs' : List Visit} {pins pins' es es' log : List Event}
    (h : Realises base vs es) (h' : Realises base vs' es')
    (hpin : ∀ e ∈ pins, e.isPin = true) (hpin' : ∀ e ∈ pins', e.isPin = true)
    (hlog : pins ++ (es ++ log) = pins' ++ (es' ++ log)) :
    vs.map Visit.stored = vs'.map Visit.stored := by
  have hnone : ∀ ps : List Event, (∀ e ∈ ps, e.isPin = true) →
      ps.filterMap Event.rxDescWrite = [] := fun ps hps =>
    List.filterMap_eq_nil_iff.mpr fun e he => Event.rxDescWrite_of_isPin (hps e he)
  rw [← List.append_assoc, ← List.append_assoc] at hlog
  have hes := congrArg (List.filterMap Event.rxDescWrite) (List.append_cancel_right hlog)
  rw [List.filterMap_append, List.filterMap_append, hnone pins hpin, hnone pins' hpin',
    h.rxDescWrite, h'.rxDescWrite, List.nil_append, List.nil_append] at hes
  have hsnd := congrArg (List.map Prod.snd) hes
  rw [List.map_map, List.map_map] at hsnd
  refine RxDesc.toBytes_injective.list_map ?_
  rw [List.map_map, List.map_map]
  exact hsnd

/-! ## The descriptors of a stored frame -/

theorem filled_status : ∀ (s : U8) (tag last : Bool),
    let marked := s ||| ((if tag then rxdStatVp else 0) ||| rxdStatDd)
    let filled := if last then marked ||| (rxdStatEop ||| rxdStatIxsm)
      else marked &&& ~~~rxdStatEop
    test filled rxdStatDd = true ∧ test filled rxdStatEop = last ∧
      test filled rxdStatVp = (test s rxdStatVp || tag) := by
  decide +kernel

section Walk

variable {w : World} {pkt : List U8}

def foundDesc (w : World) (pkt : List U8) (j : Nat) : RxDesc :=
  (frameTask w pkt).fetched ((frameTask w pkt).rxVisit^[j] (rxStart w))

/--
The descriptors that the frame needs are fit for it when the walk comes to
them: they have buffers, and `VP` is clear unless a tag was stripped.
-/
def DescsFit (w : World) (pkt : List U8) : Prop :=
  ∀ j < usedSlots w pkt, (foundDesc w pkt j).bufferAddr ≠ 0#64 ∧
    (tagged w.dev pkt = true ∨ test (foundDesc w pkt j).status rxdStatVp = false)

instance (w : World) (pkt : List U8) : Decidable (DescsFit w pkt) :=
  inferInstanceAs (Decidable (∀ j < usedSlots w pkt, _ ∧ _))

variable (hlong : StaysMinimum w.dev pkt) (hbuf : 0 < w.dev.rxbufSize.toNat)
  (hall : ∀ j < usedSlots w pkt, (foundDesc w pkt j).bufferAddr ≠ 0#64)

include hlong hall

theorem off_walk_eq {j : Nat} (hj : j ≤ usedSlots w pkt) :
    ((frameTask w pkt).rxVisit^[j] (rxStart w)).off =
      min (frameTotal w pkt) (j * w.dev.rxbufSize.toNat) := by
  have hmet : (frameTask w pkt).buffersMet (rxStart w) j = j :=
    (RxTask.buffersMet_eq_iff _ _ _).mpr fun i hi => hall i (by omega)
  rw [RxTask.off_iterate rfl, hmet, hlong.frameTotal_eq]
  rfl

include hbuf

theorem off_walk_of_lt {j : Nat} (hj : j < usedSlots w pkt) :
    ((frameTask w pkt).rxVisit^[j] (rxStart w)).off = j * w.dev.rxbufSize.toNat := by
  rw [off_walk_eq hlong hall hj.le]
  exact Nat.min_eq_right (lt_total_of_lt_usedSlots hbuf hj).le

theorem visit_walk {j : Nat} (hj : j < usedSlots w pkt) :
    (frameTask w pkt).visit ((frameTask w pkt).rxVisit^[j] (rxStart w)) =
      ⟨((frameTask w pkt).rxVisit^[j] (rxStart w)).rdh, foundDesc w pkt j,
        fillDesc (frameParams w pkt) (j * w.dev.rxbufSize.toNat +
            min (frameTotal w pkt - j * w.dev.rxbufSize.toNat) w.dev.rxbufSize.toNat)
          (min (frameTotal w pkt - j * w.dev.rxbufSize.toNat) w.dev.rxbufSize.toNat)
          (markDesc (frameParams w pkt) (foundDesc w pkt j)),
        ((frameBytes w.dev pkt).drop (j * w.dev.rxbufSize.toNat)).take
          w.dev.rxbufSize.toNat⟩ := by
  rw [RxTask.visit_of_ne (hall j hj), RxTask.descSize, off_walk_of_lt hlong hbuf hall hj,
    hlong.frameTotal_eq]
  rfl

theorem status_walk {j : Nat} (hj : j < usedSlots w pkt) :
    let v := (frameTask w pkt).visit ((frameTask w pkt).rxVisit^[j] (rxStart w))
    test v.stored.status rxdStatDd = true ∧
      test v.stored.status rxdStatEop = decide (j + 1 = usedSlots w pkt) ∧
      test v.stored.status rxdStatVp =
        (test (foundDesc w pkt j).status rxdStatVp || tagged w.dev pkt) := by
  have hstatus := filled_status (foundDesc w pkt j).status (tagged w.dev pkt)
    (decide (j + 1 = usedSlots w pkt))
  simp only [decide_eq_true_eq, ← stored_iff_last hbuf hj] at hstatus
  rw [visit_walk hlong hbuf hall hj]
  simp only [← stored_iff_last hbuf hj]
  rw [hlong.frameTotal_eq] at hstatus ⊢
  exact hstatus

theorem filledDesc_walk (hrdh : (w.reg Reg.rdh).toNat < rxSlots w) (hinv : RegInv w.dev)
    (hsmall : w.dev.rxbufSize.toNat ≤ 16384) {j : Nat} (hj : j < usedSlots w pkt)
    (hvp : tagged w.dev pkt = true ∨ test (foundDesc w pkt j).status rxdStatVp = false) :
    FilledDesc w pkt j
      ((frameTask w pkt).visit ((frameTask w pkt).rxVisit^[j] (rxStart w))) := by
  obtain ⟨hdd, heop, hvp'⟩ := status_walk hlong hbuf hall hj
  refine ⟨?_, ?_, ?_, hdd, heop, ?_, ?_⟩
  · rw [RxTask.visit_index, rdh_walk_eq hrdh hinv]
  · rw [visit_walk hlong hbuf hall hj]
    rfl
  · rw [visit_walk hlong hbuf hall hj]
    simp only [fillDesc, BitVec.toNat_ofNat]
    rw [Nat.min_comm, Nat.mod_eq_of_lt (by omega)]
  · rw [visit_walk hlong hbuf hall hj]
    rfl
  · rw [hvp']
    rcases hvp with htag | hclear
    · rw [htag, Bool.or_true]
    · rw [hclear, Bool.false_or]

theorem chunks_walk : (((List.range (usedSlots w pkt)).map fun j =>
    ((frameTask w pkt).visit ((frameTask w pkt).rxVisit^[j] (rxStart w))).chunk)).flatten =
      specFrame w.dev pkt := by
  have hchunk : ∀ j ∈ List.range (usedSlots w pkt),
      ((frameTask w pkt).visit ((frameTask w pkt).rxVisit^[j] (rxStart w))).chunk =
        ((frameBytes w.dev pkt).drop (j * w.dev.rxbufSize.toNat)).take
          w.dev.rxbufSize.toNat := by
    intro j hj
    rw [visit_walk hlong hbuf hall (List.mem_range.mp hj)]
  have hlen : (specFrame w.dev pkt).length ≤ frameTotal w pkt := Nat.le_add_right _ _
  rw [List.map_congr_left hchunk, flatten_chunks, frameBytes_eq_specFrame _ hlong]
  exact List.take_of_length_le (hlen.trans (total_le_usedSlots hbuf))

end Walk

theorem walk_count_iff {w : World} {pkt : List U8} (hlong : StaysMinimum w.dev pkt)
    (hrdh : (w.reg Reg.rdh).toNat < rxSlots w)
    (hinv : RegInv w.dev) (hbuf : 0 < w.dev.rxbufSize.toNat)
    (hused : usedSlots w pkt < rxSlots w) {m : Nat}
    (hstop : (frameTask w pkt).Stop ((frameTask w pkt).rxVisit^[m + 1] (rxStart w)))
    (hfirst : ∀ i < m, ¬ (frameTask w pkt).Stop
      ((frameTask w pkt).rxVisit^[i + 1] (rxStart w))) :
    m + 1 = usedSlots w pkt ↔
      ∀ j < usedSlots w pkt, (foundDesc w pkt j).bufferAddr ≠ 0#64 := by
  have hpos : 0 < usedSlots w pkt := usedSlots_pos hbuf
  constructor
  · intro hm
    rw [hm, stop_walk_iff hrdh hinv hpos hused, RxTask.off_iterate rfl,
      ← hlong.frameTotal_eq] at hstop
    have hmet : usedSlots w pkt ≤
        (frameTask w pkt).buffersMet (rxStart w) (usedSlots w pkt) :=
      (usedSlots_le_iff hbuf).mpr (hstop.trans (Nat.min_le_right _ _))
    exact (RxTask.buffersMet_eq_iff _ _ _).mp
      (Nat.le_antisymm (RxTask.buffersMet_le _ _ _) hmet)
  · intro hall
    have hlast : (frameTask w pkt).Stop
        ((frameTask w pkt).rxVisit^[usedSlots w pkt - 1 + 1] (rxStart w)) := by
      rw [Nat.sub_add_cancel hpos, stop_walk_iff hrdh hinv hpos hused,
        off_walk_eq hlong hall (le_refl _), ← hlong.frameTotal_eq]
      exact Nat.le_min.mpr ⟨le_refl _, total_le_usedSlots hbuf⟩
    have hle : m ≤ usedSlots w pkt - 1 := by
      by_contra hgt
      exact hfirst _ (Nat.not_le.mp hgt) hlast
    by_contra hne
    have hlt : m + 1 < usedSlots w pkt := by omega
    rw [stop_walk_iff hrdh hinv (Nat.succ_pos m) (hlt.trans hused),
      off_walk_of_lt hlong hbuf hall hlt, ← hlong.frameTotal_eq] at hstop
    exact absurd (lt_total_of_lt_usedSlots hbuf hlt) (Nat.not_lt.mpr hstop)

/-- The descriptors that a scattered packet has filled are those of the walk. -/
theorem Scattered.visits {w : World} {pkt : List U8} {r : Received} {m : Nat}
    (h : Scattered w pkt r.world)
    (hres : RxResult w pkt r ((frameTask w pkt).rxVisit^[m + 1] (rxStart w))) :
    m + 1 = usedSlots w pkt ∧ ∀ j < usedSlots w pkt, ∃ v,
      v.stored = ((frameTask w pkt).visit ((frameTask w pkt).rxVisit^[j] (rxStart w))).stored ∧
        FilledDesc w pkt j v := by
  have hvisits := RxTask.visits_iterate (t := frameTask w pkt) (s := rxStart w) rfl (m + 1)
  obtain ⟨pins, es, hlog, hpin, hreal⟩ := hres.log
  obtain ⟨pins', es', vs, hlog', hpin', hreal', hfills⟩ := h.transfers
  have hstored := hreal'.stored_eq hreal hpin' hpin (hlog'.symm.trans hlog)
  have hrev := congrArg List.reverse hstored
  rw [← List.map_reverse, ← List.map_reverse, hvisits, List.map_map] at hrev
  have hlen := congrArg List.length hrev
  rw [List.length_map, List.length_map, List.length_range, hfills.count] at hlen
  refine ⟨hlen.symm, fun j hj => ?_⟩
  have hget := congrArg (fun l : List RxDesc => l[j]?) hrev
  obtain ⟨v, hv⟩ : ∃ v, vs.reverse[j]? = some v :=
    ⟨_, List.getElem?_eq_getElem (hfills.count ▸ hj)⟩
  simp only [List.getElem?_map, hv, List.getElem?_range (hlen ▸ hj), Option.map_some,
    Function.comp, Option.some.injEq] at hget
  exact ⟨v, hget, hfills.desc j v hv⟩

/-! ## Head and causes -/

theorem rxDescMinimum_eq (s : E1000State)
    (hrdh : (s.macReg Reg.rdh).toNat < (s.macReg Reg.rdlen).toNat / descBytes)
    (hrdt : (s.macReg Reg.rdt).toNat < (s.macReg Reg.rdlen).toNat / descBytes) :
    rxDescMinimum s = decide (descBytes * ringDist ((s.macReg Reg.rdlen).toNat / descBytes)
      (s.macReg Reg.rdh).toNat (s.macReg Reg.rdt).toNat ≤
        (s.macReg Reg.rdlen >>> s.rxbufMinShift.toNat).toNat) := by
  have hlen := (s.macReg Reg.rdlen).isLt
  simp only [rxDescMinimum, BitVec.lt_def]
  generalize hnum : BitVec.ofNat 32 ((s.macReg Reg.rdlen).toNat / descBytes) = num
  have hn : num.toNat = (s.macReg Reg.rdlen).toNat / descBytes := by
    rw [← hnum, BitVec.toNat_ofNat, Nat.mod_eq_of_lt]
    simp only [descBytes]
    omega
  generalize s.macReg Reg.rdh = rdh at *
  generalize s.macReg Reg.rdt = rdt at *
  have hsmall : (s.macReg Reg.rdlen).toNat / descBytes < 2 ^ 28 := by
    simp only [descBytes]
    omega
  rw [Nat.mul_comm, ringDist]
  split_ifs with hlt hle hle
  · omega
  · have hadd : (rdt + num).toNat = rdt.toNat + num.toNat := by
      rw [BitVec.toNat_add, Nat.mod_eq_of_lt (by omega)]
    rw [BitVec.toNat_sub_of_le (by rw [BitVec.le_def]; omega), hadd, hn, Nat.add_comm]
  · rw [BitVec.toNat_sub_of_le hle]
  · omega

theorem rxDescMinimum_countReceived (s : E1000State) (size : Nat) :
    rxDescMinimum (countReceived s size) = rxDescMinimum s := by
  have hrdh := countReceived_macReg s size (i := Reg.rdh) (by decide)
  have hrdt := countReceived_macReg s size (i := Reg.rdt) (by decide)
  have hrdlen := countReceived_macReg s size (i := Reg.rdlen) (by decide)
  simp only [rxDescMinimum, hrdh, hrdt, hrdlen]
  rfl

theorem receiveDone_rdh (w : World) (size : Nat) :
    (receiveDone w size).reg Reg.rdh = w.reg Reg.rdh :=
  ((setInterruptCause_frame { w with dev := countReceived w.dev size } _).reg _
    (by decide)).trans (countReceived_macReg w.dev size (by decide))

theorem receiveDone_icr (w : World) (size : Nat) :
    (receiveDone w size).reg Reg.icr = w.reg Reg.icr |||
      if rxDescMinimum w.dev then icrRxt0 ||| icrRxdmt0 else icrRxt0 := by
  have hicr : World.reg { w with dev := countReceived w.dev size } Reg.icr = w.reg Reg.icr :=
    countReceived_macReg w.dev size (by decide)
  rw [receiveDone, rxDescMinimum_countReceived, setIcs, setInterruptCause_icr, hicr,
    BitVec.or_comm]

section Stored

variable {w : World} {pkt : List U8} (hlong : StaysMinimum w.dev pkt)
  (hrdh : (w.reg Reg.rdh).toNat < rxSlots w) (hinv : RegInv w.dev)
  (hrdt : (w.reg Reg.rdt).toNat < rxSlots w) (hring : entersRing w pkt = true)

include hinv hring

theorem rxbuf_bounds_of_enters :
    256 ≤ w.dev.rxbufSize.toNat ∧ w.dev.rxbufSize.toNat ≤ 16384 := by
  have hacc := (Bool.and_eq_true_iff.mp hring).1
  simp only [accepted, Bool.and_eq_true] at hacc
  rw [hinv.toNat_rxbufSize hacc.1.1.2]
  exact ⟨le_rxbufsize _, rxbufsize_le _⟩

theorem rxbuf_pos_of_enters : 0 < w.dev.rxbufSize.toNat :=
  (by decide : 0 < 256).trans_le (rxbuf_bounds_of_enters hinv hring).1

include hrdh hrdt

theorem one_lt_rxSlots : 1 < rxSlots w := by
  obtain ⟨hacc, hroom⟩ := Bool.and_eq_true_iff.mp hring
  simp only [accepted, Bool.and_eq_true] at hacc
  have hpos := frame_pos w pkt
  have hfits := (hasRxbufs_iff hinv (hinv.rxbufSize_le hacc.1.1.2) hrdh hrdt hpos).mp hroom
  have howned : ownedSlots w < rxSlots w := ringDist_lt hrdh hrdt
  by_contra hone
  rw [show ownedSlots w = 0 by omega, Nat.zero_mul] at hfits
  omega

/-- A tagged packet that is too short is stored with less than the minimum. -/
theorem not_scattered_of_short (hshort : ¬ StaysMinimum w.dev pkt) {r : Received} {m : Nat}
    (hstop : (frameTask w pkt).Stop ((frameTask w pkt).rxVisit^[m + 1] (rxStart w)))
    (hres : RxResult w pkt r ((frameTask w pkt).rxVisit^[m + 1] (rxStart w))) :
    ¬ Scattered w pkt r.world := by
  intro hscat
  have hbuf := (rxbuf_bounds_of_enters hinv hring).1
  have htotal := frameTotal_of_short hshort
  have hpos := frame_pos w pkt
  have hroom : frameTotal w pkt ≤ w.dev.rxbufSize.toNat := by
    have hfcs : fcsLen w.dev ≤ 4 := by
      rw [fcsLen]
      split_ifs <;> decide
    simp only [htotal, minBufSize]
    omega
  -- The specification asks for one buffer, and the walk has come to one descriptor.
  have hused : usedSlots w pkt = 1 := by
    have hone : 0 < usedSlots w pkt := usedSlots_pos (by omega)
    have hle : usedSlots w pkt ≤ 1 := by
      rw [usedSlots_le_iff (by omega), Nat.one_mul]
      exact hroom
    omega
  obtain ⟨hcount, hfilled⟩ := hscat.visits hres
  obtain rfl : m = 0 := by omega
  have hne : (foundDesc w pkt 0).bufferAddr ≠ 0#64 := by
    rw [stop_walk_iff hrdh hinv Nat.one_pos (one_lt_rxSlots hrdh hinv hrdt hring),
      RxTask.off_iterate rfl] at hstop
    refine (RxTask.buffersMet_eq_iff (frameTask w pkt) (rxStart w) 1).mp ?_ 0 Nat.one_pos
    have hmet := RxTask.buffersMet_le (frameTask w pkt) (rxStart w) 1
    by_contra hnone
    rw [show (frameTask w pkt).buffersMet (rxStart w) 1 = 0 by omega, Nat.zero_mul] at hstop
    exact absurd (hstop.trans (Nat.min_le_right _ _)) (Nat.not_le.mpr hpos)
  obtain ⟨v, hv, hdesc⟩ := hfilled 0 (by omega)
  have hlength := hdesc.length
  have hlt := totalSize_lt_of_short hshort
  rw [hv, RxTask.visit_of_ne hne, Nat.zero_mul, Nat.sub_zero, Nat.min_eq_right hroom]
    at hlength
  have hstored : (BitVec.ofNat 16 (min (frameParams w pkt).totalSize
      w.dev.rxbufSize.toNat)).toNat = frameTotal w pkt := hlength
  rw [BitVec.toNat_ofNat] at hstored
  have hmod := Nat.mod_le (min (frameParams w pkt).totalSize w.dev.rxbufSize.toNat) (2 ^ 16)
  omega

include hlong

theorem usedSlots_le_ownedSlots : usedSlots w pkt ≤ ownedSlots w := by
  obtain ⟨hacc, hroom⟩ := Bool.and_eq_true_iff.mp hring
  simp only [accepted, Bool.and_eq_true] at hacc
  rw [usedSlots_le_iff (rxbuf_pos_of_enters hinv hring), hlong.frameTotal_eq]
  exact (hasRxbufs_iff hinv (hinv.rxbufSize_le hacc.1.1.2) hrdh hrdt (frame_pos w pkt)).mp hroom

theorem registers_of_used {r : Received}
    (hres : RxResult w pkt r ((frameTask w pkt).rxVisit^[usedSlots w pkt] (rxStart w))) :
    (r.world.reg Reg.rdh).toNat = ((w.reg Reg.rdh).toNat + usedSlots w pkt) % rxSlots w ∧
      r.world.reg Reg.icr = w.reg Reg.icr ||| rxCauses w pkt := by
  have hbuf := rxbuf_pos_of_enters hinv hring
  have hused := usedSlots_le_ownedSlots hlong hrdh hinv hrdt hring
  have hlt : usedSlots w pkt < rxSlots w := hused.trans_lt (ringDist_lt hrdh hrdt)
  have hhead : ((frameTask w pkt).rxVisit^[usedSlots w pkt] (rxStart w)).rdh =
      rxSlot w (usedSlots w pkt) := rdh_walk_eq hrdh hinv _
  have hgo : ((frameTask w pkt).rxVisit^[usedSlots w pkt] (rxStart w)).rdh ≠ w.reg Reg.rdh := by
    have hpos : 0 < usedSlots w pkt := usedSlots_pos hbuf
    rw [hhead]
    intro heq
    refine rxSlot_ne hrdh hpos hlt (BitVec.eq_of_toNat_eq ?_)
    rw [heq, toNat_rxSlot hrdh, Nat.add_zero, Nat.mod_eq_of_lt hrdh]
  obtain ⟨w', hend, hworld⟩ := hres.world
  rw [if_neg hgo] at hworld
  have hdev := hend.dev
  rw [hhead] at hdev
  have hrdh' : w'.dev.macReg Reg.rdh = rxSlot w (usedSlots w pkt) := by
    rw [hdev]
    exact World.reg_setReg_self w Reg.rdh _
  have hother : ∀ i, i ≠ Reg.rdh → w'.dev.macReg i = w.dev.macReg i := fun i hi => by
    rw [hdev]
    exact World.reg_setReg_of_ne w Reg.rdh i _ hi
  rw [hworld, receiveDone_rdh, receiveDone_icr]
  refine ⟨(congrArg BitVec.toNat hrdh').trans (toNat_rxSlot hrdh _), ?_⟩
  have hrdlen' := hother Reg.rdlen (by decide)
  have hrdt' := hother Reg.rdt (by decide)
  have hshift : w'.dev.rxbufMinShift = w.dev.rxbufMinShift := by
    rw [hdev]
    rfl
  have hicr : w'.reg Reg.icr = w.reg Reg.icr := hother Reg.icr (by decide)
  have hmin := rxDescMinimum_eq w'.dev
    (by rw [hrdh', hrdlen']; exact rxSlot_lt hrdh _) (by rw [hrdt', hrdlen']; exact hrdt)
  have hleft : ringDist ((w.dev.macReg Reg.rdlen).toNat / descBytes)
      (((w.reg Reg.rdh).toNat + usedSlots w pkt) % rxSlots w)
      (w.dev.macReg Reg.rdt).toNat = ownedSlots w - usedSlots w pkt :=
    ringDist_advance hrdh hrdt hused
  rw [hrdh', hrdlen', hrdt', hshift, toNat_rxSlot hrdh, hleft] at hmin
  rw [hmin, hicr, rxCauses]
  simp only [decide_eq_true_eq]
  rfl

theorem scattered_iff {r : Received} {m : Nat}
    (hstop : (frameTask w pkt).Stop ((frameTask w pkt).rxVisit^[m + 1] (rxStart w)))
    (hfirst : ∀ i < m, ¬ (frameTask w pkt).Stop
      ((frameTask w pkt).rxVisit^[i + 1] (rxStart w)))
    (hres : RxResult w pkt r ((frameTask w pkt).rxVisit^[m + 1] (rxStart w))) :
    Scattered w pkt r.world ↔ DescsFit w pkt := by
  have hbuf := rxbuf_pos_of_enters hinv hring
  have hsmall := (rxbuf_bounds_of_enters hinv hring).2
  have hused : usedSlots w pkt < rxSlots w :=
    (usedSlots_le_ownedSlots hlong hrdh hinv hrdt hring).trans_lt (ringDist_lt hrdh hrdt)
  have hcount := walk_count_iff hlong hrdh hinv hbuf hused hstop hfirst
  have hvisits := RxTask.visits_iterate (t := frameTask w pkt) (s := rxStart w) rfl (m + 1)
  obtain ⟨pins, es, hlog, hpin, hreal⟩ := hres.log
  constructor
  · intro hscat
    obtain ⟨hm, hfilled⟩ := hscat.visits hres
    have hall := hcount.mp hm
    intro j hj
    refine ⟨hall j hj, ?_⟩
    obtain ⟨v, hv, hdesc⟩ := hfilled j hj
    have hvp := hdesc.vp
    rw [hv, (status_walk hlong hbuf hall hj).2.2] at hvp
    cases htag : tagged w.dev pkt with
    | true => exact .inl rfl
    | false =>
        rw [htag, Bool.or_false] at hvp
        exact .inr hvp
  · intro hcond
    have hall := fun j hj => (hcond j hj).1
    have hm := hcount.mpr hall
    rw [hm] at hres hvisits hreal
    obtain ⟨hrdh', hicr⟩ := registers_of_used hlong hrdh hinv hrdt hring hres
    refine ⟨⟨pins, es, _, hlog, hpin, hreal, ?_⟩, hrdh', hicr⟩
    rw [hvisits]
    refine ⟨by simp, fun j v hv => ?_, ?_⟩
    · have hj : j < usedSlots w pkt := by
        by_contra hge
        rw [List.getElem?_eq_none (by simpa using hge)] at hv
        cases hv
      rw [List.getElem?_map, List.getElem?_range hj] at hv
      rw [← Option.some.inj hv]
      exact filledDesc_walk hlong hbuf hall hrdh hinv hsmall hj (hcond j hj).2
    · rw [List.map_map]
      exact chunks_walk hlong hbuf hall

end Stored

/-! ## The call -/

section Call

variable {w : World} {iov : Iov} (hne : iov ≠ []) (hinv : RegInv w.dev)
  (hrdh : (w.reg Reg.rdh).toNat < rxSlots w) (hrdt : (w.reg Reg.rdt).toNat < rxSlots w)
  (hacc : accepted w.dev iov.flatten = true)
  (hroom : e1000HasRxbufs w.dev (frameTotal w iov.flatten) = true)

include hinv hrdh hrdt hacc hroom

theorem entersRing_of_frameTotal : entersRing w iov.flatten = true := by
  have hen : test (w.reg Reg.rctl) rctlEn = true := by
    simp only [accepted, Bool.and_eq_true] at hacc
    exact hacc.1.1.2
  have hiff : ∀ total, 0 < total → (e1000HasRxbufs w.dev total = true ↔
      total ≤ ownedSlots w * w.dev.rxbufSize.toNat) :=
    fun _ => hasRxbufs_iff hinv (hinv.rxbufSize_le hen) hrdh hrdt
  have hle := totalSize_le_frameTotal w iov.flatten
  have hpos := frame_pos w iov.flatten
  rw [hiff _ (hpos.trans_le hle)] at hroom
  rw [entersRing, hacc, Bool.true_and, hiff _ hpos]
  exact hle.trans hroom

include hne

theorem receiveScattered_iff : ReceiveScattered w iov ↔
    StaysMinimum w.dev iov.flatten ∧ DescsFit w iov.flatten := by
  have hring := entersRing_of_frameTotal hinv hrdh hrdt hacc hroom
  have hrun : ∀ {fuel : Nat} {r : Received}, e1000ReceiveIov fuel w iov = .ok r →
      (Scattered w iov.flatten r.world ↔
        StaysMinimum w.dev iov.flatten ∧ DescsFit w iov.flatten) := by
    intro fuel r hr
    obtain ⟨s, hs, hres⟩ := (receive_sim hne hring fuel).ok_left hr
    obtain ⟨m, -, rfl, hstop, hfirst⟩ := loop_until_eq_ok.mp hs
    by_cases hlong : StaysMinimum w.dev iov.flatten
    · rw [scattered_iff hlong hrdh hinv hrdt hring hstop hfirst hres, and_iff_right hlong]
    · refine iff_of_false ?_ fun h => hlong h.1
      exact not_scattered_of_short hrdh hinv hrdt hring hlong hstop hres
  constructor
  · rintro ⟨fuel, r, hr, hscat⟩
    exact (hrun hr).mp hscat
  · intro hcond
    obtain ⟨fuel, r, hr⟩ := receiveReturns_of_inside hinv hne hrdh hring
    exact ⟨fuel, r, hr, (hrun hr).mpr hcond⟩

/-- With buffers in every owned slot and away from the ring, only stale `VP` bits matter. -/
theorem receiveScattered_iff_of_apart (hlong : StaysMinimum w.dev iov.flatten)
    (hapart : BuffersApart w)
    (hbufs : ∀ j < ownedSlots w, (rxDescAt w j).bufferAddr ≠ 0#64) :
    ReceiveScattered w iov ↔ ∀ j < usedSlots w iov.flatten,
      tagged w.dev iov.flatten = true ∨ test (rxDescAt w j).status rxdStatVp = false := by
  have hring := entersRing_of_frameTotal hinv hrdh hrdt hacc hroom
  have hused := usedSlots_le_ownedSlots hlong hrdh hinv hrdt hring
  have hlt : ownedSlots w < rxSlots w := ringDist_lt hrdh hrdt
  rw [receiveScattered_iff hne hinv hrdh hrdt hacc hroom, and_iff_right hlong, DescsFit]
  refine forall₂_congr fun j hj => ?_
  rw [foundDesc, fetched_walk hrdh hinv hapart (by omega)]
  exact and_iff_right (hbufs j (by omega))

end Call

/--
A packet that passes the capacity check is scattered as specified iff it is not
too short for its tag and the descriptors it needs are fit for it.
-/
theorem receive_scatter_iff (w : World) (frag : List U8) (rest : Iov) (hreach : Reachable w)
    (hrdh : (w.reg Reg.rdh).toNat < rxSlots w) (hrdt : (w.reg Reg.rdt).toNat < rxSlots w)
    (hacc : accepted w.dev (frag :: rest).flatten = true)
    (hroom : e1000HasRxbufs w.dev (frameTotal w (frag :: rest).flatten) = true) :
    ReceiveScattered w (frag :: rest) ↔
      StaysMinimum w.dev (frag :: rest).flatten ∧ DescsFit w (frag :: rest).flatten :=
  receiveScattered_iff (List.cons_ne_nil _ _) hreach.regInv hrdh hrdt hacc hroom

theorem receive_scatter_two :
    usedSlots (rxReady (rctlEn ||| rctlUpe ||| rctlSz256) 128 7 1 fun _ => 0x10)
        [List.replicate 300 0].flatten = 2 ∧
      ReceiveScattered (rxReady (rctlEn ||| rctlUpe ||| rctlSz256) 128 7 1 fun _ => 0x10)
        [List.replicate 300 0] :=
  ⟨by decide +kernel,
    (receive_scatter_iff _ _ [] (reachable_rxReady _ _ _ _ _) (by decide) (by decide)
      (by decide +kernel) (by decide +kernel)).mpr (by decide +kernel)⟩

/-- A guest that leaves `VP` set in a free descriptor finds it set on an untagged frame. -/
theorem receive_stale_vp :
    Reachable (rxReady (rctlEn ||| rctlUpe) 128 0 1 fun _ => 0x08) ∧
      accepted (rxReady (rctlEn ||| rctlUpe) 128 0 1 fun _ => 0x08).dev
        [List.replicate 60 0].flatten = true ∧
      e1000HasRxbufs (rxReady (rctlEn ||| rctlUpe) 128 0 1 fun _ => 0x08).dev
        (frameTotal (rxReady (rctlEn ||| rctlUpe) 128 0 1 fun _ => 0x08)
          [List.replicate 60 0].flatten) = true ∧
      (∀ j < ownedSlots (rxReady (rctlEn ||| rctlUpe) 128 0 1 fun _ => 0x08),
        (rxDescAt (rxReady (rctlEn ||| rctlUpe) 128 0 1 fun _ => 0x08) j).bufferAddr ≠ 0#64) ∧
      ReceiveReturns (rxReady (rctlEn ||| rctlUpe) 128 0 1 fun _ => 0x08)
        [List.replicate 60 0] ∧
      ¬ ReceiveScattered (rxReady (rctlEn ||| rctlUpe) 128 0 1 fun _ => 0x08)
        [List.replicate 60 0] := by
  have hreach := reachable_rxReady (rctlEn ||| rctlUpe) 128 0 1 fun _ => 0x08
  have hacc : accepted (rxReady (rctlEn ||| rctlUpe) 128 0 1 fun _ => 0x08).dev
      [List.replicate 60 0].flatten = true := by
    decide +kernel
  have hroom : e1000HasRxbufs (rxReady (rctlEn ||| rctlUpe) 128 0 1 fun _ => 0x08).dev
      (frameTotal (rxReady (rctlEn ||| rctlUpe) 128 0 1 fun _ => 0x08)
        [List.replicate 60 0].flatten) = true := by
    decide +kernel
  have hring := entersRing_of_frameTotal hreach.regInv (by decide) (by decide) hacc hroom
  refine ⟨hreach, hacc, hroom, by decide +kernel,
    receiveReturns_of_inside hreach.regInv (by simp) (by decide) hring, ?_⟩
  rw [receiveScattered_iff (by simp) hreach.regInv (by decide) (by decide) hacc hroom]
  decide +kernel

end SE4VM.E1000
