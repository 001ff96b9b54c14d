import SE4VM.E1000.Receive

/-!
# The frame that reaches the receive ring

What `e1000ReceiveIov` does before it touches the ring depends on the bytes of
the packet only: a short packet is padded to the minimum frame, the filter
looks at the header of the padded frame, and the tag is taken out of it.  The
three header paths and the two ways of removing the tag agree on this.
-/

namespace SE4VM.E1000

open SE4VM.Foundation

/-! ## The frame -/

def padFrame (pkt : List U8) : List U8 :=
  pkt ++ List.replicate (minBufSize - pkt.length) 0

def tagged (s : E1000State) (pkt : List U8) : Bool :=
  vlanEnabled s && isVlanPacket s (padFrame pkt)

def frameBytes (s : E1000State) (pkt : List U8) : List U8 :=
  if tagged s pkt then (padFrame pkt).take 12 ++ (padFrame pkt).drop 16 else padFrame pkt

def frameSpecial (s : E1000State) (pkt : List U8) : U16 :=
  if tagged s pkt then be16 (padFrame pkt) 14 else 0

def frameStatus (s : E1000State) (pkt : List U8) : U8 :=
  if tagged s pkt then rxdStatVp else 0

/-- The packet passes every check that comes before the capacity check. -/
def accepted (s : E1000State) (pkt : List U8) : Bool :=
  test (s.macReg Reg.status) statusLu && test (s.macReg Reg.rctl) rctlEn &&
    !oversized s (padFrame pkt).length && receiveFilter s (padFrame pkt)

def refusal (s : E1000State) (pkt : List U8) : Int :=
  if test (s.macReg Reg.status) statusLu && test (s.macReg Reg.rctl) rctlEn then
    (padFrame pkt).length
  else -1

theorem length_padFrame (pkt : List U8) :
    (padFrame pkt).length = max minBufSize pkt.length := by
  simp only [padFrame, List.length_append, List.length_replicate]
  omega

theorem padFrame_of_le {pkt : List U8} (h : minBufSize ≤ pkt.length) : padFrame pkt = pkt := by
  rw [padFrame, Nat.sub_eq_zero_of_le h, List.replicate_zero, List.append_nil]

theorem length_frameBytes (s : E1000State) (pkt : List U8) :
    (frameBytes s pkt).length =
      if tagged s pkt then (padFrame pkt).length - 4 else (padFrame pkt).length := by
  have hlen := length_padFrame pkt
  simp only [minBufSize] at hlen
  rw [frameBytes]
  split_ifs
  · simp only [List.length_append, List.length_take, List.length_drop]
    omega
  · rfl

/-- The frame of the specification: the tag is removed first, then the rest is padded. -/
def specFrame (s : E1000State) (pkt : List U8) : List U8 :=
  padFrame (if tagged s pkt then pkt.take 12 ++ pkt.drop 16 else pkt)

/--
The code pads before it removes the tag.  The other order gives the same frame
unless the packet is tagged and too short to stay a minimum frame without its tag.
-/
theorem frameBytes_eq_specFrame (s : E1000State) {pkt : List U8}
    (h : tagged s pkt = true → minBufSize + 4 ≤ pkt.length) :
    frameBytes s pkt = specFrame s pkt := by
  rw [frameBytes, specFrame]
  split_ifs with htag
  · have hlen := h htag
    simp only [minBufSize] at hlen
    rw [padFrame_of_le (by simp only [minBufSize]; omega), padFrame_of_le]
    simp only [minBufSize, List.length_append, List.length_take, List.length_drop]
    omega
  · rfl

/-! ## The header -/

theorem getD_take {bs : List U8} {n i : Nat} (h : i < n) : (bs.take n).getD i 0 = bs.getD i 0 := by
  simp only [List.getD_eq_getElem?_getD, List.getElem?_take, if_pos h]

theorem be16_take {i : Nat} (h : i + 1 < 16) (buf : List U8) :
    be16 (buf.take 16) i = be16 buf i := by
  rw [be16, be16, getD_take (by omega), getD_take h]

theorem isVlanPacket_take (s : E1000State) (buf : List U8) :
    isVlanPacket s (buf.take 16) = isVlanPacket s buf := by
  rw [isVlanPacket, isVlanPacket, be16_take (by decide)]

theorem receiveFilter_take (s : E1000State) (buf : List U8) :
    receiveFilter s (buf.take 16) = receiveFilter s buf := by
  have htake : (buf.take 16).take 6 = buf.take 6 := by
    rw [List.take_take]
    rfl
  have hvlan : vlanFiltered s (buf.take 16) = vlanFiltered s buf := by
    rw [vlanFiltered, vlanFiltered, isVlanPacket_take, be16_take (by decide)]
  have hra : raMatch s (buf.take 16) = raMatch s buf := by
    rw [raMatch, raMatch, htake]
  simp only [receiveFilter, hvlan, hra, htake, getD_take (show 0 < 16 by decide),
    getD_take (show 4 < 16 by decide), getD_take (show 5 < 16 by decide)]

theorem header_congr {buf buf' : List U8} (s : E1000State)
    (h : buf.take 16 = buf'.take 16) :
    receiveFilter s buf = receiveFilter s buf' ∧ isVlanPacket s buf = isVlanPacket s buf' ∧
      be16 buf 14 = be16 buf' 14 := by
  refine ⟨?_, ?_, ?_⟩
  · rw [← receiveFilter_take, h, receiveFilter_take]
  · rw [← isVlanPacket_take, h, isVlanPacket_take]
  · rw [← be16_take (by decide), h, be16_take (by decide)]

/-- What each of the header paths hands to the filter and to the tag removal. -/
structure HeaderOk (iov : Iov) (h : RxHeader) : Prop where
  header : h.filterBuf.take 16 = (padFrame iov.flatten).take 16
  size : h.size = (padFrame iov.flatten).length
  bytes : h.iov.flatten = padFrame iov.flatten
  path : match h.path with
    | .padded => ∃ first rest, h.iov = first :: rest ∧ 16 ≤ first.length
    | .inPlace => ∃ first rest, h.iov = first :: rest ∧ 16 ≤ first.length
    | .gathered => 12 ≤ h.filterBuf.length

theorem receiveHeader_spec {iov : Iov} (hne : iov ≠ []) :
    ∃ h, receiveHeader iov = .ok h ∧ HeaderOk iov h := by
  simp only [receiveHeader, iovSize_eq, iovToBuf_zero, Run.ok_bind, List.take_length]
  split_ifs with hshort
  · refine ⟨_, rfl, rfl, ?_, ?_, _, _, rfl, ?_⟩
    · rw [length_padFrame, Nat.max_eq_left (by omega)]
    · simp [padFrame]
    · simp only [List.length_append, List.length_replicate, minBufSize]
      omega
  · have hpad : padFrame iov.flatten = iov.flatten := padFrame_of_le (by omega)
    obtain ⟨first, rest, rfl⟩ := List.exists_cons_of_ne_nil hne
    dsimp only
    split_ifs with hfirst
    · refine ⟨_, rfl, ?_, by rw [hpad], hpad.symm, ?_⟩
      · rw [hpad, List.take_take]
        rfl
      · simp only [List.length_take, maximumEthernetHdrLen, minBufSize] at *
        omega
    · simp only [maximumEthernetHdrLen] at hfirst
      refine ⟨_, rfl, ?_, by rw [hpad], hpad.symm, first, rest, rfl, by omega⟩
      rw [hpad, List.flatten_cons, List.take_append_of_le_length (by omega)]

/-! ## The tag -/

/-- The packet given to the ring carries the frame, at a cursor in its fragments. -/
structure Carries (s : E1000State) (pkt : List U8) (p : RxPacket) : Prop where
  size : p.size = (frameBytes s pkt).length
  special : p.vlanSpecial = frameSpecial s pkt
  status : p.vlanStatus = frameStatus s pkt
  cursor : CursorOk p.iov p.iovOfs
  bytes : p.iov.flatten.drop p.iovOfs = frameBytes s pkt

theorem drop_moveHeader {buf : List U8} (h : 16 ≤ buf.length) :
    (moveHeader buf).drop 4 = buf.take 12 ++ buf.drop 16 := by
  have hlen : (buf.take 4).length = 4 := by
    rw [List.length_take]
    omega
  rw [moveHeader, List.append_assoc, List.drop_append, hlen, Nat.sub_self, List.drop_zero,
    List.drop_eq_nil_of_le (by omega), List.nil_append]

theorem length_moveHeader {buf : List U8} (h : 16 ≤ buf.length) :
    (moveHeader buf).length = buf.length := by
  simp only [moveHeader, List.length_append, List.length_take, List.length_drop]
  omega

theorem drop_moveHeader_append {first rest : List U8} (h : 16 ≤ first.length) :
    (moveHeader first ++ rest).drop 4 =
      (first ++ rest).take 12 ++ (first ++ rest).drop 16 := by
  rw [List.drop_append_of_le_length (by rw [length_moveHeader h]; omega), drop_moveHeader h,
    List.take_append_of_le_length (by omega), List.drop_append_of_le_length h,
    List.append_assoc]

section Tagged

variable {s : E1000State} {pkt : List U8} (ht : tagged s pkt = true)
include ht

theorem carries_of_tagged {p : RxPacket} (hsize : p.size = (padFrame pkt).length - 4)
    (hspecial : p.vlanSpecial = be16 (padFrame pkt) 14) (hstatus : p.vlanStatus = rxdStatVp)
    (hcursor : CursorOk p.iov p.iovOfs)
    (hbytes : p.iov.flatten.drop p.iovOfs =
      (padFrame pkt).take 12 ++ (padFrame pkt).drop 16) : Carries s pkt p := by
  refine ⟨?_, ?_, ?_, hcursor, ?_⟩
  · rw [hsize, length_frameBytes, if_pos ht]
  · rw [hspecial, frameSpecial, if_pos ht]
  · rw [hstatus, frameStatus, if_pos ht]
  · rw [hbytes, frameBytes, if_pos ht]

theorem carries_moved {first : List U8} {rest : Iov} (hfirst : 16 ≤ first.length)
    (hflat : (first :: rest).flatten = padFrame pkt) (callerIov : Iov) :
    Carries s pkt ⟨moveHeader first :: rest, 4, (padFrame pkt).length - 4,
      be16 (padFrame pkt) 14, rxdStatVp, callerIov⟩ := by
  refine carries_of_tagged ht rfl rfl rfl ?_ ?_
  · simp only [CursorOk, length_moveHeader hfirst]
    omega
  · rw [← hflat, List.flatten_cons, List.flatten_cons]
    exact drop_moveHeader_append hfirst

theorem carries_gathered {iov : Iov} {filterBuf : List U8}
    (hheader : filterBuf.take 16 = (padFrame pkt).take 16) (hbuf : 12 ≤ filterBuf.length)
    (hflat : iov.flatten = padFrame pkt) :
    ∃ iov' rest ofs, iovFromBuf iov 4 filterBuf 12 = .ok (iov', 12) ∧
      iovSkip iov' 4 = .ok (rest, ofs) ∧
      Carries s pkt ⟨rest, ofs, (padFrame pkt).length - 4, be16 (padFrame pkt) 14,
        rxdStatVp, iov'⟩ := by
  have hlen := length_padFrame pkt
  simp only [minBufSize] at hlen
  obtain ⟨iov', hfrom, hflat', -⟩ := iovFromBuf_eq iov hbuf
    (show 4 ≤ iov.flatten.length by rw [hflat]; omega)
  rw [hflat, Nat.min_eq_left (show 12 ≤ (padFrame pkt).length - 4 by omega)] at hfrom hflat'
  have haddr : filterBuf.take 12 = (padFrame pkt).take 12 := by
    have := congrArg (List.take 12) hheader
    rwa [List.take_take, List.take_take] at this
  have hmoved : iov'.flatten = moveHeader (padFrame pkt) := by
    rw [hflat', haddr, overwrite, moveHeader, List.length_take, Nat.min_eq_left (by omega)]
  obtain ⟨rest, ofs, hskip, hcursor, hdrop⟩ := iovSkip_spec iov' 4
    (by rw [hmoved, length_moveHeader (by omega)]; omega)
  refine ⟨iov', rest, ofs, hfrom, hskip, ?_⟩
  refine carries_of_tagged ht rfl rfl rfl hcursor ?_
  rw [hdrop, hmoved, drop_moveHeader (by omega)]

end Tagged

theorem stripVlan_spec (s : E1000State) {iov : Iov} {h : RxHeader} (hok : HeaderOk iov h) :
    ∃ p, stripVlan s iov h = .ok p ∧ Carries s iov.flatten p := by
  obtain ⟨path, filterBuf, hiov, size⟩ := h
  obtain ⟨hheader, hsize, hflat, hpath⟩ := hok
  dsimp only at hheader hsize hflat hpath
  obtain ⟨-, htag, hspecial⟩ := header_congr s hheader
  subst hsize
  simp only [stripVlan, htag, hspecial]
  by_cases ht : tagged s iov.flatten = true
  · rw [if_pos (show (vlanEnabled s && isVlanPacket s (padFrame iov.flatten)) = true from ht)]
    cases path with
    | padded =>
        obtain ⟨first, rest, rfl, hfirst⟩ := hpath
        exact ⟨_, rfl, carries_moved ht hfirst hflat _⟩
    | inPlace =>
        obtain ⟨first, rest, rfl, hfirst⟩ := hpath
        exact ⟨_, rfl, carries_moved ht hfirst hflat _⟩
    | gathered =>
        obtain ⟨iov', rest, ofs, hfrom, hskip, hcarries⟩ :=
          carries_gathered ht hheader hpath hflat
        refine ⟨_, ?_, hcarries⟩
        simp only [hfrom, hskip, Run.ok_bind]
  · rw [if_neg (show ¬ (vlanEnabled s && isVlanPacket s (padFrame iov.flatten)) = true from ht)]
    refine ⟨_, rfl, ?_, ?_, ?_, ?_, ?_⟩
    · rw [length_frameBytes, if_neg ht]
    · rw [frameSpecial, if_neg ht]
    · rw [frameStatus, if_neg ht]
    · cases hiov <;> simp [CursorOk]
    · rw [frameBytes, if_neg ht, List.drop_zero]
      exact hflat

/-! ## Admission -/

theorem receive_refused {w : World} {iov : Iov} (hne : iov ≠ [])
    (h : accepted w.dev iov.flatten = false) (fuel : Nat) :
    e1000ReceiveIov fuel w iov = .ok ⟨refusal w.dev iov.flatten, iov, w⟩ := by
  obtain ⟨hd, hheader, hok⟩ := receiveHeader_spec hne
  have hfilter := (header_congr w.dev hok.header).1
  cases hlu : test (w.dev.macReg Reg.status) statusLu with
  | false => simp [e1000ReceiveIov, hne, World.reg, hlu, refusal]
  | true =>
      cases hen : test (w.dev.macReg Reg.rctl) rctlEn with
      | false => simp [e1000ReceiveIov, hne, World.reg, hlu, hen, refusal]
      | true =>
          cases hsize : oversized w.dev (padFrame iov.flatten).length with
          | true =>
              simp [e1000ReceiveIov, hne, World.reg, hlu, hen, hheader, hok.size, hsize,
                refusal]
          | false =>
              have hpass : receiveFilter w.dev (padFrame iov.flatten) = false := by
                simpa [accepted, hlu, hen, hsize] using h
              simp [e1000ReceiveIov, hne, World.reg, hlu, hen, hheader, hok.size, hsize,
                hfilter, hpass, refusal]

theorem receive_accepted {w : World} {iov : Iov} (hne : iov ≠ [])
    (h : accepted w.dev iov.flatten = true) :
    ∃ p, receiveHeader iov >>= stripVlan w.dev iov = .ok p ∧ Carries w.dev iov.flatten p ∧
      ∀ fuel, e1000ReceiveIov fuel w iov = storePacket fuel w p := by
  obtain ⟨hd, hheader, hok⟩ := receiveHeader_spec hne
  obtain ⟨p, hstrip, hcarries⟩ := stripVlan_spec w.dev hok
  have hfilter := (header_congr w.dev hok.header).1
  simp only [accepted, Bool.and_eq_true, Bool.not_eq_eq_eq_not, Bool.not_true] at h
  obtain ⟨⟨⟨hlu, hen⟩, hsize⟩, hpass⟩ := h
  refine ⟨p, by rw [hheader, Run.ok_bind, hstrip], hcarries, fun fuel => ?_⟩
  simp [e1000ReceiveIov, hne, World.reg, hlu, hen, hheader, hok.size, hsize, hfilter, hpass,
    hstrip]

end SE4VM.E1000
