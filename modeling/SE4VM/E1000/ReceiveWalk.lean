import SE4VM.E1000.Frame
import SE4VM.E1000.Packet

/-!
# The receiver's walk over its ring

An abstract receiver: it visits one descriptor after the other, knows the frame
as a list of bytes and has no fragments, no device and no event log.  The
descriptor loop of `e1000ReceiveIov` simulates it step for step, so what the
loop does can be read off the iterates of `rxVisit`.
-/

namespace SE4VM.E1000

open SE4VM.Foundation

/-! ## The abstract walk -/

structure RxTask where
  base : U64
  rdlen : U32
  rxbuf : Nat
  data : List U8
  params : RxParams

/-- One descriptor, as it was found and as it was left, with the bytes put in its buffer. -/
structure Visit where
  index : U32
  fetched : RxDesc
  stored : RxDesc
  chunk : List U8

structure RxPos where
  mem : Memory
  rdh : U32
  off : Nat
  /-- Newest first. -/
  visits : List Visit

namespace RxTask

variable (t : RxTask)

def descSize (off : Nat) : Nat := min (t.params.totalSize - off) t.rxbuf

def fetched (s : RxPos) : RxDesc := RxDesc.fetch s.mem (descAddr t.base s.rdh)

def visit (s : RxPos) : Visit :=
  let desc := markDesc t.params (t.fetched s)
  if (t.fetched s).bufferAddr = 0#64 then ⟨s.rdh, t.fetched s, desc, []⟩
  else
    ⟨s.rdh, t.fetched s,
      fillDesc t.params (s.off + t.descSize s.off) (t.descSize s.off) desc,
      (t.data.drop s.off).take t.rxbuf⟩

def rxVisit (s : RxPos) : RxPos where
  mem := (s.mem.write (t.fetched s).bufferAddr (t.visit s).chunk).write
    (descAddr t.base s.rdh) (t.visit s).stored.toBytes
  rdh := ringNext t.rdlen s.rdh
  off := if (t.fetched s).bufferAddr = 0#64 then s.off else s.off + t.descSize s.off
  visits := t.visit s :: s.visits

section Cases

variable {t} {s : RxPos}

theorem visit_of_null (h : (t.fetched s).bufferAddr = 0#64) :
    t.visit s = ⟨s.rdh, t.fetched s, markDesc t.params (t.fetched s), []⟩ := by
  rw [visit, if_pos h]

theorem visit_of_ne (h : (t.fetched s).bufferAddr ≠ 0#64) :
    t.visit s = ⟨s.rdh, t.fetched s,
      fillDesc t.params (s.off + t.descSize s.off) (t.descSize s.off)
        (markDesc t.params (t.fetched s)),
      (t.data.drop s.off).take t.rxbuf⟩ := by
  rw [visit, if_neg h]

theorem off_of_null (h : (t.fetched s).bufferAddr = 0#64) : (t.rxVisit s).off = s.off := by
  rw [rxVisit, if_pos h]

theorem off_of_ne (h : (t.fetched s).bufferAddr ≠ 0#64) :
    (t.rxVisit s).off = s.off + t.descSize s.off := by
  rw [rxVisit, if_neg h]

end Cases

def Stop (s : RxPos) : Prop :=
  s.rdh = t.params.rdhStart ∨ t.params.totalSize ≤ s.off

instance : DecidablePred t.Stop := fun _ => inferInstanceAs (Decidable (_ ∨ _))

end RxTask

/-! ## The events of a visit -/

inductive DataWrites : U64 → List U8 → List Event → Prop
  | nil (ba : U64) : DataWrites ba [] []
  | cons {ba : U64} {bs bs' : List U8} {es : List Event} :
      DataWrites (ba + BitVec.ofNat 64 bs.length) bs' es →
        DataWrites ba (bs ++ bs') (es ++ [.dmaWrite .rxData ba bs])

/-- The log that a list of visits leaves behind, both newest first. -/
def Realises (base : U64) : List Visit → List Event → Prop
  | [], es => es = []
  | v :: vs, es =>
      ∃ ds es', es = .dmaWrite .rxDesc (descAddr base v.index) v.stored.toBytes ::
          (ds ++ .dmaRead .rxDesc (descAddr base v.index) descBytes :: es') ∧
        DataWrites v.fetched.bufferAddr v.chunk ds ∧ Realises base vs es'

theorem Realises.visit {base : U64} {vs : List Visit} {es : List Event}
    (h : Realises base vs es) (v : Visit) (ds : List Event)
    (hds : DataWrites v.fetched.bufferAddr v.chunk ds) :
    Realises base (v :: vs)
      (.dmaWrite .rxDesc (descAddr base v.index) v.stored.toBytes ::
        (ds ++ .dmaRead .rxDesc (descAddr base v.index) descBytes :: es)) :=
  ⟨ds, es, rfl, hds, h⟩

theorem copyFragments_spec (w : World) (ba : U64) (n : Nat) (iov : Iov) (ofs : Nat)
    (hcur : CursorOk iov ofs) (hpos : 0 < (iov.flatten.drop ofs).length)
    (hn : n ≤ (iov.flatten.drop ofs).length) (hlt : n < 2 ^ 64) :
    ∃ w' iov' ofs' es, copyFragments w ba n iov ofs = .ok (w', iov', ofs') ∧
      w'.mem = w.mem.write ba ((iov.flatten.drop ofs).take n) ∧ w'.dev = w.dev ∧
      w'.log = es ++ w.log ∧ DataWrites ba ((iov.flatten.drop ofs).take n) es ∧
      CursorOk iov' ofs' ∧ iov'.flatten.drop ofs' = (iov.flatten.drop ofs).drop n := by
  induction iov generalizing w ba n ofs with
  | nil => simp at hpos
  | cons frag rest ih =>
      have hofs : ofs ≤ frag.length := hcur
      rw [List.flatten_cons, List.drop_append_of_le_length hofs] at hpos hn ⊢
      have hdl : (frag.drop ofs).length = frag.length - ofs := List.length_drop
      simp only [List.length_append, hdl] at hpos hn
      simp only [copyFragments]
      split_ifs with hlast hend
      · -- The fragment ends with the copy.
        have htake : (frag.drop ofs ++ rest.flatten).take n = frag.drop ofs := by
          rw [List.take_append_of_le_length (by omega), List.take_of_length_le (by omega)]
        have hcopy : (frag.drop ofs).take (min n (frag.length - ofs)) = frag.drop ofs :=
          List.take_of_length_le (by omega)
        rw [htake, hcopy]
        refine ⟨_, _, _, [_], rfl, rfl, rfl, rfl, ?_, ?_, ?_⟩
        · simpa using DataWrites.cons (.nil (ba + BitVec.ofNat 64 (frag.drop ofs).length))
        · cases rest <;> simp [CursorOk]
        · rw [List.drop_zero, List.drop_append, List.drop_eq_nil_of_le (by omega), hdl,
            show n - (frag.length - ofs) = 0 by omega, List.drop_zero, List.nil_append]
      · -- Bytes of the fragment are left over.
        have hmin : min n (frag.length - ofs) = n := by omega
        rw [hmin, List.take_append_of_le_length (by omega)]
        refine ⟨_, _, _, [_], rfl, rfl, rfl, rfl, ?_, ?_, ?_⟩
        · simpa using
            DataWrites.cons (.nil (ba + BitVec.ofNat 64 ((frag.drop ofs).take n).length))
        · simp only [CursorOk]
          omega
        · rw [List.flatten_cons, List.drop_append_of_le_length (by omega),
            List.drop_append_of_le_length (by omega), List.drop_drop]
      · -- The fragment is used up and the next one continues.
        have hmin : min n (frag.length - ofs) = frag.length - ofs := by omega
        have hcopy : (frag.drop ofs).take (frag.length - ofs) = frag.drop ofs :=
          List.take_of_length_le (by omega)
        rw [hmin, hcopy]
        obtain ⟨w', iov', ofs', es, hrun, hmem, hdev, hlog, hwrites, hcur', hdrop⟩ :=
          ih (w.dmaWrite .rxData ba (frag.drop ofs))
            (ba + BitVec.ofNat 64 (frag.length - ofs)) (n - (frag.length - ofs)) 0
            (by cases rest <;> simp [CursorOk])
            (by rw [List.drop_zero]; omega) (by rw [List.drop_zero]; omega) (by omega)
        rw [List.drop_zero] at hmem hwrites hdrop
        have htake : (frag.drop ofs ++ rest.flatten).take n =
            frag.drop ofs ++ rest.flatten.take (n - (frag.length - ofs)) := by
          rw [List.take_append, List.take_of_length_le (by omega), hdl]
        rw [htake]
        refine ⟨w', iov', ofs', es ++ [.dmaWrite .rxData ba (frag.drop ofs)], hrun, ?_,
          hdev, ?_, ?_, hcur', ?_⟩
        · rw [hmem, World.mem_dmaWrite, Memory.write_append, hdl]
          rw [List.length_take, hdl]
          omega
        · rw [hlog, World.log_dmaWrite, List.append_assoc, List.singleton_append]
        · exact .cons (by rwa [hdl])
        · have hnil : (frag.drop ofs).drop n = [] := List.drop_eq_nil_of_le (by omega)
          rw [hdrop, List.drop_append, hnil, hdl, List.nil_append]

/-! ## Simulation -/

def rxTask (w : World) (params : RxParams) (data : List U8) : RxTask :=
  ⟨rxDescBase w.dev, w.reg Reg.rdlen, w.dev.rxbufSize.toNat, data, params⟩

/-- The loop state `st` of a run that started in `w` stands where the walk is. -/
structure RxSim (w : World) (t : RxTask) (st : RxLoop) (s : RxPos) : Prop where
  mem : st.world.mem = s.mem
  dev : st.world.dev = (w.setReg Reg.rdh s.rdh).dev
  off : st.descOffset = s.off
  cursor : CursorOk st.iov st.iovOfs
  bytes : st.iov.flatten.drop st.iovOfs = t.data.drop s.off
  log : ∃ es, st.world.log = es ++ w.log ∧ Realises t.base s.visits es

theorem rxDescBase_setReg_rdh (w : World) (v : U32) :
    rxDescBase (w.setReg Reg.rdh v).dev = rxDescBase w.dev := by
  have hbah := World.reg_setReg_of_ne w Reg.rdh Reg.rdbah v (by decide)
  have hbal := World.reg_setReg_of_ne w Reg.rdh Reg.rdbal v (by decide)
  simp only [World.reg] at hbah hbal
  rw [rxDescBase, hbah, hbal, rxDescBase]

section Simulation

variable {w : World} {params : RxParams} {data : List U8} {st : RxLoop} {s : RxPos}

theorem RxSim.headAddr (h : RxSim w (rxTask w params data) st s) :
    rxHeadAddr st.world = descAddr (rxDescBase w.dev) s.rdh := by
  have hrdh : st.world.reg Reg.rdh = s.rdh := by
    rw [World.reg, h.dev]
    exact World.reg_setReg_self w Reg.rdh s.rdh
  rw [rxHeadAddr, hrdh, h.dev, rxDescBase_setReg_rdh]

theorem fillBuffer_spec (hdata : params.size = data.length)
    (h : RxSim w (rxTask w params data) st s) (w' : World)
    (hdev : w'.dev = st.world.dev) (ba : U64) :
    ∃ w'' iov ofs es, fillBuffer params st w' ba = .ok (w'', iov, ofs) ∧
      w''.mem = w'.mem.write ba ((data.drop s.off).take w.dev.rxbufSize.toNat) ∧
      w''.dev = w'.dev ∧ w''.log = es ++ w'.log ∧
      DataWrites ba ((data.drop s.off).take w.dev.rxbufSize.toNat) es ∧
      CursorOk iov ofs ∧
      iov.flatten.drop ofs = (data.drop s.off).drop w.dev.rxbufSize.toNat := by
  have hbuf : w'.dev.rxbufSize = w.dev.rxbufSize := by
    rw [hdev, h.dev]
    rfl
  have hbytes : st.iov.flatten.drop st.iovOfs = data.drop s.off := h.bytes
  simp only [fillBuffer, h.off, hdata, hbuf]
  split_ifs with hmore
  · have hlen : (data.drop s.off).length = data.length - s.off := List.length_drop
    have htake : (data.drop s.off).take (min (data.length - s.off) w.dev.rxbufSize.toNat) =
        (data.drop s.off).take w.dev.rxbufSize.toNat := by
      rw [List.take_eq_take_iff]
      omega
    have hdrop : (data.drop s.off).drop (min (data.length - s.off) w.dev.rxbufSize.toNat) =
        (data.drop s.off).drop w.dev.rxbufSize.toNat := by
      rcases Nat.le_total (data.length - s.off) w.dev.rxbufSize.toNat with hle | hle
      · rw [Nat.min_eq_left hle, List.drop_eq_nil_of_le (by omega),
          List.drop_eq_nil_of_le (by omega)]
      · rw [Nat.min_eq_right hle]
    have hlt := w.dev.rxbufSize.isLt
    have hspec := copyFragments_spec w' ba
      (min (data.length - s.off) w.dev.rxbufSize.toNat) st.iov st.iovOfs h.cursor
      (by rw [hbytes]; omega) (by rw [hbytes]; omega) (by omega)
    rw [hbytes, htake, hdrop] at hspec
    exact hspec
  · have hnil : data.drop s.off = [] := List.drop_eq_nil_of_le (by omega)
    rw [hnil, List.take_nil, List.drop_nil]
    exact ⟨w', st.iov, st.iovOfs, [], rfl, rfl, rfl, rfl, .nil ba, h.cursor,
      by rw [hbytes, hnil]⟩

theorem drop_descSize (t : RxTask) (htotal : t.data.length ≤ t.params.totalSize) (off : Nat) :
    (t.data.drop off).drop t.rxbuf = t.data.drop (off + t.descSize off) := by
  rw [List.drop_drop, RxTask.descSize]
  rcases Nat.le_total t.rxbuf (t.params.totalSize - off) with hle | hle
  · rw [Nat.min_eq_right hle]
  · rw [Nat.min_eq_left hle, List.drop_eq_nil_of_le (by omega),
      List.drop_eq_nil_of_le (by omega)]

theorem rxStore_sim (hdata : params.size = data.length)
    (htotal : data.length ≤ params.totalSize) (h : RxSim w (rxTask w params data) st s) :
    ∃ st', rxStore params st = .ok st' ∧
      st'.world.mem = ((rxTask w params data).rxVisit s).mem ∧
      st'.world.dev = st.world.dev ∧
      st'.descOffset = ((rxTask w params data).rxVisit s).off ∧
      CursorOk st'.iov st'.iovOfs ∧
      st'.iov.flatten.drop st'.iovOfs =
        data.drop ((rxTask w params data).rxVisit s).off ∧
      ∃ es, st'.world.log = es ++ w.log ∧
        Realises (rxDescBase w.dev) ((rxTask w params data).rxVisit s).visits es := by
  have haddr := h.headAddr
  have hbuf : st.world.dev.rxbufSize = w.dev.rxbufSize := by
    rw [h.dev]
    rfl
  have hfetch : RxDesc.fetch st.world.mem (descAddr (rxDescBase w.dev) s.rdh) =
      (rxTask w params data).fetched s := by
    rw [h.mem]
    rfl
  obtain ⟨es₀, hlog₀, hreal⟩ := h.log
  simp only [rxStore, haddr, hfetch, h.off, hbuf]
  by_cases hnull : ((rxTask w params data).fetched s).bufferAddr = 0#64
  · have hvisit := RxTask.visit_of_null hnull
    have hmark : (markDesc params ((rxTask w params data).fetched s)).bufferAddr = 0#64 :=
      hnull
    simp only [hmark, if_true, RxTask.off_of_null hnull]
    refine ⟨_, rfl, ?_, rfl, rfl, h.cursor, h.bytes, ?_⟩
    · simp only [RxTask.rxVisit, hvisit, Memory.write_nil, World.mem_dmaWrite,
        World.mem_emit, h.mem]
      rfl
    · refine ⟨_, ?_, hreal.visit ((rxTask w params data).visit s) [] ?_⟩
      · rw [World.log_dmaWrite, World.log_emit, hlog₀, hvisit]
        rfl
      · rw [hvisit]
        exact .nil _
  · have hvisit := RxTask.visit_of_ne hnull
    have hmark : (markDesc params ((rxTask w params data).fetched s)).bufferAddr ≠ 0#64 :=
      hnull
    obtain ⟨w', iov, ofs, ds, hfill, hmem, hdev, hlog, hwrites, hcur, hdrop⟩ :=
      fillBuffer_spec hdata h
        (st.world.emit (.dmaRead .rxDesc (descAddr (rxDescBase w.dev) s.rdh) descBytes))
        rfl (markDesc params ((rxTask w params data).fetched s)).bufferAddr
    simp only [hmark, if_false, hfill, Run.ok_bind, RxTask.off_of_ne hnull]
    refine ⟨_, rfl, ?_, hdev, rfl, hcur, ?_, ?_⟩
    · simp only [RxTask.rxVisit, hvisit, World.mem_dmaWrite, hmem, World.mem_emit, h.mem]
      rfl
    · rw [hdrop]
      exact drop_descSize (rxTask w params data) htotal s.off
    · refine ⟨_, ?_, hreal.visit ((rxTask w params data).visit s) ds ?_⟩
      · rw [World.log_dmaWrite, hlog, World.log_emit, hlog₀, hvisit, List.cons_append,
          List.append_assoc, List.cons_append]
        rfl
      · rw [hvisit]
        exact hwrites

structure RxEnd (w : World) (t : RxTask) (r : Bool × World) (s : RxPos) : Prop where
  wrapped : r.1 = decide (s.rdh = t.params.rdhStart)
  mem : r.2.mem = s.mem
  dev : r.2.dev = (w.setReg Reg.rdh s.rdh).dev
  log : ∃ es, r.2.log = es ++ w.log ∧ Realises t.base s.visits es

theorem rxBody_sim (hdata : params.size = data.length)
    (htotal : data.length ≤ params.totalSize) (h : RxSim w (rxTask w params data) st s) :
    Run.Rel (fun x y =>
      (∃ a b, x = .next a ∧ y = .next b ∧ RxSim w (rxTask w params data) a b) ∨
      (∃ a b, x = .done a ∧ y = .done b ∧ RxEnd w (rxTask w params data) a b))
      (rxBody params st)
      (untilBody (rxTask w params data).rxVisit (rxTask w params data).Stop s) := by
  obtain ⟨st', hstore, hmem, hdev, hoff, hcur, hbytes, hlog⟩ := rxStore_sim hdata htotal h
  have hrdh : st'.world.reg Reg.rdh = s.rdh := by
    rw [World.reg, hdev, h.dev]
    exact World.reg_setReg_self w Reg.rdh s.rdh
  have hrdlen : st'.world.reg Reg.rdlen = w.reg Reg.rdlen := by
    rw [World.reg, hdev, h.dev]
    exact World.reg_setReg_of_ne w Reg.rdh Reg.rdlen s.rdh (by decide)
  have hdev' : ∀ v, (st'.world.setReg Reg.rdh v).dev = (w.setReg Reg.rdh v).dev := fun v => by
    rw [World.dev_setReg, hdev, h.dev]
    simp [World.dev_setReg]
  simp only [rxBody, hstore, Run.ok_bind, hrdh, hrdlen, untilBody]
  by_cases hwrap : ringNext (w.reg Reg.rdlen) s.rdh = params.rdhStart
  · rw [if_pos hwrap, if_pos (.inl hwrap)]
    exact .ok (.inr ⟨_, _, rfl, rfl, (decide_eq_true hwrap).symm, hmem, hdev' _, hlog⟩)
  · rw [if_neg hwrap]
    by_cases hmore : st'.descOffset < params.totalSize
    · have hgo : ¬ (rxTask w params data).Stop ((rxTask w params data).rxVisit s) :=
        not_or.mpr ⟨hwrap, Nat.not_le.mpr (hoff ▸ hmore)⟩
      rw [if_pos hmore, if_neg hgo]
      exact .ok (.inl ⟨_, _, rfl, rfl, hmem, hdev' _, hoff, hcur, hbytes, hlog⟩)
    · have hend : params.totalSize ≤ ((rxTask w params data).rxVisit s).off :=
        hoff ▸ Nat.not_lt.mp hmore
      rw [if_neg hmore, if_pos (.inr hend)]
      exact .ok (.inr ⟨_, _, rfl, rfl, (decide_eq_false hwrap).symm, hmem, hdev' _, hlog⟩)

end Simulation

/-! ## Storing a frame -/

def frameParams (w : World) (pkt : List U8) : RxParams where
  size := (frameBytes w.dev pkt).length
  totalSize := (frameBytes w.dev pkt).length + fcsLen w.dev
  vlanSpecial := frameSpecial w.dev pkt
  vlanStatus := frameStatus w.dev pkt
  rdhStart := w.reg Reg.rdh

def frameTask (w : World) (pkt : List U8) : RxTask :=
  rxTask w (frameParams w pkt) (frameBytes w.dev pkt)

def rxStart (w : World) : RxPos := ⟨w.mem, w.reg Reg.rdh, 0, []⟩

theorem rxLoop_sim {w : World} {pkt : List U8} {p : RxPacket} (hp : Carries w.dev pkt p)
    (fuel : Nat) :
    Run.Rel (RxEnd w (frameTask w pkt))
      (loop (rxBody ⟨p.size, p.size + fcsLen w.dev, p.vlanSpecial, p.vlanStatus,
        w.reg Reg.rdh⟩) fuel ⟨w, 0, p.iov, p.iovOfs⟩)
      (loop (untilBody (frameTask w pkt).rxVisit (frameTask w pkt).Stop) fuel
        (rxStart w)) := by
  rw [hp.size, hp.special, hp.status]
  refine loop_rel (fun st s h => rxBody_sim rfl (by simp [frameParams]) h) fuel ?_
  refine ⟨rfl, ?_, rfl, hp.cursor, ?_, [], rfl, rfl⟩
  · simp [World.dev_setReg, rxStart, World.reg]
  · rw [hp.bytes]
    rfl

/-- The frame finds enough descriptors, and the loop is entered. -/
def entersRing (w : World) (pkt : List U8) : Bool :=
  accepted w.dev pkt && e1000HasRxbufs w.dev (frameParams w pkt).totalSize

/-- What the call returns and leaves behind once the walk has ended in `s`. -/
structure RxResult (w : World) (pkt : List U8) (r : Received) (s : RxPos) : Prop where
  ret : r.ret = if s.rdh = w.reg Reg.rdh then -1 else ((frameBytes w.dev pkt).length : Int)
  world : ∃ w', RxEnd w (frameTask w pkt) (decide (s.rdh = w.reg Reg.rdh), w') s ∧
    r.world = if s.rdh = w.reg Reg.rdh then setIcs w' icrRxo
      else receiveDone w' (frameBytes w.dev pkt).length

theorem RxResult.log {w : World} {pkt : List U8} {r : Received} {s : RxPos}
    (h : RxResult w pkt r s) :
    ∃ pins es, r.world.log = pins ++ (es ++ w.log) ∧ (∀ e ∈ pins, e.isPin = true) ∧
      Realises (rxDescBase w.dev) s.visits es := by
  obtain ⟨w', hend, hworld⟩ := h.world
  obtain ⟨es, hes, hreal⟩ := hend.log
  have hpins : PinsOnly w' r.world := by
    rw [hworld]
    split_ifs
    · exact setInterruptCause_pinsOnly w' _
    · exact receiveDone_pinsOnly w' _
  obtain ⟨pins, hpin, hlog⟩ := hpins
  exact ⟨pins, es, hlog.trans (congrArg (pins ++ ·) hes), hpin, hreal⟩

theorem receive_sim {w : World} {iov : Iov} (hne : iov ≠ [])
    (h : entersRing w iov.flatten = true) (fuel : Nat) :
    Run.Rel (RxResult w iov.flatten) (e1000ReceiveIov fuel w iov)
      (loop (untilBody (frameTask w iov.flatten).rxVisit (frameTask w iov.flatten).Stop) fuel
        (rxStart w)) := by
  obtain ⟨hacc, hroom⟩ := Bool.and_eq_true_iff.mp h
  obtain ⟨p, -, hp, hrun⟩ := receive_accepted hne hacc
  have hroom' : e1000HasRxbufs w.dev (p.size + fcsLen w.dev) = true := by
    rw [hp.size]
    exact hroom
  rw [hrun, storePacket, if_pos hroom', ← Run.bind_ok_self (loop (untilBody _ _) _ _)]
  refine (rxLoop_sim hp fuel).bind ?_
  rintro ⟨wrapped, w'⟩ s hend
  obtain ⟨rfl⟩ : wrapped = decide (s.rdh = w.reg Reg.rdh) := hend.wrapped
  dsimp only
  split_ifs with hwrap
  · refine .ok ⟨?_, w', hend, ?_⟩
    · rw [if_pos (of_decide_eq_true hwrap)]
    · rw [if_pos (of_decide_eq_true hwrap)]
  · have hgo : s.rdh ≠ w.reg Reg.rdh := fun h => hwrap (decide_eq_true h)
    refine .ok ⟨?_, w', hend, ?_⟩
    · rw [if_neg hgo, hp.size]
    · rw [if_neg hgo, hp.size]

theorem receive_unstored {w : World} {iov : Iov} (hne : iov ≠ [])
    (h : entersRing w iov.flatten = false) :
    ∃ callerIov, ∀ fuel, e1000ReceiveIov fuel w iov =
      .ok (if accepted w.dev iov.flatten then ⟨-1, callerIov, setIcs w icrRxo⟩
        else ⟨refusal w.dev iov.flatten, callerIov, w⟩) := by
  cases hacc : accepted w.dev iov.flatten with
  | false => exact ⟨iov, fun fuel => receive_refused hne hacc fuel⟩
  | true =>
      obtain ⟨p, -, hp, hrun⟩ := receive_accepted hne hacc
      have hroom : e1000HasRxbufs w.dev (p.size + fcsLen w.dev) = false := by
        rw [hp.size]
        simpa [entersRing, hacc, frameParams] using h
      refine ⟨p.callerIov, fun fuel => ?_⟩
      rw [hrun, storePacket, hroom]
      rfl

end SE4VM.E1000
