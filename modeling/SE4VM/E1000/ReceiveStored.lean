import SE4VM.E1000.ReceiveScatter

/-!
# What the guest finds after a packet

A frame stored over a ring that may have null descriptors in it: the buffers met
among the owned slots hold the frame, and the descriptors are left as the walk
wrote them, provided that no buffer reaches into the ring or into another buffer.
-/

namespace SE4VM.E1000

open SE4VM.Foundation

/-! ## The walk as a list of visits -/

/-- Guest memory after a visit. -/
def storeVisit (base : U64) (mem : Memory) (v : Visit) : Memory :=
  (mem.write v.fetched.bufferAddr v.chunk).write (descAddr base v.index) v.stored.toBytes

namespace RxTask

variable {t : RxTask} {s : RxPos}

def walk (t : RxTask) (s : RxPos) (k : Nat) : List Visit :=
  (List.range k).map fun j => t.visit (t.rxVisit^[j] s)

theorem walk_succ (t : RxTask) (s : RxPos) (k : Nat) :
    t.walk s (k + 1) = t.walk s k ++ [t.visit (t.rxVisit^[k] s)] := by
  rw [walk, List.range_succ, List.map_append, List.map_singleton, walk]

theorem visit_fetched (t : RxTask) (s : RxPos) : (t.visit s).fetched = t.fetched s := by
  rw [visit]
  split_ifs <;> rfl

theorem mem_walk (t : RxTask) (s : RxPos) (k : Nat) :
    (t.rxVisit^[k] s).mem = (t.walk s k).foldl (storeVisit t.base) s.mem := by
  induction k with
  | zero => rfl
  | succ k ih =>
      rw [walk_succ, List.foldl_append, ← ih, Function.iterate_succ_apply', List.foldl_cons,
        List.foldl_nil, storeVisit, visit_fetched, visit_index]
      rfl

/-- The bytes stored so far are the start of the frame. -/
theorem chunks_walk_take (htotal : t.data.length ≤ t.params.totalSize) (hs : s.off = 0)
    (k : Nat) :
    ((t.walk s k).map Visit.chunk).flatten = t.data.take (t.rxVisit^[k] s).off := by
  induction k with
  | zero => simp [walk, hs]
  | succ k ih =>
      rw [walk_succ, List.map_append, List.flatten_append, ih, Function.iterate_succ_apply',
        List.map_singleton, List.flatten_singleton]
      by_cases hnull : (t.fetched (t.rxVisit^[k] s)).bufferAddr = 0#64
      · rw [visit_of_null hnull, off_of_null hnull, List.append_nil]
      · rw [visit_of_ne hnull, off_of_ne hnull, ← List.take_add, List.take_eq_take_iff, descSize]
        omega

theorem special_walk {k : Nat} {v : Visit} (hv : v ∈ t.walk s k) :
    v.stored.special = t.params.vlanSpecial ∧
      v.stored.bufferAddr = v.fetched.bufferAddr := by
  obtain ⟨j, -, rfl⟩ := List.mem_map.mp hv
  rw [visit]
  split_ifs <;> exact ⟨rfl, rfl⟩

theorem marked_status : ∀ s : U8,
    let marked := s ||| (rxdStatVp ||| rxdStatDd)
    test marked rxdStatVp = true ∧
      test (marked ||| (rxdStatEop ||| rxdStatIxsm)) rxdStatVp = true ∧
      test (marked &&& ~~~rxdStatEop) rxdStatVp = true := by
  decide

theorem vp_walk (hstatus : t.params.vlanStatus = rxdStatVp) {k : Nat} {v : Visit}
    (hv : v ∈ t.walk s k) : test v.stored.status rxdStatVp = true := by
  obtain ⟨j, -, rfl⟩ := List.mem_map.mp hv
  obtain ⟨hmark, hlast, hmore⟩ := marked_status (t.fetched (t.rxVisit^[j] s)).status
  rw [visit]
  simp only [fillDesc, markDesc, hstatus]
  split_ifs
  · exact hmark
  · exact hlast
  · exact hmore

theorem read_rxVisit_of_disjoint {a : U64} {n : Nat}
    (hbuf : Memory.Disjoint a n (t.fetched s).bufferAddr t.rxbuf)
    (hdesc : Memory.Disjoint a n (descAddr t.base s.rdh) descBytes) :
    (t.rxVisit s).mem.read a n = s.mem.read a n := by
  rw [rxVisit, Memory.read_write_of_disjoint _ (by rwa [RxDesc.length_toBytes]),
    Memory.read_write_of_disjoint _ (hbuf.mono (length_chunk_le t s))]

theorem read_rxVisit_self (hsmall : t.rxbuf ≤ 2 ^ 64)
    (hdesc : Memory.Disjoint (t.fetched s).bufferAddr t.rxbuf (descAddr t.base s.rdh)
      descBytes) :
    (t.rxVisit s).mem.read (t.fetched s).bufferAddr (t.visit s).chunk.length =
      (t.visit s).chunk := by
  have hle := length_chunk_le t s
  rw [rxVisit, Memory.read_write_of_disjoint _
    (by rw [RxDesc.length_toBytes]; exact hdesc.mono_left hle),
    Memory.read_write_self _ _ _ (by omega)]

end RxTask

/-! ## Reading the walk back -/

/-- No buffer reaches into that of another slot. -/
def BuffersDisjoint (w : World) : Prop :=
  ∀ i j : U32, i.toNat < rxSlots w → j.toNat < rxSlots w → i ≠ j →
    Memory.Disjoint
      (RxDesc.fetch w.mem (descAddr (rxDescBase w.dev) i)).bufferAddr w.dev.rxbufSize.toNat
      (RxDesc.fetch w.mem (descAddr (rxDescBase w.dev) j)).bufferAddr w.dev.rxbufSize.toNat

section Visible

variable {w : World} {pkt : List U8} (hrdh : (w.reg Reg.rdh).toNat < rxSlots w)
  (hinv : RegInv w.dev) (hapart : BuffersApart w) (hdisjoint : BuffersDisjoint w)

include hrdh hinv hapart hdisjoint

/-- What a visit has stored is still there when the walk has gone on. -/
theorem visible_walk {k : Nat} (hk : k ≤ rxSlots w) {v : Visit}
    (hv : v ∈ (frameTask w pkt).walk (rxStart w) k) :
    RxDesc.fetch ((frameTask w pkt).rxVisit^[k] (rxStart w)).mem
        (descAddr (rxDescBase w.dev) v.index) = v.stored ∧
      ((frameTask w pkt).rxVisit^[k] (rxStart w)).mem.read v.stored.bufferAddr
        v.chunk.length = v.chunk := by
  induction k with
  | zero => cases hv
  | succ k ih =>
      have hfetched : (frameTask w pkt).fetched ((frameTask w pkt).rxVisit^[k] (rxStart w)) =
          rxDescAt w k := fetched_walk hrdh hinv hapart (by omega)
      have hindex : ((frameTask w pkt).rxVisit^[k] (rxStart w)).rdh = rxSlot w k :=
        rdh_walk_eq hrdh hinv k
      have hlt := rxSlot_lt hrdh k
      rw [Function.iterate_succ_apply']
      rw [RxTask.walk_succ, List.mem_append, List.mem_singleton] at hv
      rcases hv with hv | hv
      · obtain ⟨hstored, hchunk⟩ := ih (by omega) hv
        have haddr := (RxTask.special_walk hv).2
        obtain ⟨j, hj, rfl⟩ := List.mem_map.mp hv
        have hjk := List.mem_range.mp hj
        have hltj := rxSlot_lt hrdh j
        have hne : rxSlot w j ≠ rxSlot w k := rxSlot_ne hrdh hjk (by omega)
        rw [RxTask.visit_index, rdh_walk_eq hrdh hinv] at hstored ⊢
        rw [haddr, RxTask.visit_fetched, fetched_walk hrdh hinv hapart (by omega)] at hchunk ⊢
        have hlen := (frameTask w pkt).length_chunk_le ((frameTask w pkt).rxVisit^[j] (rxStart w))
        constructor
        · rw [← hstored]
          refine RxTask.fetch_rxVisit_of_ne (by rwa [hindex]) ?_
          rw [hfetched]
          exact hapart _ _ hlt hltj
        · refine (RxTask.read_rxVisit_of_disjoint ?_ ?_).trans hchunk
          · rw [hfetched]
            exact (hdisjoint _ _ hltj hlt hne).mono_left hlen
          · rw [hindex]
            exact (hapart _ _ hltj hlt).symm.mono_left hlen
      · rw [hv, RxTask.stored_bufferAddr, RxTask.visit_index]
        refine ⟨RxDesc.fetch_write_self _ _ _, RxTask.read_rxVisit_self ?_ ?_⟩
        · have hbuf := w.dev.rxbufSize.isLt
          exact hbuf.le.trans (by decide)
        · rw [hfetched, hindex]
          exact (hapart _ _ hlt hlt).symm

end Visible

/-! ## The call -/

/--
Between `w` and `w'` the frame was stored through the visits `vs`, in owned slots
that now tell its tag.  The last field is what the guest finds there.
-/
structure StoredTagged (w w' : World) (frame : List U8) (special : U16) (vs : List Visit) :
    Prop where
  mem : w'.mem = vs.foldl (storeVisit (rxDescBase w.dev)) w.mem
  bytes : (vs.map Visit.chunk).flatten = frame
  desc : ∀ v ∈ vs, Owned w v.index ∧ v.stored.bufferAddr = v.fetched.bufferAddr ∧
    v.stored.special = special ∧ test v.stored.status rxdStatVp = true
  visible : BuffersApart w → BuffersDisjoint w → ∀ v ∈ vs,
    RxDesc.fetch w'.mem (descAddr (rxDescBase w.dev) v.index) = v.stored ∧
      w'.mem.read v.stored.bufferAddr v.chunk.length = v.chunk

theorem StoredTagged.of_mem_eq {w w' w'' : World} {frame : List U8} {special : U16}
    {vs : List Visit} (h : StoredTagged w w' frame special vs) (hmem : w''.mem = w'.mem) :
    StoredTagged w w'' frame special vs := by
  refine ⟨hmem.trans h.mem, h.bytes, h.desc, ?_⟩
  rw [hmem]
  exact h.visible

section Call

variable {w : World} {iov : Iov} (hne : iov ≠ []) (hinv : RegInv w.dev)
  (hrdh : (w.reg Reg.rdh).toNat < rxSlots w) (hrdt : (w.reg Reg.rdt).toNat < rxSlots w)
  (hacc : accepted w.dev iov.flatten = true)
  (hroom : (frameParams w iov.flatten).totalSize ≤ ownedRoom w iov.flatten)

include hroom

theorem owned_pos_of_room : 0 < ownedSlots w := by
  have hpos := frame_pos w iov.flatten
  rw [Nat.pos_iff_ne_zero]
  intro hzero
  rw [ownedRoom, hzero, RxTask.buffersMet, List.range_zero, List.countP_nil, Nat.zero_mul] at hroom
  omega

include hinv hrdh hrdt hacc

theorem entersRing_of_room : entersRing w iov.flatten = true := by
  have hen : test (w.reg Reg.rctl) rctlEn = true := by
    simp only [accepted, Bool.and_eq_true] at hacc
    exact hacc.1.1.2
  have hmet := (frameTask w iov.flatten).buffersMet_le (rxStart w) (ownedSlots w)
  refine Bool.and_eq_true_iff.mpr ⟨hacc, ?_⟩
  rw [hasRxbufs_iff hinv (hinv.rxbufSize_le hen) hrdh hrdt (frame_pos w _)]
  exact hroom.trans (Nat.mul_le_mul_right _ hmet)

include hne

/-- With room among the owned slots the walk ends there, with the frame stored. -/
theorem receive_walk : ∃ fuel r k, e1000ReceiveIov fuel w iov = .ok r ∧ k ≤ ownedSlots w ∧
    (frameParams w iov.flatten).totalSize ≤
      ((frameTask w iov.flatten).rxVisit^[k] (rxStart w)).off ∧
    r.world.mem = ((frameTask w iov.flatten).rxVisit^[k] (rxStart w)).mem := by
  have hring := entersRing_of_room hinv hrdh hrdt hacc hroom
  have hpos := owned_pos_of_room hroom
  have hlt : ownedSlots w < rxSlots w := ringDist_lt hrdh hrdt
  obtain ⟨fuel, r, hr⟩ := receiveReturns_of_inside hinv hne hrdh hring
  obtain ⟨s, hs, hres⟩ := (receive_sim hne hring fuel).ok_left hr
  obtain ⟨m, -, rfl, hstop, hfirst⟩ := loop_until_eq_ok.mp hs
  have hlast : (frameTask w iov.flatten).Stop
      ((frameTask w iov.flatten).rxVisit^[ownedSlots w - 1 + 1] (rxStart w)) := by
    rw [Nat.sub_add_cancel hpos]
    refine .inr ?_
    rw [RxTask.off_iterate rfl]
    exact Nat.le_min.mpr ⟨le_rfl, hroom⟩
  have hm : m ≤ ownedSlots w - 1 := by
    by_contra hgt
    exact hfirst _ (Nat.not_le.mp hgt) hlast
  refine ⟨fuel, r, m + 1, hr, by omega,
    (stop_walk_iff hrdh hinv (Nat.succ_pos m) (by omega)).mp hstop, ?_⟩
  obtain ⟨w', hend, hworld⟩ := hres.world
  rw [hworld, ← hend.mem]
  split_ifs
  · exact setIcs_mem _ _
  · exact receiveDone_mem _ _

theorem receive_storedTagged (htag : tagged w.dev iov.flatten = true) :
    ∃ fuel r vs, e1000ReceiveIov fuel w iov = .ok r ∧
      StoredTagged w r.world (frameBytes w.dev iov.flatten) (frameSpecial w.dev iov.flatten)
        vs := by
  obtain ⟨fuel, r, k, hr, hk, hoff, hmem⟩ := receive_walk hne hinv hrdh hrdt hacc hroom
  have hlt : ownedSlots w < rxSlots w := ringDist_lt hrdh hrdt
  refine ⟨fuel, r, (frameTask w iov.flatten).walk (rxStart w) k, hr, ?_, ?_, fun v hv => ?_,
    fun hapart hdisjoint v hv => ?_⟩
  · exact hmem.trans (RxTask.mem_walk _ _ _)
  · rw [RxTask.chunks_walk_take (Nat.le_add_right _ _) rfl]
    exact List.take_of_length_le ((Nat.le_add_right _ _).trans hoff)
  · obtain ⟨hspecial, haddr⟩ := RxTask.special_walk hv
    refine ⟨?_, haddr, hspecial, RxTask.vp_walk ?_ hv⟩
    · obtain ⟨j, hj, rfl⟩ := List.mem_map.mp hv
      have hjk := List.mem_range.mp hj
      rw [RxTask.visit_index, owned_walk_iff hrdh hinv (by omega)]
      omega
    · exact if_pos htag
  · rw [hmem]
    exact visible_walk hrdh hinv hapart hdisjoint (by omega) hv

end Call

end SE4VM.E1000
