import SE4VM.E1000.Transmit

/-!
# Changes that reception does not notice

A map on device states that keeps the registers and the scalar fields the receiver
reads, and that commutes with its writes, commutes with a whole reception.  What
lies behind the last register is such a change, and so are the contents of `tx`.
-/

namespace SE4VM.E1000

open SE4VM.Foundation

/-- The length of `mac_reg`. -/
abbrev macRegs : Nat := 0x8000

structure Disguise (g : E1000State → E1000State) : Prop where
  macReg : ∀ s i, i < macRegs → (g s).macReg i = s.macReg i
  linkDown : ∀ s, (g s).linkDown = s.linkDown
  phyCtrl : ∀ s, (g s).phyReg Phy.ctrl = s.phyReg Phy.ctrl
  mitTimerOn : ∀ s, (g s).mitTimerOn = s.mitTimerOn
  mitIrqLevel : ∀ s, (g s).mitIrqLevel = s.mitIrqLevel
  mitIde : ∀ s, (g s).mitIde = s.mitIde
  compatFlags : ∀ s, (g s).compatFlags = s.compatFlags
  rxbufSize : ∀ s, (g s).rxbufSize = s.rxbufSize
  rxbufMinShift : ∀ s, (g s).rxbufMinShift = s.rxbufMinShift
  setReg : ∀ s i v, i < macRegs →
    g { s with macReg := Function.update s.macReg i v } =
      { g s with macReg := Function.update (g s).macReg i v }
  setMitTimerOn : ∀ s b, g { s with mitTimerOn := b } = { g s with mitTimerOn := b }
  setMitIrqLevel : ∀ s b, g { s with mitIrqLevel := b } = { g s with mitIrqLevel := b }
  setMitIde : ∀ s v, g { s with mitIde := v } = { g s with mitIde := v }

def World.over (w : World) (g : E1000State → E1000State) : World := { w with dev := g w.dev }

namespace Disguise

variable {g : E1000State → E1000State} {w : World}

theorem reg (hg : Disguise g) {i : Nat} (hi : i < macRegs) : (w.over g).reg i = w.reg i :=
  hg.macReg w.dev i hi

theorem worldSetReg (hg : Disguise g) {i : Nat} (v : U32) (hi : i < macRegs) :
    (w.over g).setReg i v = (w.setReg i v).over g := by
  simp only [World.over, World.setReg, hg.setReg _ _ _ hi]

/-! ## Interrupts -/

theorem mitDelay (hg : Disguise g) (s : E1000State) (pendingInts : U32) :
    E1000.mitDelay (g s) pendingInts = E1000.mitDelay s pendingInts := by
  simp only [E1000.mitDelay, hg.mitIde, hg.macReg s Reg.tadv (by decide),
    hg.macReg s Reg.rdtr (by decide), hg.macReg s Reg.radv (by decide),
    hg.macReg s Reg.itr (by decide)]

theorem armMitigation (hg : Disguise g) (pendingInts : U32) :
    E1000.armMitigation (w.over g) pendingInts = (E1000.armMitigation w pendingInts).over g := by
  have hdelay : E1000.mitDelay (w.over g).dev pendingInts = E1000.mitDelay w.dev pendingInts :=
    hg.mitDelay w.dev pendingInts
  simp only [E1000.armMitigation, hdelay]
  split_ifs
  · refine congrArg (World.mk · w.mem _) ?_
    have htimer := hg.setMitTimerOn w.dev true
    have hide := hg.setMitIde { w.dev with mitTimerOn := true } 0
    rw [htimer] at hide
    exact hide.symm
  · exact congrArg (World.mk · w.mem w.log) (hg.setMitIde w.dev 0).symm

theorem setIrqLevel (hg : Disguise g) (level : Bool) :
    E1000.setIrqLevel (w.over g) level = (E1000.setIrqLevel w level).over g :=
  congrArg (World.mk · w.mem _) (hg.setMitIrqLevel w.dev level).symm

theorem setInterruptCause (hg : Disguise g) (val : U32) :
    E1000.setInterruptCause (w.over g) val = (E1000.setInterruptCause w val).over g := by
  have hset : ((w.over g).setReg Reg.icr val).setReg Reg.ics val =
      ((w.setReg Reg.icr val).setReg Reg.ics val).over g := by
    rw [hg.worldSetReg _ (by decide), hg.worldSetReg _ (by decide)]
  have hlevel : ∀ u : World, (u.over g).dev.mitIrqLevel = u.dev.mitIrqLevel :=
    fun u => hg.mitIrqLevel u.dev
  have htimer : ∀ u : World, (u.over g).dev.mitTimerOn = u.dev.mitTimerOn :=
    fun u => hg.mitTimerOn u.dev
  have hflags : ∀ u : World, (u.over g).dev.compatFlags = u.dev.compatFlags :=
    fun u => hg.compatFlags u.dev
  simp only [E1000.setInterruptCause, hset, hg.reg (i := Reg.ims) (by decide),
    hg.reg (i := Reg.icr) (by decide), hlevel, htimer, hflags, hg.armMitigation, hg.setIrqLevel]
  split_ifs <;> rfl

theorem setIcs (hg : Disguise g) (val : U32) :
    E1000.setIcs (w.over g) val = (E1000.setIcs w val).over g := by
  rw [E1000.setIcs, hg.reg (by decide), hg.setInterruptCause, E1000.setIcs]

/-! ## Header and filter -/

theorem isVlanPacket (hg : Disguise g) (s : E1000State) (buf : List U8) :
    E1000.isVlanPacket (g s) buf = E1000.isVlanPacket s buf := by
  rw [E1000.isVlanPacket, hg.macReg s Reg.vet (by decide), E1000.isVlanPacket]

theorem vlanEnabled (hg : Disguise g) (s : E1000State) :
    E1000.vlanEnabled (g s) = E1000.vlanEnabled s := by
  rw [E1000.vlanEnabled, hg.macReg s Reg.ctrl (by decide), E1000.vlanEnabled]

theorem vlanFiltered (hg : Disguise g) (s : E1000State) (buf : List U8) :
    E1000.vlanFiltered (g s) buf = E1000.vlanFiltered s buf := by
  have hcell : ∀ vid : Nat, Reg.vfta + ((vid >>> 5) &&& 0x7f) < macRegs := fun vid =>
    Nat.lt_of_le_of_lt (Nat.add_le_add_left Nat.and_le_right _) (by decide)
  simp only [E1000.vlanFiltered, hg.isVlanPacket, vlanRxFilterEnabled,
    hg.macReg s Reg.rctl (by decide), hg.macReg s _ (hcell _)]

theorem raMatch (hg : Disguise g) (s : E1000State) (buf : List U8) :
    E1000.raMatch (g s) buf = E1000.raMatch s buf := by
  rw [Bool.eq_iff_iff]
  simp only [E1000.raMatch, List.any_eq_true, List.mem_range]
  refine exists_congr fun i => and_congr_right fun hi => ?_
  have hcell : Reg.ra + 2 * i + 1 < macRegs :=
    Nat.lt_of_le_of_lt (show Reg.ra + 2 * i + 1 ≤ Reg.ra + 31 by omega) (by decide)
  rw [hg.macReg s _ hcell, hg.macReg s _ (Nat.lt_of_succ_lt hcell)]

theorem receiveFilter (hg : Disguise g) (s : E1000State) (buf : List U8) :
    E1000.receiveFilter (g s) buf = E1000.receiveFilter s buf := by
  have hcell : ∀ f : Nat, Reg.mta + ((f &&& 0xfff) >>> 5) < macRegs := by
    intro f
    have hand : f &&& 0xfff ≤ 0xfff := Nat.and_le_right
    have hle : (f &&& 0xfff) >>> 5 ≤ 127 := by
      rw [Nat.shiftRight_eq_div_pow]
      omega
    exact Nat.lt_of_le_of_lt (Nat.add_le_add_left hle Reg.mta) (by decide)
  simp only [E1000.receiveFilter, hg.vlanFiltered, hg.raMatch, hg.macReg s Reg.rctl (by decide),
    hg.macReg s _ (hcell _)]

theorem oversized (hg : Disguise g) (s : E1000State) (size : Nat) :
    E1000.oversized (g s) size = E1000.oversized s size := by
  simp only [E1000.oversized, hg.macReg s Reg.rctl (by decide)]

theorem stripVlan (hg : Disguise g) (s : E1000State) (iov : Iov) (h : RxHeader) :
    E1000.stripVlan (g s) iov h = E1000.stripVlan s iov h := by
  simp only [E1000.stripVlan, hg.vlanEnabled, hg.isVlanPacket]

theorem fcsLen (hg : Disguise g) (s : E1000State) : E1000.fcsLen (g s) = E1000.fcsLen s := by
  simp only [E1000.fcsLen, hg.macReg s Reg.rctl (by decide)]

theorem e1000HasRxbufs (hg : Disguise g) (s : E1000State) (totalSize : Nat) :
    E1000.e1000HasRxbufs (g s) totalSize = E1000.e1000HasRxbufs s totalSize := by
  simp only [E1000.e1000HasRxbufs, hg.rxbufSize, hg.macReg s Reg.rdh (by decide),
    hg.macReg s Reg.rdt (by decide), hg.macReg s Reg.rdlen (by decide)]

/-! ## The descriptor loop -/

theorem copyFragments (ba : U64) (n : Nat) (iov : Iov) (ofs : Nat) :
    Run.Rel (fun r r' => r' = (r.1.over g, r.2)) (E1000.copyFragments w ba n iov ofs)
      (E1000.copyFragments (w.over g) ba n iov ofs) := by
  induction iov generalizing w ba n ofs with
  | nil => exact .fault
  | cons frag rest ih =>
      simp only [E1000.copyFragments]
      split_ifs
      · exact .ok rfl
      · exact .ok rfl
      · exact ih (w := w.dmaWrite _ _ _) _ _ _

theorem rxHeadAddr (hg : Disguise g) : E1000.rxHeadAddr (w.over g) = E1000.rxHeadAddr w := by
  simp only [E1000.rxHeadAddr, rxDescBase, hg.reg (i := Reg.rdh) (by decide)]
  rw [show (w.over g).dev = g w.dev from rfl, hg.macReg w.dev Reg.rdbah (by decide),
    hg.macReg w.dev Reg.rdbal (by decide)]

def RxOver (g : E1000State → E1000State) (st st' : RxLoop) : Prop :=
  st' = { st with world := st.world.over g }

theorem fillBuffer (hg : Disguise g) (p : RxParams) (st : RxLoop) (ba : U64) :
    Run.Rel (fun r r' => r' = (r.1.over g, r.2)) (E1000.fillBuffer p st w ba)
      (E1000.fillBuffer p { st with world := st.world.over g } (w.over g) ba) := by
  have hsize : (w.over g).dev.rxbufSize = w.dev.rxbufSize := hg.rxbufSize w.dev
  simp only [E1000.fillBuffer, hsize]
  split_ifs
  · exact copyFragments _ _ _ _
  · exact .ok rfl

theorem rxStore (hg : Disguise g) (p : RxParams) (st : RxLoop) :
    Run.Rel (RxOver g) (E1000.rxStore p st)
      (E1000.rxStore p { st with world := st.world.over g }) := by
  have hsize : (st.world.over g).dev.rxbufSize = st.world.dev.rxbufSize :=
    hg.rxbufSize st.world.dev
  have hmem : (st.world.over g).mem = st.world.mem := rfl
  simp only [E1000.rxStore, hg.rxHeadAddr, hsize, hmem]
  by_cases hnull : (markDesc p (RxDesc.fetch st.world.mem
      (E1000.rxHeadAddr st.world))).bufferAddr = 0#64
  · rw [if_pos hnull, if_pos hnull]
    exact .ok rfl
  · rw [if_neg hnull, if_neg hnull]
    refine (hg.fillBuffer (w := st.world.emit _) p st _).bind ?_
    rintro r r' rfl
    exact .ok rfl

theorem rxBody (hg : Disguise g) (p : RxParams) {st st' : RxLoop} (h : RxOver g st st') :
    Run.Rel (fun x y =>
      (∃ a b, x = .next a ∧ y = .next b ∧ RxOver g a b) ∨
      (∃ a b, x = .done a ∧ y = .done b ∧ b = (a.1, a.2.over g)))
      (E1000.rxBody p st) (E1000.rxBody p st') := by
  obtain rfl := h
  refine (hg.rxStore p st).bind ?_
  rintro u u' rfl
  simp only [hg.reg (i := Reg.rdlen) (by decide), hg.reg (i := Reg.rdh) (by decide),
    hg.worldSetReg (i := Reg.rdh) _ (by decide)]
  split_ifs
  · exact .ok (.inr ⟨_, _, rfl, rfl, rfl⟩)
  · exact .ok (.inl ⟨_, _, rfl, rfl, rfl⟩)
  · exact .ok (.inr ⟨_, _, rfl, rfl, rfl⟩)

/-! ## The whole call -/

theorem bump (hg : Disguise g) {i : Nat} (hi : i < macRegs) (f : U32 → U32) :
    (w.over g).setReg i (f ((w.over g).reg i)) = (w.setReg i (f (w.reg i))).over g := by
  rw [hg.reg hi, hg.worldSetReg _ hi]

theorem countReceived (hg : Disguise g) (size : Nat) :
    { w.over g with dev := E1000.countReceived (w.over g).dev size } =
      World.over { w with dev := E1000.countReceived w.dev size } g := by
  -- The counters one by one, as the source has them.
  have hsteps : ∀ u : World, { u with dev := E1000.countReceived u.dev size } =
      (let u := u.setReg Reg.gprc (u.reg Reg.gprc + 1)
      let u := u.setReg Reg.tpr (u.reg Reg.tpr + 1)
      let n := u.reg Reg.torl + BitVec.ofNat 32 (size + 4)
      if n < u.reg Reg.torl then
        (u.setReg Reg.torh (u.reg Reg.torh + 1)).setReg Reg.torl n
      else u.setReg Reg.torl n) := by
    intro u
    simp only [E1000.countReceived, World.reg, World.setReg]
    split_ifs with hcarry
    · exact (if_pos hcarry).symm
    · exact (if_neg hcarry).symm
  rw [hsteps, hsteps]
  dsimp only
  rw [hg.bump (by decide) (· + 1), hg.bump (by decide) (· + 1), hg.reg (i := Reg.torl) (by decide)]
  split_ifs
  · rw [hg.bump (by decide) (· + 1), hg.worldSetReg _ (by decide)]
  · rw [hg.worldSetReg _ (by decide)]

theorem rxDescMinimum (hg : Disguise g) (s : E1000State) :
    E1000.rxDescMinimum (g s) = E1000.rxDescMinimum s := by
  simp only [E1000.rxDescMinimum, hg.rxbufMinShift, hg.macReg s Reg.rdh (by decide),
    hg.macReg s Reg.rdt (by decide), hg.macReg s Reg.rdlen (by decide)]

theorem receiveDone (hg : Disguise g) (size : Nat) :
    E1000.receiveDone (w.over g) size = (E1000.receiveDone w size).over g := by
  have hcount := hg.countReceived (w := w) size
  have hmin : E1000.rxDescMinimum (E1000.countReceived (w.over g).dev size) =
      E1000.rxDescMinimum (E1000.countReceived w.dev size) :=
    (congrArg (fun u : World => E1000.rxDescMinimum u.dev) hcount).trans (hg.rxDescMinimum _)
  simp only [E1000.receiveDone, hcount, hmin]
  exact hg.setIcs _

def ReceivedOver (g : E1000State → E1000State) (r r' : Received) : Prop :=
  r' = { r with world := r.world.over g }

theorem storePacket (hg : Disguise g) (fuel : Nat) (p : RxPacket) :
    Run.Rel (ReceivedOver g) (E1000.storePacket fuel w p)
      (E1000.storePacket fuel (w.over g) p) := by
  have hfcs : E1000.fcsLen (w.over g).dev = E1000.fcsLen w.dev := hg.fcsLen w.dev
  have hroom : ∀ n, E1000.e1000HasRxbufs (w.over g).dev n = E1000.e1000HasRxbufs w.dev n :=
    hg.e1000HasRxbufs w.dev
  simp only [E1000.storePacket, hfcs, hroom, hg.reg (i := Reg.rdh) (by decide)]
  split_ifs
  · refine Run.Rel.bind (loop_rel (fun st st' hst => hg.rxBody _ hst) fuel rfl) ?_
    rintro ⟨wrapped, v⟩ ⟨wrapped', v'⟩ heq
    cases heq
    dsimp only
    split_ifs
    · exact .ok (by rw [hg.setIcs]; rfl)
    · exact .ok (by rw [hg.receiveDone]; rfl)
  · exact .ok (by rw [hg.setIcs]; rfl)

theorem e1000ReceiveIov (hg : Disguise g) (fuel : Nat) (iov : Iov) :
    Run.Rel (ReceivedOver g) (E1000.e1000ReceiveIov fuel w iov)
      (E1000.e1000ReceiveIov fuel (w.over g) iov) := by
  have hover : ∀ n, E1000.oversized (w.over g).dev n = E1000.oversized w.dev n :=
    hg.oversized w.dev
  have hfilter : ∀ buf, E1000.receiveFilter (w.over g).dev buf = E1000.receiveFilter w.dev buf :=
    hg.receiveFilter w.dev
  have hstrip : ∀ hd, E1000.stripVlan (w.over g).dev iov hd = E1000.stripVlan w.dev iov hd :=
    hg.stripVlan w.dev iov
  simp only [E1000.e1000ReceiveIov, hg.reg (i := Reg.status) (by decide),
    hg.reg (i := Reg.rctl) (by decide), hover, hfilter, hstrip]
  split_ifs
  · exact .fault
  · exact .ok rfl
  · exact .ok rfl
  · cases receiveHeader iov with
    | fault => exact .fault
    | timeout => exact .timeout
    | ok hd =>
        simp only [Run.ok_bind]
        split_ifs
        · exact .ok rfl
        · exact .ok rfl
        · cases E1000.stripVlan w.dev iov hd with
          | fault => exact .fault
          | timeout => exact .timeout
          | ok p => exact hg.storePacket fuel p

/-! ## Sending -/

theorem qemuSendPacket (hg : Disguise g) (frame : List U8) :
    E1000.qemuSendPacket (w.over g) frame = (E1000.qemuSendPacket w frame).over g := by
  have hlink : (w.over g).dev.linkDown = w.dev.linkDown := hg.linkDown w.dev
  rw [E1000.qemuSendPacket, hlink]
  rfl

theorem e1000SendPacket (hg : Disguise g) (fuel : Nat) (frame : List U8) :
    Run.Rel (fun r r' => r' = (r.1.over g, r.2)) (E1000.e1000SendPacket fuel w frame)
      (E1000.e1000SendPacket fuel (w.over g) frame) := by
  have hphy : (w.over g).dev.phyReg Phy.ctrl = w.dev.phyReg Phy.ctrl := hg.phyCtrl w.dev
  simp only [E1000.e1000SendPacket, hphy, hg.qemuSendPacket]
  split_ifs
  · refine (hg.e1000ReceiveIov fuel [frame]).bind ?_
    rintro r r' rfl
    exact .ok rfl
  · exact .ok rfl

theorem countFrame (hg : Disguise g) (hsize : (g w.dev).tx.size = w.dev.tx.size) :
    E1000.countFrame (w.over g) = (E1000.countFrame w).over g := by
  have hcounted : ((w.setReg Reg.tpt (w.reg Reg.tpt + 1)).setReg Reg.gptc
      ((w.setReg Reg.tpt (w.reg Reg.tpt + 1)).reg Reg.gptc + 1)).dev.tx.size =
        w.dev.tx.size := rfl
  have hover : (((w.setReg Reg.tpt (w.reg Reg.tpt + 1)).setReg Reg.gptc
      ((w.setReg Reg.tpt (w.reg Reg.tpt + 1)).reg Reg.gptc + 1)).over g).dev.tx.size =
        w.dev.tx.size := by
    rw [← hg.bump (by decide) (· + 1), ← hg.bump (by decide) (· + 1)]
    exact hsize
  simp only [E1000.countFrame]
  rw [hg.bump (by decide) (· + 1), hg.bump (by decide) (· + 1), hover, hcounted,
    hg.bump (by decide) (· + w.dev.tx.size.setWidth 32), hg.reg (by decide), hg.reg (by decide)]
  split_ifs
  · exact hg.bump (by decide) (· + 1)
  · rfl

end Disguise

end SE4VM.E1000
