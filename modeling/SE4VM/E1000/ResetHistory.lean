import SE4VM.E1000.ResetTwins

/-!
# What a reset remembers

`e1000_reset` writes the register arrays, `tx` and the timers, each on its own.
The EEPROM transaction and the receive buffer size are not on its list.
-/

namespace SE4VM.E1000

open SE4VM.Foundation

/-! ## Two histories of one device -/

structure SameConfig (s s' : E1000State) : Prop where
  macaddr : s'.macaddr = s.macaddr
  compatFlags : s'.compatFlags = s.compatFlags
  eepromData : s'.eepromData = s.eepromData
  linkDown : s'.linkDown = s.linkDown

def history (r : World × List Reply) : List Event × List Reply := (r.1.log, r.2)

/-- No accesses and no frames, whatever their number, tell the two devices apart. -/
def SameFuture (s s' : E1000State) : Prop :=
  ∀ fuel mem ops, (∀ op ∈ ops, Op.guest op = true) →
    history <$> runOps fuel ⟨s', mem, []⟩ ops = history <$> runOps fuel ⟨s, mem, []⟩ ops

theorem Twin.sameFuture {s s' : E1000State} (h : ∀ mem, Twin ⟨s, mem, []⟩ ⟨s', mem, []⟩) :
    SameFuture s s' := by
  intro fuel mem ops _
  have hrel := runOps_twin (h mem) fuel ops
  generalize runOps fuel ⟨s, mem, []⟩ ops = x at hrel
  generalize runOps fuel ⟨s', mem, []⟩ ops = y at hrel
  cases hrel with
  | ok hab => rw [Run.map_ok, Run.map_ok, history, history, hab.1.log, hab.2]
  | fault => rfl
  | timeout => rfl

/-! ## What a device can have kept -/

theorem eepromInit_word (macaddr : Buffer) {i : Nat} (hmac : ¬ i < 3)
    (hsum : i ≠ eepromChecksumReg) : eepromInit macaddr i = eepromTemplate.getD i 0 := by
  rw [eepromInit, Function.update_of_ne hsum, eepromWords, if_neg hmac]

theorem eepromInit_halvesDiffer (macaddr : Buffer) : HalvesDiffer (eepromInit macaddr) := by
  refine ⟨?_, ?_⟩
  · rw [dataBit, eepromInit_word macaddr (by decide) (by decide)]
    decide
  · rw [dataBit, eepromInit_word macaddr (by decide) (by decide)]
    decide

/-- A reachable device is its own twin. -/
theorem Reachable.twin {w : World} (h : Reachable w) : Twin w w := by
  refine Reachable.invariant (fun w => Twin w w) ?_ ?_ h
  · intro macaddr flags down mem
    have hlines : (0#32 : U32) &&& eecdMask = 0#32 := rfl
    exact e1000Reset_twin ⟨rfl, ⟨rfl, eepromInit_halvesDiffer macaddr, hlines, .refl _ _ _, .rfl⟩,
      fun _ => rfl⟩
  · intro fuel w op w' reply hw hs
    -- A twin of itself before the step is one after it.
    have hrel := step_twin hw fuel op
    rw [hs] at hrel
    cases hrel with
    | ok hab => exact hab.1

/-! ## A reset device -/

def resetDev (macaddr : Buffer) (linkDown : Bool) (flags : U32) (k : Kept) : E1000State :=
  (e1000Reset ⟨(pciE1000Init macaddr flags linkDown).keep k, Memory.blank, []⟩).dev

theorem e1000Reset_dev (w : World) :
    (e1000Reset w).dev = resetDev w.dev.macaddr w.dev.linkDown w.dev.compatFlags w.dev.kept := rfl

theorem resetDev_keep (macaddr : Buffer) (linkDown : Bool) (flags : U32) (k k' : Kept) :
    resetDev macaddr linkDown flags k' = (resetDev macaddr linkDown flags k).keep k' := by
  cases linkDown <;> rfl

theorem resetDev_kept (macaddr : Buffer) (linkDown : Bool) (flags : U32) (k : Kept) :
    (resetDev macaddr linkDown flags k).kept = k := by
  cases linkDown <;> rfl

theorem e1000Reset_kept (w : World) : (e1000Reset w).dev.kept = w.dev.kept := by
  rw [e1000Reset_dev, resetDev_kept]

theorem e1000Reset_twins {w w' : World} (hw : Reachable w) (h : SameConfig w.dev w'.dev)
    (heecd : SameTransaction w.dev.eepromData w.dev.eecdState w'.dev.eecdState)
    (hsize : w'.dev.rxbufSize = 0#32 ↔ w.dev.rxbufSize = 0#32) (mem : Memory) :
    Twin ⟨(e1000Reset w).dev, mem, []⟩ ⟨(e1000Reset w').dev, mem, []⟩ := by
  have hself := hw.twin.like
  refine ⟨?_, ?_, fun hen => ?_⟩
  · refine congrArg (World.mk · mem []) ?_
    dsimp only
    rw [e1000Reset_kept, e1000Reset_dev, e1000Reset_dev, h.macaddr, h.linkDown, h.compatFlags]
    exact resetDev_keep _ _ _ _ _
  · dsimp only
    rw [e1000Reset_kept, e1000Reset_kept]
    exact ⟨h.eepromData, hself.factory, hself.masked, hself.factory.sameBehaviour_iff.mpr heecd,
      hsize⟩
  · have hclosed : (e1000Reset w).dev.macReg Reg.rctl = macRegInit Reg.rctl :=
      e1000Reset_macReg w (by decide) (by decide) (by decide)
    rw [World.reg, hclosed] at hen
    exact absurd hen (by decide)

/-! ## Telling two reset devices apart -/

def driveEecd (vals : List U32) : List Op :=
  vals.map (fun v => .mmioWrite 0x10#64 (v.setWidth 64)) ++ [.mmioRead 0x10#64]

theorem driveEecd_guest (vals : List U32) : ∀ op ∈ driveEecd vals, Op.guest op = true := by
  intro op hop
  rcases List.mem_append.mp hop with hwrite | hread
  · obtain ⟨v, -, rfl⟩ := List.mem_map.mp hwrite
    rfl
  · rw [List.mem_singleton.mp hread]
    rfl

theorem runOps_driveEecd (fuel : Nat) (w : World) (vals : List U32) :
    runOps fuel w (driveEecd vals) =
      .ok ({ w with dev := vals.foldl setEecd w.dev },
        vals.map (fun _ => Reply.none) ++ [.value (getEecd (vals.foldl setEecd w.dev))]) := by
  induction vals generalizing w with
  | nil => rfl
  | cons v vals ih =>
      have hwidth : (v.setWidth 64).setWidth 32 = v := by simp
      have hstep : step fuel w (.mmioWrite 0x10#64 (v.setWidth 64)) =
          .ok ({ w with dev := setEecd w.dev v }, .none) := by
        rw [step, e1000MmioWrite, show macregWriteops (mmioIndex 0x10#64) = some .setEecd from rfl,
          hwidth]
        rfl
      have hrest := ih { w with dev := setEecd w.dev v }
      rw [driveEecd] at hrest
      rw [driveEecd, List.map_cons, List.cons_append, runOps, hstep, Run.ok_bind]
      dsimp only
      rw [hrest, Run.ok_bind]
      rfl

theorem SameFuture.getEecd_eq {s s' : E1000State} (h : SameFuture s s') (vals : List U32) :
    getEecd (vals.foldl setEecd s') = getEecd (vals.foldl setEecd s) := by
  have hrun := h 0 Memory.blank (driveEecd vals) (driveEecd_guest vals)
  rw [runOps_driveEecd, runOps_driveEecd, Run.map_ok, Run.map_ok] at hrun
  have hreplies := (Prod.mk.inj (Run.ok.inj hrun)).2
  exact Reply.value.inj (List.singleton_inj.mp (List.append_cancel_left hreplies))

theorem history_setRdt (s : E1000State) (h : s.macReg Reg.rdh = 0#32) :
    history <$> runOps 0 ⟨s, Memory.blank, []⟩ [.mmioWrite 0x2818#64 1#64] =
      .ok (if s.rxbufSize != 0#32 then [.flushQueuedPackets] else [], [.none]) := by
  -- The tail leaves the head, which a reset has put to 0.
  let u : World := World.setReg ⟨s, Memory.blank, []⟩ Reg.rdt 1#32
  have hhead : u.dev.macReg Reg.rdh = 0#32 := h
  have htail : u.dev.macReg Reg.rdt = 1#32 := rfl
  have hroom : e1000HasRxbufs u.dev 1 = (s.rxbufSize != 0#32) := by
    rw [e1000HasRxbufs_one, hhead, htail]
    exact Bool.and_true _
  have hrun : runOps 0 ⟨s, Memory.blank, []⟩ [.mmioWrite 0x2818#64 1#64] =
      .ok (if e1000HasRxbufs u.dev 1 then u.emit .flushQueuedPackets else u, [.none]) := rfl
  rw [hrun, hroom, Run.map_ok]
  cases s.rxbufSize != 0#32 <;> rfl

theorem SameFuture.rxbufSize {s s' : E1000State} (h : SameFuture s s')
    (hrdh : s.macReg Reg.rdh = 0#32) (hrdh' : s'.macReg Reg.rdh = 0#32) :
    s'.rxbufSize = 0#32 ↔ s.rxbufSize = 0#32 := by
  have hrun := h 0 Memory.blank [.mmioWrite 0x2818#64 1#64] (by decide)
  rw [history_setRdt s hrdh, history_setRdt s' hrdh'] at hrun
  have hlogs := (Prod.mk.inj (Run.ok.inj hrun)).1
  by_cases hzero : s.rxbufSize = 0#32 <;> by_cases hzero' : s'.rxbufSize = 0#32 <;>
    simp [hzero, hzero'] at hlogs ⊢

theorem SameFuture.sameBehaviour {s s' : E1000State} (h : SameFuture s s')
    (hdata : s'.eepromData = s.eepromData) (hmask : s.eecdState.Masked)
    (hmask' : s'.eecdState.Masked) :
    SameBehaviour clockEecd (eecdView s.eepromData) s.eecdState s'.eecdState := by
  intro vals
  have hmasked : ∀ e : EecdState, e.Masked → (vals.foldl clockEecd e).Masked := by
    intro e he
    induction vals generalizing e with
    | nil => exact he
    | cons v vals ih => exact ih _ (clockEecd_masked e v)
  have heq := h.getEecd_eq vals
  rw [foldl_setEecd, foldl_setEecd, getEecd_eq_iff (hmasked _ hmask) (hmasked _ hmask')] at heq
  dsimp only at heq
  rw [hdata] at heq
  exact heq.symm

/-! ## The leftovers -/

/--
A reset makes two histories of one device alike for every later access and frame
exactly when their EEPROM transactions share what `EECD` can still show and either
both or none had a receive buffer size.
-/
theorem e1000Reset_forgets_iff {w w' : World} (hw : Reachable w) (hw' : Reachable w')
    (h : SameConfig w.dev w'.dev) :
    SameFuture (e1000Reset w).dev (e1000Reset w').dev ↔
      SameTransaction w.dev.eepromData w.dev.eecdState w'.dev.eecdState ∧
        (w'.dev.rxbufSize = 0#32 ↔ w.dev.rxbufSize = 0#32) := by
  constructor
  · intro hfuture
    have hrdh : ∀ v : World, (e1000Reset v).dev.macReg Reg.rdh = 0#32 := fun v =>
      e1000Reset_macReg v (by decide) (by decide) (by decide)
    have hdata : ∀ v : World, (e1000Reset v).dev.eepromData = v.dev.eepromData := fun v =>
      congrArg Kept.eepromData (e1000Reset_kept v)
    have heecd : ∀ v : World, (e1000Reset v).dev.eecdState = v.dev.eecdState := fun v =>
      congrArg Kept.eecdState (e1000Reset_kept v)
    have hsame := hfuture.sameBehaviour (by rw [hdata, hdata, h.eepromData])
      (by rw [heecd]; exact hw.twin.like.masked) (by rw [heecd]; exact hw'.twin.like.masked)
    have hsize := hfuture.rxbufSize (hrdh w) (hrdh w')
    rw [hdata, heecd, heecd] at hsame
    rw [e1000Reset_rxbufSize, e1000Reset_rxbufSize] at hsize
    exact ⟨hw.twin.like.factory.sameBehaviour_iff.mp hsame, hsize⟩
  · rintro ⟨heecd, hsize⟩
    exact Twin.sameFuture (e1000Reset_twins hw h heecd hsize)

def freshDevice : World := powerOn (fun _ => 0) 0 false Memory.blank

def sizedBuffers : World := setRxControl freshDevice 0

/-- Another size, and a command that the guest gave up after its first bit. -/
def givenUp : World :=
  { setRxControl freshDevice 0x30000 with
    dev := [0x2, 0x7, 0].foldl setEecd (setRxControl freshDevice 0x30000).dev }

theorem e1000Reset_forgets_givenUp :
    (sizedBuffers.dev.rxbufSize = 2048#32 ∧ givenUp.dev.rxbufSize = 256#32 ∧
      sizedBuffers.dev.eecdState.valIn = 0#32 ∧ givenUp.dev.eecdState.valIn = 1#32) ∧
    SameFuture (e1000Reset sizedBuffers).dev (e1000Reset givenUp).dev := by
  have hfresh : Reachable freshDevice := .powerOn _ _ _ _
  have hsized : Reachable sizedBuffers := hfresh.mmioWrite 0x100#64 .setRxControl 0 rfl fun _ => rfl
  have hgiven : Reachable givenUp :=
    (((hfresh.mmioWrite 0x100#64 .setRxControl 0x30000 rfl fun _ => rfl).mmioWrite 0x10#64 .setEecd
      0x2 rfl fun _ => rfl).mmioWrite 0x10#64 .setEecd 0x7 rfl fun _ => rfl).mmioWrite 0x10#64
        .setEecd 0 rfl fun _ => rfl
  refine ⟨by decide, (e1000Reset_forgets_iff hsized hgiven ⟨rfl, rfl, rfl, rfl⟩).mpr ⟨?_, ?_⟩⟩
  · exact ⟨by decide, fun _ => rfl, fun hcs => absurd hcs (by decide)⟩
  · decide

def selectedEeprom : World := { freshDevice with dev := setEecd freshDevice.dev 0x43 }

/--
After a reset the guest still reads the old chip select, clock and request bits in
`EECD`, and a write to `RDT` flushes the queue of a device that had a buffer size.
-/
theorem e1000Reset_remembers :
    (Reachable freshDevice ∧ Reachable selectedEeprom ∧ Reachable sizedBuffers) ∧
    (SameConfig freshDevice.dev selectedEeprom.dev ∧
      (e1000MmioRead (e1000Reset freshDevice) 0x10).2 = 0x188 ∧
      (e1000MmioRead (e1000Reset selectedEeprom) 0x10).2 = 0x1cb) ∧
    (SameConfig freshDevice.dev sizedBuffers.dev ∧
      (setRdt (e1000Reset freshDevice) Reg.rdt 1).log = (e1000Reset freshDevice).log ∧
      (setRdt (e1000Reset sizedBuffers) Reg.rdt 1).log =
        .flushQueuedPackets :: (e1000Reset sizedBuffers).log) := by
  have hfresh : Reachable freshDevice := .powerOn _ _ _ _
  refine ⟨⟨hfresh, ?_, ?_⟩, ⟨⟨rfl, rfl, rfl, rfl⟩, by decide, by decide⟩,
    ⟨rfl, rfl, rfl, rfl⟩, ?_, ?_⟩
  · exact hfresh.mmioWrite 0x10#64 .setEecd 0x43 rfl fun _ => rfl
  · exact hfresh.mmioWrite 0x100#64 .setRxControl 0 rfl fun _ => rfl
  · decide
  · decide

end SE4VM.E1000
