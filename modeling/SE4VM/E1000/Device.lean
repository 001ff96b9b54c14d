import SE4VM.E1000.Transmit

/-!
# The register interface and the device as a transition system

`e1000MmioRead` and `e1000MmioWrite` dispatch through the handler tables.  `step`
is one event at the device's boundary, `Reachable` the states of a powered-on
device after any number of them.
-/

namespace SE4VM.E1000

open SE4VM.Foundation

/-! ## Reset -/

def phyRegInit : Nat → U16
  | 0x00 => 0x1140
  | 0x01 => 0x794d
  | 0x02 => 0x0141
  | 0x03 => 0x0c20
  | 0x04 => 0x0de1
  | 0x05 => 0x01e0
  | 0x09 => 0x0e00
  | 0x0A => 0x3c00
  | 0x10 => 0x0360
  | 0x11 => 0xac00
  | 0x14 => 0x0d60
  | _ => 0

def macRegInit (i : Nat) : U32 :=
  if i = Reg.pba then 0x00100030
  else if i = Reg.ledctl then 0x602
  else if i = Reg.ctrl then ctrlSwdpin2 ||| ctrlSwdpin0 ||| ctrlSpd1000 ||| ctrlSlu
  else if i = Reg.status then
    0x80000000#32 ||| statusGioMasterEnable ||| statusAsdv ||| statusMtxckok |||
      statusSpeed1000 ||| statusFd ||| statusLu
  else if i = Reg.manc then
    mancEnMng2host ||| mancRcvTcoEn ||| mancArpEn ||| manc0298En ||| mancRmcpEn
  else 0

def E1000Tx.zero : E1000Tx where
  header := fun _ => 0
  vlanHeader := fun _ => 0
  vlan := fun _ => 0
  data := fun _ => 0
  size := 0
  sumNeeded := 0
  vlanNeeded := false
  ipcss := 0
  ipcso := 0
  ipcse := 0
  tucss := 0
  tucso := 0
  tucse := 0
  hdrLen := 0
  mss := 0
  paylen := 0
  tsoFrames := 0
  tse := false
  ip := false
  tcp := false
  cptse := false

def macaddrRegs (macaddr : Buffer) : U32 × U32 :=
  (BitVec.ofNat 32 (ofLe (macaddr.slice 0 4)),
    rahAv ||| BitVec.ofNat 32 (ofLe (macaddr.slice 4 2)))

def e1000Reset (w : World) : World :=
  let d := { w.dev with
    autonegTimer := false
    mitTimerOn := false
    mitIrqLevel := false
    mitIde := 0
    phyReg := phyRegInit
    macReg := macRegInit
    rxbufMinShift := 1
    tx := E1000Tx.zero }
  let d := if d.linkDown then e1000LinkDown d else d
  let (ral, rah) := macaddrRegs d.macaddr
  let w := { w with dev := d }
  ((w.setReg Reg.ra ral).setReg (Reg.ra + 1) rah).emit
    (.formatNicInfoStr (d.macaddr.slice 0 6))

def eepromTemplate : List U16 :=
  [0x0000, 0x0000, 0x0000, 0x0000, 0xffff, 0x0000, 0x0000, 0x0000,
   0x3000, 0x1000, 0x6403, 0x100e, 0x8086, 0x100e, 0x8086, 0x3040,
   0x0008, 0x2000, 0x7e14, 0x0048, 0x1000, 0x00d8, 0x0000, 0x2700,
   0x6cc9, 0x3150, 0x0722, 0x040b, 0x0984, 0x0000, 0xc000, 0x0706,
   0x1008, 0x0000, 0x0f04, 0x7fff, 0x4d01, 0xffff, 0xffff, 0xffff,
   0xffff, 0xffff, 0xffff, 0xffff, 0xffff, 0xffff, 0xffff, 0xffff,
   0x0100, 0x4000, 0x121c, 0xffff, 0xffff, 0xffff, 0xffff, 0xffff,
   0xffff, 0xffff, 0xffff, 0xffff, 0xffff, 0xffff, 0xffff, 0x0000]

def eepromWords (macaddr : Buffer) (i : Nat) : U16 :=
  if i < 3 then macaddr (2 * i + 1) ++ macaddr (2 * i) else eepromTemplate.getD i 0

def eepromInit (macaddr : Buffer) : Nat → U16 :=
  let checksum := (List.range eepromChecksumReg).foldl
    (fun sum i => sum + eepromWords macaddr i) 0#16
  Function.update (eepromWords macaddr) eepromChecksumReg (0xbaba#16 - checksum)

/-- The zero-allocated device after `pci_e1000_init`, before its first reset. -/
def pciE1000Init (macaddr : Buffer) (compatFlags : U32) (linkDown : Bool) :
    E1000State where
  macaddr := macaddr
  linkDown := linkDown
  macReg := fun _ => 0
  phyReg := fun _ => 0
  eepromData := eepromInit macaddr
  rxbufSize := 0
  rxbufMinShift := 0
  tx := E1000Tx.zero
  eecdState := ⟨0, 0, 0, false, 0⟩
  autonegTimer := false
  mitTimerOn := false
  mitIrqLevel := false
  mitIde := 0
  compatFlags := compatFlags

/-! ## PHY and link -/

def setPhyCtrl (w : World) (val : U16) : World :=
  if test w.dev.compatFlags e1000FlagAutoneg &&
      test val miiCrAutoNegEn && test val miiCrRestartAutoNeg then
    let d := e1000LinkDown w.dev
    World.emit { w with dev := { d with
      phyReg := Function.update d.phyReg Phy.status
        (d.phyReg Phy.status &&& ~~~miiSrAutonegComplete)
      autonegTimer := true } } .armAutonegTimer
  else w

def e1000AutonegTimer (w : World) : World :=
  let d := { w.dev with autonegTimer := false }
  let d := if d.linkDown then d else e1000LinkUp d
  { w with dev := { d with
    phyReg := Function.update d.phyReg Phy.status
      (d.phyReg Phy.status ||| miiSrAutonegComplete) } }

/-- The backend changes `link_down` and calls `e1000_set_link_status`. -/
def e1000SetLinkStatus (w : World) (down : Bool) : World :=
  let oldStatus := w.reg Reg.status
  let d := { w.dev with linkDown := down }
  let w := { w with dev := if down then e1000LinkDown d else e1000LinkUp d }
  if w.reg Reg.status ≠ oldStatus then setIcs w icrLsc else w

inductive PhyCap where
  | none
  | read
  | readWrite
  deriving DecidableEq, Repr

def phyRegcap (addr : Nat) : PhyCap :=
  if addr ∈ [Phy.status, Phy.id1, Phy.lpAbility, Phy.t1000Status, Phy.m88RxErrCntr,
      Phy.id2, Phy.m88SpecStatus] then .read
  else if addr ∈ [Phy.m88ExtSpecCtrl, Phy.m88SpecCtrl, Phy.ctrl, Phy.t1000Ctrl,
      Phy.autonegAdv] then .readWrite
  else .none

/-- The management command in `val`: the value `MDIC` gets and the PHY after it. -/
def mdicCommand (w : World) (val : U32) : U32 × World :=
  let data := val &&& mdicDataMask
  let addr := ((val &&& mdicRegMask) >>> mdicRegShift).toNat
  if (val &&& mdicPhyMask) >>> mdicPhyShift ≠ 1#32 then
    (w.reg Reg.mdic ||| mdicError, w)
  else if test val mdicOpRead then
    if phyRegcap addr = .none then (val ||| mdicError, w)
    else ((val ^^^ data) ||| (w.dev.phyReg addr).setWidth 32, w)
  else if test val mdicOpWrite then
    if phyRegcap addr = .readWrite then
      let w := if addr = Phy.ctrl then setPhyCtrl w (data.setWidth 16) else w
      (val, { w with dev := { w.dev with
        phyReg := Function.update w.dev.phyReg addr (data.setWidth 16) } })
    else (val ||| mdicError, w)
  else (val, w)

def setMdic (w : World) (val : U32) : World :=
  let (val, w) := mdicCommand w val
  let w := w.setReg Reg.mdic (val ||| mdicReady)
  if test val mdicIntEn then setIcs w icrMdac else w

/-! ## EEPROM -/

def getEecd (s : E1000State) : U32 :=
  let e := s.eecdState
  let ret := eecdPres ||| eecdGnt ||| e.oldEecd
  let word := s.eepromData ((e.bitnumOut >>> 4) &&& 0x3f#16).toNat
  if !e.reading || test (word >>> ((e.bitnumOut &&& 0xf#16) ^^^ 0xf#16).toNat) 1#16 then
    ret ||| eecdDo
  else ret

def clockEecd (e : EecdState) (val : U32) : EecdState :=
  let oldval := e.oldEecd
  let e : EecdState := { e with
    oldEecd := val &&& (eecdSk ||| eecdCs ||| eecdDi ||| eecdFweMask ||| eecdReq) }
  if !test val eecdCs then e
  else
    let e : EecdState :=
      if test (val ^^^ oldval) eecdCs then ⟨0, 0, 0, false, e.oldEecd⟩ else e
    if !test (val ^^^ oldval) eecdSk then e
    else if !test val eecdSk then { e with bitnumOut := e.bitnumOut + 1 }
    else
      let valIn := e.valIn <<< 1
      let valIn := if test val eecdDi then valIn ||| 1#32 else valIn
      let e : EecdState := { e with valIn := valIn, bitnumIn := e.bitnumIn + 1 }
      if e.bitnumIn = 9#16 ∧ e.reading = false then
        { e with
          bitnumOut := (((valIn &&& 0x3f#32) <<< 4) - 1#32).setWidth 16
          reading := ((valIn >>> 6) &&& 7#32) == eepromReadOpcodeMicrowire }
      else e

def setEecd (s : E1000State) (val : U32) : E1000State :=
  { s with eecdState := clockEecd s.eecdState val }

def flashEerdRead (s : E1000State) : U32 :=
  let eerd := s.macReg Reg.eerd
  let r := eerd &&& ~~~eepromRwRegStart
  let index := (r >>> eepromRwAddrShift).toNat
  if !test eerd eepromRwRegStart then eerd
  else if index > eepromChecksumReg then eepromRwRegDone ||| r
  else ((s.eepromData index).setWidth 32 <<< eepromRwRegData) ||| eepromRwRegDone ||| r

/-! ## Register handlers -/

def macWritereg (w : World) (index : Nat) (val : U32) : World :=
  let w := w.setReg index val
  if index = Reg.ra + 1 then
    w.emit (.formatNicInfoStr (raBytes (w.reg Reg.ra) (w.reg (Reg.ra + 1))))
  else w

def setCtrl (w : World) (val : U32) : World := w.setReg Reg.ctrl (val &&& ~~~ctrlRst)

def setRxControl (w : World) (val : U32) : World :=
  let w := w.setReg Reg.rctl val
  World.emit { w with dev := { w.dev with
    rxbufSize := BitVec.ofNat 32 (rxbufsize val)
    rxbufMinShift := ((val / rctlRdmtsQuat) &&& 3#32) + 1 } } .flushQueuedPackets

def setRdt (w : World) (index : Nat) (val : U32) : World :=
  let w := w.setReg index (val &&& 0xffff#32)
  if e1000HasRxbufs w.dev 1 then w.emit .flushQueuedPackets else w

def set16bit (w : World) (index : Nat) (val : U32) : World :=
  w.setReg index (val &&& 0xffff#32)

def setDlen (w : World) (index : Nat) (val : U32) : World :=
  w.setReg index (val &&& 0xfff80#32)

def setTctl (fuel : Nat) (w : World) (index : Nat) (val : U32) : Run World :=
  let w := w.setReg index val
  let w := w.setReg Reg.tdt (w.reg Reg.tdt &&& 0xffff#32)
  startXmit fuel w

def setIcr (w : World) (val : U32) : World :=
  setInterruptCause w (w.reg Reg.icr &&& ~~~val)

def setImc (w : World) (val : U32) : World :=
  setIcs (w.setReg Reg.ims (w.reg Reg.ims &&& ~~~val)) 0

def setIms (w : World) (val : U32) : World :=
  setIcs (w.setReg Reg.ims (w.reg Reg.ims ||| val)) 0

/-! ## Handler tables -/

inductive ReadOp where
  | macReadreg
  | macReadClr4
  | macReadClr8
  | macIcrRead
  | getEecd
  | flashEerdRead
  deriving DecidableEq, Repr

def inAddressTables (i : Nat) : Bool :=
  (Reg.ra ≤ i && i ≤ Reg.ra + 31) || (Reg.mta ≤ i && i ≤ Reg.mta + 127) ||
    (Reg.vfta ≤ i && i ≤ Reg.vfta + 127)

def macregReadops (i : Nat) : Option ReadOp :=
  if i ∈ [Reg.pba, Reg.rctl, Reg.tdh, Reg.txdctl, Reg.wufc, Reg.tdt, Reg.ctrl,
      Reg.ledctl, Reg.manc, Reg.mdic, Reg.swsm, Reg.status, Reg.torl, Reg.totl,
      Reg.ims, Reg.tctl, Reg.rdh, Reg.rdt, Reg.vet, Reg.ics, Reg.tdbal, Reg.tdbah,
      Reg.rdbah, Reg.rdbal, Reg.tdlen, Reg.rdlen, Reg.rdtr, Reg.radv, Reg.tadv,
      Reg.itr] then some .macReadreg
  else if i = Reg.toth ∨ i = Reg.torh then some .macReadClr8
  else if i ∈ [Reg.gprc, Reg.gptc, Reg.tpr, Reg.tpt] then some .macReadClr4
  else if i = Reg.icr then some .macIcrRead
  else if i = Reg.eecd then some .getEecd
  else if i = Reg.eerd then some .flashEerdRead
  else if Reg.crcerrs ≤ i ∧ i ≤ Reg.mpc then some .macReadreg
  else if inAddressTables i then some .macReadreg
  else none

inductive WriteOp where
  | macWritereg
  | setDlen
  | setTctl
  | setMdic
  | setIcs
  | set16bit
  | setRdt
  | setImc
  | setIms
  | setIcr
  | setEecd
  | setRxControl
  | setCtrl
  deriving DecidableEq, Repr

def macregWriteops (i : Nat) : Option WriteOp :=
  if i ∈ [Reg.pba, Reg.eerd, Reg.swsm, Reg.wufc, Reg.tdbal, Reg.tdbah, Reg.txdctl,
      Reg.rdbah, Reg.rdbal, Reg.ledctl, Reg.vet] then some .macWritereg
  else if i = Reg.tdlen ∨ i = Reg.rdlen then some .setDlen
  else if i = Reg.tctl ∨ i = Reg.tdt then some .setTctl
  else if i = Reg.mdic then some .setMdic
  else if i = Reg.ics then some .setIcs
  else if i ∈ [Reg.tdh, Reg.rdh, Reg.rdtr, Reg.radv, Reg.tadv, Reg.itr] then
    some .set16bit
  else if i = Reg.rdt then some .setRdt
  else if i = Reg.imc then some .setImc
  else if i = Reg.ims then some .setIms
  else if i = Reg.icr then some .setIcr
  else if i = Reg.eecd then some .setEecd
  else if i = Reg.rctl then some .setRxControl
  else if i = Reg.ctrl then some .setCtrl
  else if inAddressTables i then some .macWritereg
  else none

def runReadOp (op : ReadOp) (w : World) (index : Nat) : World × U32 :=
  match op with
  | .macReadreg => (w, w.reg index)
  | .macReadClr4 => (w.setReg index 0, w.reg index)
  | .macReadClr8 => ((w.setReg index 0).setReg (index - 1) 0, w.reg index)
  | .macIcrRead => (setInterruptCause w 0, w.reg Reg.icr)
  | .getEecd => (w, getEecd w.dev)
  | .flashEerdRead => (w, flashEerdRead w.dev)

def runWriteOp (fuel : Nat) (op : WriteOp) (w : World) (index : Nat) (val : U32) :
    Run World :=
  match op with
  | .macWritereg => .ok (macWritereg w index val)
  | .setDlen => .ok (setDlen w index val)
  | .setTctl => setTctl fuel w index val
  | .setMdic => .ok (setMdic w val)
  | .setIcs => .ok (setIcs w val)
  | .set16bit => .ok (set16bit w index val)
  | .setRdt => .ok (setRdt w index val)
  | .setImc => .ok (setImc w val)
  | .setIms => .ok (setIms w val)
  | .setIcr => .ok (setIcr w val)
  | .setEecd => .ok { w with dev := setEecd w.dev val }
  | .setRxControl => .ok (setRxControl w val)
  | .setCtrl => .ok (setCtrl w val)

theorem mem_of_macReadClr4 {i : Nat} (h : macregReadops i = some .macReadClr4) :
    i ∈ [Reg.gprc, Reg.gptc, Reg.tpr, Reg.tpt] := by
  simp only [macregReadops, ite_eq_iff, Option.some.injEq, reduceCtorEq, and_false, false_or,
    or_false, and_true] at h
  exact h.2.2

theorem eq_of_macReadClr8 {i : Nat} (h : macregReadops i = some .macReadClr8) :
    i = Reg.toth ∨ i = Reg.torh := by
  simp only [macregReadops, ite_eq_iff, Option.some.injEq, reduceCtorEq, and_false, false_or,
    or_false, and_true] at h
  exact h.2

theorem eq_of_macIcrRead {i : Nat} (h : macregReadops i = some .macIcrRead) : i = Reg.icr := by
  simp only [macregReadops, ite_eq_iff, Option.some.injEq, reduceCtorEq, and_false, false_or,
    or_false, and_true] at h
  exact h.2.2.2

theorem notMem_of_macregWriteops {index : Nat} {op : WriteOp} {regs : List Nat}
    (hop : macregWriteops index = some op) (hregs : ∀ i ∈ regs, macregWriteops i ≠ some op) :
    index ∉ regs :=
  fun hmem => hregs index hmem hop

def mmioIndex (addr : U64) : Nat := ((addr &&& 0x1ffff#64) >>> 2).toNat

def e1000MmioRead (w : World) (addr : U64) : World × U32 :=
  match macregReadops (mmioIndex addr) with
  | some op => runReadOp op w (mmioIndex addr)
  | none => (w, 0)

def e1000MmioWrite (fuel : Nat) (w : World) (addr val : U64) : Run World :=
  match macregWriteops (mmioIndex addr) with
  | some op => runWriteOp fuel op w (mmioIndex addr) (val.setWidth 32)
  | none => .ok w

/-! ## Migration hooks -/

def autonegPending (s : E1000State) : Bool :=
  test (s.phyReg Phy.ctrl) miiCrAutoNegEn && test (s.phyReg Phy.ctrl) miiCrRestartAutoNeg

def e1000PreSave (w : World) : World :=
  let w := if w.dev.mitTimerOn then e1000MitTimer w else w
  if test w.dev.compatFlags e1000FlagAutoneg && w.dev.linkDown && autonegPending w.dev then
    { w with dev := { w.dev with
      phyReg := Function.update w.dev.phyReg Phy.status
        (w.dev.phyReg Phy.status ||| miiSrAutonegComplete) } }
  else w

/-! ## Runs -/

inductive Op where
  | mmioRead (addr : U64)
  | mmioWrite (addr val : U64)
  | receive (iov : Iov)
  | linkStatus (down : Bool)
  | autonegTimer
  | mitTimer
  | preSave
  | reset
  | guestStore (mem : Memory)

inductive Reply where
  | none
  | value (v : U32)
  | ret (r : Int)
  deriving DecidableEq, Repr

def step (fuel : Nat) (w : World) : Op → Run (World × Reply)
  | .mmioRead addr =>
      let (w, v) := e1000MmioRead w addr
      .ok (w, .value v)
  | .mmioWrite addr val => do
      let w ← e1000MmioWrite fuel w addr val
      .ok (w, .none)
  | .receive iov => do
      let r ← e1000ReceiveIov fuel w iov
      .ok (r.world, .ret r.ret)
  | .linkStatus down => .ok (e1000SetLinkStatus w down, .none)
  | .autonegTimer => .ok (e1000AutonegTimer w, .none)
  | .mitTimer => .ok (e1000MitTimer w, .none)
  | .preSave => .ok (e1000PreSave w, .none)
  | .reset => .ok (e1000Reset w, .none)
  | .guestStore mem => .ok ({ w with mem := mem }, .none)

def powerOn (macaddr : Buffer) (compatFlags : U32) (linkDown : Bool) (mem : Memory) :
    World :=
  e1000Reset ⟨pciE1000Init macaddr compatFlags linkDown, mem, []⟩

inductive Reachable : World → Prop
  | powerOn (macaddr : Buffer) (compatFlags : U32) (linkDown : Bool) (mem : Memory) :
      Reachable (powerOn macaddr compatFlags linkDown mem)
  | step {fuel : Nat} {w w' : World} {op : Op} {reply : Reply} :
      Reachable w → step fuel w op = .ok (w', reply) → Reachable w'

/-- One induction for every invariant of the device. -/
theorem Reachable.invariant (Inv : World → Prop)
    (hinit : ∀ macaddr flags down mem, Inv (E1000.powerOn macaddr flags down mem))
    (hstep : ∀ fuel w op w' reply, Inv w →
      E1000.step fuel w op = .ok (w', reply) → Inv w')
    {w : World} (h : Reachable w) : Inv w := by
  induction h with
  | powerOn macaddr flags down mem => exact hinit macaddr flags down mem
  | step _ hs ih => exact hstep _ _ _ _ _ ih hs

/-- The states of a device that has been reset, whatever it did before. -/
inductive SinceReset : World → Prop
  | reset (w : World) : SinceReset (e1000Reset w)
  | step {fuel : Nat} {w w' : World} {op : Op} {reply : Reply} :
      SinceReset w → step fuel w op = .ok (w', reply) → SinceReset w'

theorem SinceReset.invariant (Inv : World → Prop) (hreset : ∀ w, Inv (e1000Reset w))
    (hstep : ∀ fuel w op w' reply, Inv w →
      E1000.step fuel w op = .ok (w', reply) → Inv w')
    {w : World} (h : SinceReset w) : Inv w := by
  induction h with
  | reset w => exact hreset w
  | step _ hs ih => exact hstep _ _ _ _ _ ih hs

theorem Reachable.sinceReset {w : World} (h : Reachable w) : SinceReset w := by
  refine Reachable.invariant SinceReset ?_ ?_ h
  · exact fun macaddr flags down mem => .reset _
  · exact fun fuel w op w' reply hw hs => .step hw hs

end SE4VM.E1000
