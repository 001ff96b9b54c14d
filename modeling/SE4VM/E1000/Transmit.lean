import SE4VM.E1000.Receive

/-!
# Packet transmission

`processTxDesc` assembles a packet in `tx.data`, cutting it into segments when
segmentation offload is on; `startXmit` walks the transmit ring.  A frame sent
in PHY loopback is received by the same device, which may edit the very buffer
that holds it, so sending returns the buffer contents afterwards.
-/

namespace SE4VM.E1000

open SE4VM.Foundation

/-! ## Checksums -/

/-- `net_checksum_add`: bytes at even distance are the high halves. -/
def netChecksumAdd (buf : Buffer) (start : Nat) : Nat → U32
  | 0 => 0
  | n + 1 =>
      let b := (buf (start + n)).setWidth 32
      netChecksumAdd buf start n + (if n % 2 = 1 then b else b <<< 8)

def foldSum (sum : U32) : U32 :=
  if _h : sum >>> 16 ≠ 0 then foldSum ((sum &&& 0xffff#32) + (sum >>> 16)) else sum
termination_by sum.toNat
decreasing_by
  have hand : (sum &&& 0xffff#32).toNat = sum.toNat % 65536 := by
    rw [BitVec.toNat_and]
    exact Nat.and_two_pow_sub_one_eq_mod sum.toNat 16
  have hshift : (sum >>> 16).toNat = sum.toNat / 65536 := by
    rw [BitVec.toNat_ushiftRight, Nat.shiftRight_eq_div_pow]
  have hne : (sum >>> 16).toNat ≠ 0 := fun hz => _h (BitVec.eq_of_toNat_eq hz)
  have hlt := sum.isLt
  rw [hshift] at hne
  rw [BitVec.toNat_add, hand, hshift, Nat.mod_eq_of_lt (by omega)]
  omega

def netChecksumFinish (sum : U32) : U16 := ~~~(foldSum sum).setWidth 16

def Buffer.storeBe16 (b : Buffer) (i : Nat) (v : U16) : Buffer :=
  b.store i (toBe 2 v.toNat)

def Buffer.storeBe32 (b : Buffer) (i : Nat) (v : U32) : Buffer :=
  b.store i (toBe 4 v.toNat)

def Buffer.loadBe16 (b : Buffer) (i : Nat) : U16 :=
  BitVec.ofNat 16 (ofBe (b.slice i 2))

def Buffer.loadBe32 (b : Buffer) (i : Nat) : U32 :=
  BitVec.ofNat 32 (ofBe (b.slice i 4))

theorem slice_tag (b : Buffer) (x y : U16) :
    ((b.storeBe16 0 x).storeBe16 2 y).slice 0 4 = toBe 2 x.toNat ++ toBe 2 y.toNat := by
  simp [Buffer.slice, Buffer.storeBe16, Buffer.store, toBe, toLe, List.range_succ]

def putsum (data : Buffer) (n sloc css cse : U32) : Buffer :=
  let n := if cse ≠ 0 ∧ cse < n then cse + 1 else n
  if sloc < n - 1 then
    -- The length argument is a C `int`; a negative one sums nothing.
    let sum := netChecksumAdd data css.toNat (n - css).toInt.toNat
    data.storeBe16 sloc.toNat (netChecksumFinish sum)
  else data

/-! ## Sending -/

/-- The client has a peer; without one no frame is passed on either. -/
def qemuSendPacket (w : World) (frame : List U8) : World :=
  w.emit (if w.dev.linkDown then .dropPacket frame else .sendPacket frame)

/-- Hand a frame over; also the contents of its buffer afterwards. -/
def e1000SendPacket (fuel : Nat) (w : World) (frame : List U8) :
    Run (World × List U8) :=
  if test (w.dev.phyReg Phy.ctrl) miiCrLoopback then do
    let r ← e1000Receive fuel w frame
    .ok (r.world, r.callerIov.headD [])
  else .ok (qemuSendPacket w frame, frame)

def segmentHeader (tp : E1000Tx) : E1000Tx :=
  let frames : U32 := tp.tsoFrames.setWidth 32
  let css := tp.ipcss.toNat
  let ipLen : U16 := tp.size - tp.ipcss.setWidth 16
  let data :=
    if tp.ip then
      let data := tp.data.storeBe16 (css + 2) ipLen
      data.storeBe16 (css + 4) (data.loadBe16 (css + 4) + frames.setWidth 16)
    else tp.data.storeBe16 (css + 4) ipLen
  let css := tp.tucss.toNat
  let len : U16 := tp.size - tp.tucss.setWidth 16
  let data :=
    if tp.tcp then
      let sofar := frames * tp.mss.setWidth 32
      let data := data.storeBe32 (css + 4) (data.loadBe32 (css + 4) + sofar)
      if tp.paylen - sofar > tp.mss.setWidth 32 then
        data.store (css + 13) [data (css + 13) &&& ~~~9#8]
      else data
    else data.storeBe16 (css + 4) len
  let data :=
    if test tp.sumNeeded txdPoptsTxsm then
      let phsum : U32 :=
        (data.loadBe16 tp.tucso.toNat).setWidth 32 + len.setWidth 32
      let phsum := (phsum >>> 16) + (phsum &&& 0xffff#32)
      data.storeBe16 tp.tucso.toNat (phsum.setWidth 16)
    else data
  { tp with data := data, tsoFrames := tp.tsoFrames + 1 }

/-! The same edits one header at a time. -/

def segmentSofar (tp : E1000Tx) : U32 := tp.tsoFrames.setWidth 32 * tp.mss.setWidth 32

def networkEdit (tp : E1000Tx) (data : Buffer) : Buffer :=
  let css := tp.ipcss.toNat
  let ipLen : U16 := tp.size - tp.ipcss.setWidth 16
  if tp.ip then
    let data := data.storeBe16 (css + 2) ipLen
    data.storeBe16 (css + 4)
      (data.loadBe16 (css + 4) + (tp.tsoFrames.setWidth 32 : U32).setWidth 16)
  else data.storeBe16 (css + 4) ipLen

def transportEdit (tp : E1000Tx) (data : Buffer) : Buffer :=
  let css := tp.tucss.toNat
  if tp.tcp then
    let data := data.storeBe32 (css + 4) (data.loadBe32 (css + 4) + segmentSofar tp)
    if tp.paylen - segmentSofar tp > tp.mss.setWidth 32 then
      data.store (css + 13) [data (css + 13) &&& ~~~9#8]
    else data
  else data.storeBe16 (css + 4) (tp.size - tp.tucss.setWidth 16)

/-- The data of a segment when the lengths, numbers and flags in its headers are set. -/
def segmentEdits (tp : E1000Tx) : Buffer := transportEdit tp (networkEdit tp tp.data)

def pseudoEdit (tp : E1000Tx) (data : Buffer) : Buffer :=
  if test tp.sumNeeded txdPoptsTxsm then
    let phsum : U32 := (data.loadBe16 tp.tucso.toNat).setWidth 32 +
      (tp.size - tp.tucss.setWidth 16 : U16).setWidth 32
    data.storeBe16 tp.tucso.toNat (((phsum >>> 16) + (phsum &&& 0xffff#32)).setWidth 16)
  else data

theorem segmentHeader_edits (tp : E1000Tx) :
    segmentHeader tp = { tp with
      data := pseudoEdit tp (segmentEdits tp)
      tsoFrames := tp.tsoFrames + 1 } := rfl

def checksumTx (tp : E1000Tx) (sloc css : U8) (cse : U16) : E1000Tx :=
  let data := putsum tp.data (tp.size.setWidth 32) (sloc.setWidth 32)
    (css.setWidth 32) (cse.setWidth 32)
  { tp with data := data }

def finishFrame (tp : E1000Tx) : E1000Tx :=
  let tp := if tp.tse && tp.cptse then segmentHeader tp else tp
  let tp :=
    if test tp.sumNeeded txdPoptsTxsm then checksumTx tp tp.tucso tp.tucss tp.tucse
    else tp
  if test tp.sumNeeded txdPoptsIxsm then checksumTx tp tp.ipcso tp.ipcss tp.ipcse
  else tp

/--
Shift the addresses down into `vlan` and put the tag behind them: the frame
then starts in `vlan` and continues in `data`.
-/
def insertVlan (tp : E1000Tx) : E1000Tx :=
  let vlan := tp.vlan.store 0 (tp.data.slice 0 4)
  let data := tp.data.store 0 (tp.data.slice 4 8)
  let data := data.store 8 (tp.vlanHeader.slice 0 4)
  { tp with vlan := vlan, data := data }

def sendFrame (fuel : Nat) (w : World) : Run World :=
  let tp := w.dev.tx
  let size := tp.size.toNat
  if tp.vlanNeeded then do
    let tp := insertVlan tp
    let (w, bytes) ← e1000SendPacket fuel (w.setTx tp)
      (tp.vlan.slice 0 4 ++ tp.data.slice 0 size)
    .ok (w.setTx { w.dev.tx with
      vlan := w.dev.tx.vlan.store 0 (bytes.take 4)
      data := w.dev.tx.data.store 0 (bytes.drop 4) })
  else do
    let (w, bytes) ← e1000SendPacket fuel w (tp.data.slice 0 size)
    .ok (w.setTx { w.dev.tx with data := w.dev.tx.data.store 0 bytes })

def countFrame (w : World) : World :=
  let w := w.setReg Reg.tpt (w.reg Reg.tpt + 1)
  let w := w.setReg Reg.gptc (w.reg Reg.gptc + 1)
  let n := w.reg Reg.totl
  let w := w.setReg Reg.totl (n + w.dev.tx.size.setWidth 32)
  if w.reg Reg.totl < n then w.setReg Reg.toth (w.reg Reg.toth + 1) else w

def xmitSeg (fuel : Nat) (w : World) : Run World := do
  let w ← sendFrame fuel (w.setTx (finishFrame w.dev.tx))
  .ok (countFrame w)

/-! ## Descriptors -/

def txdEop (dp : TxDesc) : Bool := test dp.lower txdCmdEop

def isVlanTxd (dp : TxDesc) : Bool := test dp.lower txdCmdVle

def contextTx (tp : E1000Tx) (dp : TxDesc) : E1000Tx :=
  let op := dp.cmdAndLength
  let tcp := test op txdCmdTcp
  { tp with
    ipcss := dp.ipcss
    ipcso := dp.ipcso
    ipcse := dp.ipcse
    tucss := dp.tucss
    -- "this is probably wrong", says the source of the zero offset
    tucso := if dp.tucso = 0 then dp.tucss + (if tcp then 16 else 6) else dp.tucso
    tucse := dp.tucse
    paylen := op &&& 0xfffff#32
    hdrLen := dp.hdrLen
    mss := dp.mss
    ip := test op txdCmdIp
    tcp := tcp
    tse := test op txdCmdTse
    tsoFrames := 0 }

def beginData (tp : E1000Tx) (dp : TxDesc) (dataDesc : Bool) : E1000Tx :=
  if dataDesc then
    { tp with
      sumNeeded :=
        if tp.size = 0 then (dp.upper >>> 8).setWidth 8 else tp.sumNeeded
      cptse := test dp.lower txdCmdTse }
  else { tp with cptse := false }

def tagTx (s : E1000State) (tp : E1000Tx) (dp : TxDesc) : E1000Tx :=
  if vlanEnabled s && isVlanTxd dp && (tp.cptse || txdEop dp) then
    { tp with
      vlanNeeded := true
      vlanHeader := (tp.vlanHeader.storeBe16 0 ((s.macReg Reg.vet).setWidth 16)).storeBe16
        2 dp.special }
  else tp

def txDataBytes : Nat := 0x10000

structure TsoLoop where
  world : World
  splitSize : U32
  addr : U64

def tsoBytes (tp : E1000Tx) (msh splitSize : U32) : U32 :=
  let bytes := splitSize
  let bytes :=
    if tp.size.setWidth 32 + bytes > msh then msh - tp.size.setWidth 32 else bytes
  BitVec.ofNat 32 (min (txDataBytes - tp.size.toNat) bytes.toNat)

def appendChunk (tp : E1000Tx) (chunk : List U8) : E1000Tx :=
  let sz := tp.size.toNat + chunk.length
  let data := tp.data.store tp.size.toNat chunk
  let header :=
    if sz ≥ tp.hdrLen.toNat ∧ tp.size.toNat < tp.hdrLen.toNat then
      tp.header.store 0 (data.slice 0 tp.hdrLen.toNat)
    else tp.header
  { tp with data := data, header := header, size := BitVec.ofNat 16 sz }

def restoreHeader (tp : E1000Tx) : E1000Tx :=
  { tp with
    data := tp.data.store 0 (tp.header.slice 0 tp.hdrLen.toNat)
    size := tp.hdrLen.setWidth 16 }

def flushSegment (fuel : Nat) (complete : Bool) (w : World) : Run World :=
  if complete then do
    let w ← xmitSeg fuel w
    .ok (w.setTx (restoreHeader w.dev.tx))
  else .ok w

def tsoBody (msh : U32) (fuel : Nat) (st : TsoLoop) : Run (Step TsoLoop World) := do
  let tp := st.world.dev.tx
  let bytes := tsoBytes tp msh st.splitSize
  let (chunk, w) := st.world.dmaRead .txData st.addr bytes.toNat
  let w ← flushSegment fuel (tp.size.toNat + bytes.toNat = msh.toNat)
    (w.setTx (appendChunk tp chunk))
  let splitSize := st.splitSize - bytes
  if splitSize ≠ 0 then
    .ok (.next ⟨w, splitSize, st.addr + BitVec.ofNat 64 bytes.toNat⟩)
  else .ok (.done w)

def tsoMsh (tp : E1000Tx) : U32 := tp.hdrLen.setWidth 32 + tp.mss.setWidth 32

def fetchData (fuel : Nat) (w : World) (dp : TxDesc) : Run World :=
  let tp := w.dev.tx
  let splitSize := dp.lower &&& 0xffff#32
  if tp.tse && tp.cptse then
    loop (tsoBody (tsoMsh tp) fuel) fuel ⟨w, splitSize, dp.bufferAddr⟩
  else if tp.cptse then
    -- Segmentation requested by the descriptor but not by the context.
    .ok w
  else
    let n := min (txDataBytes - tp.size.toNat) splitSize.toNat
    let (chunk, w) := w.dmaRead .txData dp.bufferAddr n
    .ok (w.setTx { tp with
      data := tp.data.store tp.size.toNat chunk
      size := tp.size + BitVec.ofNat 16 n })

/-- The last frame of a packet; a segmented one without payload is dropped. -/
def sendLast (fuel : Nat) (w : World) : Run World :=
  let tp := w.dev.tx
  if tp.tse && tp.cptse && decide (tp.size.toNat < tp.hdrLen.toNat) then .ok w
  else xmitSeg fuel w

def endPacket (fuel : Nat) (w : World) : Run World := do
  let w ← sendLast fuel w
  .ok (w.setTx { w.dev.tx with
    tsoFrames := 0, sumNeeded := 0, vlanNeeded := false, size := 0, cptse := false })

def descType (dp : TxDesc) : U32 := dp.lower &&& (txdCmdDext ||| txdDtypD)

def noteIde (w : World) (dp : TxDesc) : World :=
  { w with dev := { w.dev with mitIde := w.dev.mitIde ||| (dp.lower &&& txdCmdIde) } }

/-- The state in which a legacy or data descriptor has its data fetched. -/
def beginDesc (w : World) (dp : TxDesc) : World :=
  let w := noteIde w dp
  let tp := beginData w.dev.tx dp (descType dp = txdCmdDext ||| txdDtypD)
  w.setTx (tagTx w.dev tp dp)

def processTxDesc (fuel : Nat) (w : World) (dp : TxDesc) : Run World :=
  if descType dp = txdCmdDext then
    let w := noteIde w dp
    .ok (w.setTx (contextTx w.dev.tx dp))
  else do
    let w ← fetchData fuel (beginDesc w dp) dp
    if txdEop dp then endPacket fuel w else .ok w

/-! ## The ring -/

def txDescBase (s : E1000State) : U64 :=
  ringBase (s.macReg Reg.tdbah) (s.macReg Reg.tdbal)

def txHeadAddr (w : World) : U64 := descAddr (txDescBase w.dev) (w.reg Reg.tdh)

def txdescWriteback (w : World) (base : U64) (dp : TxDesc) : World × U32 :=
  if test dp.lower (txdCmdRs ||| txdCmdRps) then
    let upper := (dp.upper ||| txdStatDd) &&& ~~~(txdStatEc ||| txdStatLc ||| txdStatTu)
    (w.dmaWrite .txDesc (base + 12) (toLe 4 upper.toNat), icrTxdw)
  else (w, 0)

structure XmitLoop where
  world : World
  cause : U32

def finishDesc (cause : U32) (base : U64) (dp : TxDesc) (w : World) : XmitLoop :=
  let (w, c) := txdescWriteback w base dp
  ⟨w.setReg Reg.tdh (ringNext (w.reg Reg.tdlen) (w.reg Reg.tdh)), cause ||| c⟩

def xmitBody (tdhStart : U32) (fuel : Nat) (st : XmitLoop) :
    Run (Step XmitLoop XmitLoop) :=
  let w := st.world
  if w.reg Reg.tdh = w.reg Reg.tdt then .ok (.done st)
  else do
    let base := txHeadAddr w
    let dp := TxDesc.fetch w.mem base
    let w ← processTxDesc fuel (w.emit (.dmaRead .txDesc base descBytes)) dp
    let st := finishDesc st.cause base dp w
    -- The guest chose bogus values of TDT or TDLEN: give up after one round.
    .ok (if st.world.reg Reg.tdh = tdhStart then .done st else .next st)

def startXmit (fuel : Nat) (w : World) : Run World :=
  if test (w.reg Reg.tctl) tctlEn then do
    let st ← loop (xmitBody (w.reg Reg.tdh) fuel) fuel ⟨w, icrTxqe⟩
    .ok (setIcs st.world st.cause)
  else .ok w

end SE4VM.E1000
