import SE4VM.E1000.Descriptor
import SE4VM.E1000.Interrupt
import SE4VM.E1000.Iov

/-!
# Packet reception

`receiveIov` pads or gathers the header, filters, strips the VLAN tag in place
and scatters the frame over the receive ring.  The descriptor loop is the only
part that needs fuel.
-/

namespace SE4VM.E1000

open SE4VM.Foundation

/-! ## Registers read by the receiver -/

def rxbufsize (v : U32) : Nat :=
  let v := v &&& (rctlBsex ||| rctlSz16384 ||| rctlSz8192 ||| rctlSz4096 |||
    rctlSz2048 ||| rctlSz1024 ||| rctlSz512 ||| rctlSz256)
  if v = rctlBsex ||| rctlSz16384 then 16384
  else if v = rctlBsex ||| rctlSz8192 then 8192
  else if v = rctlBsex ||| rctlSz4096 then 4096
  else if v = rctlSz1024 then 1024
  else if v = rctlSz512 then 512
  else if v = rctlSz256 then 256
  else 2048

def vlanEnabled (s : E1000State) : Bool := test (s.macReg Reg.ctrl) ctrlVme

def vlanRxFilterEnabled (s : E1000State) : Bool :=
  test (s.macReg Reg.rctl) rctlVfe

def be16 (buf : List U8) (i : Nat) : U16 := buf.getD i 0 ++ buf.getD (i + 1) 0

def isVlanPacket (s : E1000State) (buf : List U8) : Bool :=
  be16 buf 12 == (s.macReg Reg.vet).setWidth 16

def fcsLen (s : E1000State) : Nat :=
  if test (s.macReg Reg.rctl) rctlSecrc then 0 else 4

/-! ## The filter -/

def mtaShift (rctl : U32) : Nat :=
  [4, 3, 2, 0].getD ((rctl >>> rctlMoShift) &&& 3#32).toNat 0

def raBytes (ral rah : U32) : List U8 := toLe 4 ral.toNat ++ toLe 2 rah.toNat

def raMatch (s : E1000State) (buf : List U8) : Bool :=
  (List.range 16).any fun i =>
    test (s.macReg (Reg.ra + 2 * i + 1)) rahAv &&
      buf.take 6 == raBytes (s.macReg (Reg.ra + 2 * i)) (s.macReg (Reg.ra + 2 * i + 1))

def vlanFiltered (s : E1000State) (buf : List U8) : Bool :=
  let vid := (be16 buf 14).toNat
  isVlanPacket s buf && vlanRxFilterEnabled s &&
    !test (s.macReg (Reg.vfta + ((vid >>> 5) &&& 0x7f))) (1#32 <<< (vid &&& 0x1f))

def receiveFilter (s : E1000State) (buf : List U8) : Bool :=
  let rctl := s.macReg Reg.rctl
  if vlanFiltered s buf then false
  else if test rctl rctlUpe then true
  else if test (buf.getD 0 0) 1#8 && test rctl rctlMpe then true
  else if test rctl rctlBam && buf.take 6 == List.replicate 6 0xff#8 then true
  else if raMatch s buf then true
  else
    let f := (((buf.getD 5 0).toNat <<< 8 ||| (buf.getD 4 0).toNat) >>> mtaShift rctl)
      &&& 0xfff
    test (s.macReg (Reg.mta + (f >>> 5))) (1#32 <<< (f &&& 0x1f))

/-! ## Capacity -/

/--
The descriptor count is a C `int`; its product with `rxbuf_size` is a 32-bit
unsigned one.
-/
def e1000HasRxbufs (s : E1000State) (totalSize : Nat) : Bool :=
  let rdh := s.macReg Reg.rdh
  let rdt := s.macReg Reg.rdt
  if totalSize ≤ s.rxbufSize.toNat then rdh != rdt
  else if rdh < rdt then totalSize ≤ ((rdt - rdh) * s.rxbufSize).toNat
  else if rdt < rdh then
    totalSize ≤ ((BitVec.ofNat 32 ((s.macReg Reg.rdlen).toNat / descBytes) +
      rdt - rdh) * s.rxbufSize).toNat
  else false

def e1000CanReceive (s : E1000State) : Bool :=
  test (s.macReg Reg.status) statusLu && test (s.macReg Reg.rctl) rctlEn &&
    e1000HasRxbufs s 1

def rxDescBase (s : E1000State) : U64 :=
  ringBase (s.macReg Reg.rdbah) (s.macReg Reg.rdbal)

/-! ## Header and VLAN tag -/

/-- Which of the three header paths a packet takes. -/
inductive HeaderPath where
  /-- Shorter than the minimum frame: copied into `min_buf` and padded. -/
  | padded
  /-- The first fragment holds the whole header. -/
  | inPlace
  /-- The header was gathered into `min_buf` for the filter. -/
  | gathered
  deriving DecidableEq, Repr

structure RxHeader where
  path : HeaderPath
  filterBuf : List U8
  iov : Iov
  size : Nat

def receiveHeader (iov : Iov) : Run RxHeader :=
  let size := iovSize iov
  if size < minBufSize then do
    let buf ← iovToBuf iov 0 size
    let minBuf := buf ++ List.replicate (minBufSize - size) 0
    .ok ⟨.padded, minBuf, [minBuf], minBufSize⟩
  else
    match iov with
    | [] => .fault
    | first :: _ =>
        if first.length < maximumEthernetHdrLen then do
          let buf ← iovToBuf iov 0 maximumEthernetHdrLen
          .ok ⟨.gathered, buf, iov, size⟩
        else .ok ⟨.inPlace, first, iov, size⟩

def oversized (s : E1000State) (size : Nat) : Bool :=
  (decide (size > maximumEthernetLpeSize) ||
    (decide (size > maximumEthernetVlanSize) &&
      !test (s.macReg Reg.rctl) rctlLpe)) &&
    !test (s.macReg Reg.rctl) rctlSbp

structure RxPacket where
  iov : Iov
  iovOfs : Nat
  size : Nat
  vlanSpecial : U16
  vlanStatus : U8
  callerIov : Iov

def moveHeader (buf : List U8) : List U8 :=
  buf.take 4 ++ buf.take 12 ++ buf.drop 16

def stripVlan (s : E1000State) (callerIov : Iov) (h : RxHeader) : Run RxPacket :=
  if vlanEnabled s && isVlanPacket s h.filterBuf then
    let special := be16 h.filterBuf 14
    let size := h.size - 4
    match h.path, h.iov with
    | .padded, first :: rest =>
        -- `min_buf` is edited, not the caller's fragments.
        .ok ⟨moveHeader first :: rest, 4, size, special, rxdStatVp, callerIov⟩
    | .inPlace, first :: rest =>
        let iov := moveHeader first :: rest
        .ok ⟨iov, 4, size, special, rxdStatVp, iov⟩
    | .gathered, iov => do
        let (iov, _) ← iovFromBuf iov 4 h.filterBuf 12
        let (rest, ofs) ← iovSkip iov 4
        .ok ⟨rest, ofs, size, special, rxdStatVp, iov⟩
    | _, [] => .fault
  else .ok ⟨h.iov, 0, h.size, 0, 0, callerIov⟩

/-! ## The descriptor loop -/

/--
The inner copy loop.  When bytes remain after a fragment, that fragment has
been used up and the next one starts at offset zero; without a next fragment
the code reads past the end of the list.
-/
def copyFragments : World → U64 → Nat → Iov → Nat → Run (World × Iov × Nat)
  | _, _, _, [], _ => .fault
  | w, ba, copySize, frag :: rest, ofs =>
      let iovCopy := min copySize (frag.length - ofs)
      let w := w.dmaWrite .rxData ba ((frag.drop ofs).take iovCopy)
      if copySize - iovCopy = 0 then
        if ofs + iovCopy = frag.length then .ok (w, rest, 0)
        else .ok (w, frag :: rest, ofs + iovCopy)
      else copyFragments w (ba + BitVec.ofNat 64 iovCopy) (copySize - iovCopy) rest 0

structure RxParams where
  size : Nat
  totalSize : Nat
  vlanSpecial : U16
  vlanStatus : U8
  rdhStart : U32

structure RxLoop where
  world : World
  descOffset : Nat
  iov : Iov
  iovOfs : Nat

def markDesc (p : RxParams) (desc : RxDesc) : RxDesc :=
  { desc with
    special := p.vlanSpecial
    status := desc.status ||| (p.vlanStatus ||| rxdStatDd) }

def fillDesc (p : RxParams) (descOffset descSize : Nat) (desc : RxDesc) : RxDesc :=
  { desc with
    length := BitVec.ofNat 16 descSize
    status :=
      if descOffset ≥ p.totalSize then desc.status ||| (rxdStatEop ||| rxdStatIxsm)
      -- Guests need not clear the status themselves.
      else desc.status &&& ~~~rxdStatEop }

def fillBuffer (p : RxParams) (st : RxLoop) (w : World) (ba : U64) :
    Run (World × Iov × Nat) :=
  if st.descOffset < p.size then
    copyFragments w ba (min (p.size - st.descOffset) w.dev.rxbufSize.toNat)
      st.iov st.iovOfs
  else .ok (w, st.iov, st.iovOfs)

def rxHeadAddr (w : World) : U64 := descAddr (rxDescBase w.dev) (w.reg Reg.rdh)

def rxStore (p : RxParams) (st : RxLoop) : Run RxLoop :=
  let descSize := min (p.totalSize - st.descOffset) st.world.dev.rxbufSize.toNat
  let base := rxHeadAddr st.world
  let w := st.world.emit (.dmaRead .rxDesc base descBytes)
  let desc := markDesc p (RxDesc.fetch st.world.mem base)
  if desc.bufferAddr = 0#64 then
    -- As per the Intel documentation, null buffers are skipped.
    .ok { st with world := w.dmaWrite .rxDesc base desc.toBytes }
  else do
    let (w, iov, iovOfs) ← fillBuffer p st w desc.bufferAddr
    let descOffset := st.descOffset + descSize
    let desc := fillDesc p descOffset descSize desc
    .ok ⟨w.dmaWrite .rxDesc base desc.toBytes, descOffset, iov, iovOfs⟩

/-- One iteration; the result says whether the head came back to its start. -/
def rxBody (p : RxParams) (st : RxLoop) : Run (Step RxLoop (Bool × World)) := do
  let st ← rxStore p st
  let rdh := ringNext (st.world.reg Reg.rdlen) (st.world.reg Reg.rdh)
  let w := st.world.setReg Reg.rdh rdh
  if rdh = p.rdhStart then .ok (.done (true, w))
  else if st.descOffset < p.totalSize then .ok (.next { st with world := w })
  else .ok (.done (false, w))

/-! ## The whole call -/

def rxDescMinimum (s : E1000State) : Bool :=
  let rdh := s.macReg Reg.rdh
  let rdlen := s.macReg Reg.rdlen
  let rdt :=
    if s.macReg Reg.rdt < rdh then
      s.macReg Reg.rdt + BitVec.ofNat 32 (rdlen.toNat / descBytes)
    else s.macReg Reg.rdt
  (rdt - rdh).toNat * descBytes ≤ (rdlen >>> s.rxbufMinShift.toNat).toNat

def countReceived (s : E1000State) (size : Nat) : E1000State :=
  let r := Function.update s.macReg Reg.gprc (s.macReg Reg.gprc + 1)
  let r := Function.update r Reg.tpr (r Reg.tpr + 1)
  let n := r Reg.torl + BitVec.ofNat 32 (size + 4)
  let r := if n < r Reg.torl then Function.update r Reg.torh (r Reg.torh + 1) else r
  { s with macReg := Function.update r Reg.torl n }

def receiveDone (w : World) (size : Nat) : World :=
  let w := { w with dev := countReceived w.dev size }
  setIcs w (if rxDescMinimum w.dev then icrRxt0 ||| icrRxdmt0 else icrRxt0)

structure Received where
  ret : Int
  callerIov : Iov
  world : World

def storePacket (fuel : Nat) (w : World) (p : RxPacket) : Run Received :=
  let totalSize := p.size + fcsLen w.dev
  if e1000HasRxbufs w.dev totalSize then do
    let (wrapped, w) ←
      loop (rxBody ⟨p.size, totalSize, p.vlanSpecial, p.vlanStatus, w.reg Reg.rdh⟩)
        fuel ⟨w, 0, p.iov, p.iovOfs⟩
    if wrapped then .ok ⟨-1, p.callerIov, setIcs w icrRxo⟩
    else .ok ⟨p.size, p.callerIov, receiveDone w p.size⟩
  else .ok ⟨-1, p.callerIov, setIcs w icrRxo⟩

def e1000ReceiveIov (fuel : Nat) (w : World) (iov : Iov) : Run Received :=
  if iov = [] then .fault
  else if !test (w.reg Reg.status) statusLu then .ok ⟨-1, iov, w⟩
  else if !test (w.reg Reg.rctl) rctlEn then .ok ⟨-1, iov, w⟩
  else do
    let h ← receiveHeader iov
    if oversized w.dev h.size then .ok ⟨h.size, iov, w⟩
    else if !receiveFilter w.dev h.filterBuf then .ok ⟨h.size, iov, w⟩
    else do
      let p ← stripVlan w.dev iov h
      storePacket fuel w p

def e1000Receive (fuel : Nat) (w : World) (buf : List U8) : Run Received :=
  e1000ReceiveIov fuel w [buf]

end SE4VM.E1000
