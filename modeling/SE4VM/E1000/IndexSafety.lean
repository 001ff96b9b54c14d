import SE4VM.E1000.Beyond
import SE4VM.E1000.Packet

/-!
# Array accesses

For each function the accesses it makes to the arrays of the device, with the
offsets it computes.  A register that the source names by a constant is listed
whether or not the branch that reads it is taken.
-/

namespace SE4VM.E1000

open SE4VM.Foundation

/-! ## Arrays -/

inductive Arr where
  | macReg
  | phyReg
  | phyRegcap
  | eepromData
  | macregReadops
  | macregWriteops
  | phyregWriteops
  | minBuf
  | txHeader
  /-- `tx.vlan` and `tx.data`, which "must not be reordered or separated". -/
  | txFrame
  /-- A fragment of the packet being received. -/
  | fragment (len : Nat)
  deriving DecidableEq, Repr

/-- The largest index with a designator of its own is that of `SWSM`. -/
def nReadops : Nat := Reg.swsm + 1

def nWriteops : Nat := Reg.swsm + 1

def nPhywriteops : Nat := Phy.ctrl + 1

def Arr.length : Arr → Nat
  | macReg => macRegs
  | phyReg => phyRegs
  | phyRegcap => phyRegs
  | eepromData => eepromSize
  | macregReadops => nReadops
  | macregWriteops => nWriteops
  | phyregWriteops => nPhywriteops
  | minBuf => minBufSize
  | txHeader => 256
  | txFrame => 4 + txDataBytes
  | fragment len => len

structure Access where
  arr : Arr
  start : Nat
  len : Nat
  deriving DecidableEq, Repr

def Access.InBounds (a : Access) : Prop := a.start + a.len ≤ a.arr.length

instance (a : Access) : Decidable a.InBounds := inferInstanceAs (Decidable (_ ≤ _))

def cells (arr : Arr) (is : List Nat) : List Access := is.map (⟨arr, ·, 1⟩)

def AllIn (as : List Access) : Prop := ∀ a ∈ as, a.InBounds

theorem allIn_nil : AllIn [] := fun _ h => absurd h List.not_mem_nil

theorem AllIn.cons {a : Access} {as : List Access} (h : a.InBounds) (hs : AllIn as) :
    AllIn (a :: as) := List.forall_mem_cons.mpr ⟨h, hs⟩

theorem AllIn.append {as bs : List Access} (ha : AllIn as) (hb : AllIn bs) :
    AllIn (as ++ bs) := List.forall_mem_append.mpr ⟨ha, hb⟩

theorem AllIn.ite {c : Prop} [Decidable c] {as bs : List Access} (ha : c → AllIn as)
    (hb : ¬ c → AllIn bs) : AllIn (if c then as else bs) := by
  split_ifs with h
  · exact ha h
  · exact hb h

theorem AllIn.flatMap {α : Type} {xs : List α} {f : α → List Access}
    (h : ∀ x ∈ xs, AllIn (f x)) : AllIn (xs.flatMap f) := by
  intro a ha
  obtain ⟨x, hx, ha⟩ := List.mem_flatMap.mp ha
  exact h x hx a ha

theorem allIn_cells {arr : Arr} {is : List Nat} (h : ∀ i ∈ is, i < arr.length) :
    AllIn (cells arr is) := by
  intro a ha
  obtain ⟨i, hi, rfl⟩ := List.mem_map.mp ha
  exact h i hi

/-! ## Interrupts -/

/-- `set_interrupt_cause` and the delays it looks up. -/
def interruptRegs : List Nat :=
  [Reg.icr, Reg.ics, Reg.ims, Reg.tadv, Reg.rdtr, Reg.radv, Reg.itr]

/-! ## Reception -/

def headerAccesses (iov : Iov) : List Access :=
  let whole := iov.map fun frag => ⟨.fragment frag.length, 0, frag.length⟩
  let size := iovSize iov
  if size < minBufSize then
    ⟨.minBuf, 0, size⟩ :: ⟨.minBuf, size, minBufSize - size⟩ :: whole
  else
    match iov with
    | [] => []
    | first :: _ =>
        if first.length < maximumEthernetHdrLen then
          ⟨.minBuf, 0, maximumEthernetHdrLen⟩ :: whole
        else []

/-- Where `filter_buf` points. -/
def RxHeader.filterArr (h : RxHeader) : Arr :=
  match h.path with
  | .inPlace => .fragment h.filterBuf.length
  | _ => .minBuf

def receiveFilterAccesses (s : E1000State) (h : RxHeader) : List Access :=
  let buf := h.filterBuf
  let vid := (be16 buf 14).toNat
  let f := (((buf.getD 5 0).toNat <<< 8 ||| (buf.getD 4 0).toNat) >>>
    mtaShift (s.macReg Reg.rctl)) &&& 0xfff
  ⟨h.filterArr, 0, 16⟩ :: cells .macReg
    ([Reg.rctl, Reg.vet, Reg.vfta + ((vid >>> 5) &&& 0x7f), Reg.mta + (f >>> 5)] ++
      (List.range 32).map (Reg.ra + ·))

/-- The header is moved inside `filter_buf`, or copied from it into the fragments. -/
def stripVlanAccesses (s : E1000State) (h : RxHeader) : List Access :=
  if vlanEnabled s && isVlanPacket s h.filterBuf then
    ⟨h.filterArr, 14, 2⟩ :: ⟨h.filterArr, 0, 12⟩ :: ⟨h.filterArr, 4, 12⟩ ::
      h.iov.map fun frag => ⟨.fragment frag.length, 0, frag.length⟩
  else []

def copyAccesses : Nat → Iov → Nat → List Access
  | _, [], _ => []
  | copySize, frag :: rest, ofs =>
      let iovCopy := min copySize (frag.length - ofs)
      ⟨.fragment frag.length, ofs, iovCopy⟩ ::
        if copySize - iovCopy = 0 then [] else copyAccesses (copySize - iovCopy) rest 0

def rxStoreAccesses (p : RxParams) (st : RxLoop) : List Access :=
  if (RxDesc.fetch st.world.mem (rxHeadAddr st.world)).bufferAddr = 0#64 then []
  else if st.descOffset < p.size then
    copyAccesses (min (p.size - st.descOffset) st.world.dev.rxbufSize.toNat) st.iov st.iovOfs
  else []

def storePacketAccesses (fuel : Nat) (w : World) (p : RxPacket) : List Access :=
  let params : RxParams :=
    ⟨p.size, p.size + fcsLen w.dev, p.vlanSpecial, p.vlanStatus, w.reg Reg.rdh⟩
  if e1000HasRxbufs w.dev params.totalSize then
    (trail (rxBody params) fuel ⟨w, 0, p.iov, p.iovOfs⟩).flatMap (rxStoreAccesses params)
  else []

def receiveRegs : List Nat :=
  [Reg.status, Reg.rctl, Reg.ctrl, Reg.vet, Reg.rdh, Reg.rdt, Reg.rdlen, Reg.rdbah, Reg.rdbal,
    Reg.gprc, Reg.tpr, Reg.torl, Reg.torh] ++ interruptRegs

def receiveAccesses (fuel : Nat) (w : World) (iov : Iov) : List Access :=
  cells .macReg receiveRegs ++
    if test (w.reg Reg.status) statusLu && test (w.reg Reg.rctl) rctlEn then
      headerAccesses iov ++
        match receiveHeader iov with
        | .ok h =>
            if oversized w.dev h.size then []
            else receiveFilterAccesses w.dev h ++
              if receiveFilter w.dev h.filterBuf then
                stripVlanAccesses w.dev h ++
                  match stripVlan w.dev iov h with
                  | .ok p => storePacketAccesses fuel w p
                  | _ => []
              else []
        | _ => []
    else []

/-! ## Transmission -/

def dataAccess (i n : Nat) : Access := ⟨.txFrame, 4 + i, n⟩

def putsumAccesses (n sloc css cse : U32) : List Access :=
  let n := if cse ≠ 0 ∧ cse < n then cse + 1 else n
  if sloc < n - 1 then
    [dataAccess css.toNat (n - css).toInt.toNat, dataAccess sloc.toNat 2]
  else []

def segmentHeaderAccesses (tp : E1000Tx) : List Access :=
  let ipcss := tp.ipcss.toNat
  let tucss := tp.tucss.toNat
  (if tp.ip then [dataAccess (ipcss + 2) 2, dataAccess (ipcss + 4) 2]
    else [dataAccess (ipcss + 4) 2]) ++
  (if tp.tcp then [dataAccess (tucss + 4) 4, dataAccess (tucss + 13) 1]
    else [dataAccess (tucss + 4) 2]) ++
  (if test tp.sumNeeded txdPoptsTxsm then [dataAccess tp.tucso.toNat 2] else [])

def checksumAccesses (tp : E1000Tx) (sloc css : U8) (cse : U16) : List Access :=
  putsumAccesses (tp.size.setWidth 32) (sloc.setWidth 32) (css.setWidth 32) (cse.setWidth 32)

def finishFrameAccesses (tp : E1000Tx) : List Access :=
  (if tp.tse && tp.cptse then segmentHeaderAccesses tp else []) ++
  (if test tp.sumNeeded txdPoptsTxsm then checksumAccesses tp tp.tucso tp.tucss tp.tucse
    else []) ++
  (if test tp.sumNeeded txdPoptsIxsm then checksumAccesses tp tp.ipcso tp.ipcss tp.ipcse
    else [])

/-- Inserting the tag, and the bytes handed to `e1000_send_packet`. -/
def sendFrameAccesses (tp : E1000Tx) : List Access :=
  if tp.vlanNeeded then
    [⟨.txFrame, 0, 4⟩, dataAccess 0 4, dataAccess 0 8, dataAccess 4 8, dataAccess 8 4,
      ⟨.txFrame, 0, tp.size.toNat + 4⟩]
  else [dataAccess 0 tp.size.toNat]

/-- In PHY loopback the frame is received by the same device, which reads and edits it in place. -/
def xmitSegAccesses (fuel : Nat) (w : World) : List Access :=
  finishFrameAccesses w.dev.tx ++ sendFrameAccesses w.dev.tx ++ cells .phyReg [Phy.ctrl] ++
    (if test (w.dev.phyReg Phy.ctrl) miiCrLoopback then
      receiveAccesses fuel (w.setTx (frameTx w.dev.tx)) [frameSent w.dev.tx]
    else []) ++
    cells .macReg [Reg.tpt, Reg.gptc, Reg.totl, Reg.toth]

def headerCopyAccesses (tp : E1000Tx) : List Access :=
  [⟨.txHeader, 0, tp.hdrLen.toNat⟩, dataAccess 0 tp.hdrLen.toNat]

def tsoAccesses (msh : U32) (st : TsoLoop) : List Access :=
  let tp := st.world.dev.tx
  let bytes := (tsoBytes tp msh st.splitSize).toNat
  let sz := tp.size.toNat + bytes
  dataAccess tp.size.toNat bytes ::
    ((if sz ≥ tp.hdrLen.toNat ∧ tp.size.toNat < tp.hdrLen.toNat then headerCopyAccesses tp
      else []) ++
    if sz = msh.toNat then headerCopyAccesses tp else [])

def fetchAccesses (fuel : Nat) (w : World) (dp : TxDesc) : List Access :=
  let tp := w.dev.tx
  let splitSize := dp.lower &&& 0xffff#32
  if tp.tse && tp.cptse then
    (trail (tsoBody (tsoMsh tp) fuel) fuel ⟨w, splitSize, dp.bufferAddr⟩).flatMap
      (tsoAccesses (tsoMsh tp))
  else if tp.cptse then []
  else [dataAccess tp.size.toNat (min (txDataBytes - tp.size.toNat) splitSize.toNat)]

def processTxDescAccesses (fuel : Nat) (w : World) (dp : TxDesc) : List Access :=
  if descType dp = txdCmdDext then []
  else
    cells .macReg [Reg.ctrl, Reg.vet] ++ fetchAccesses fuel (beginDesc w dp) dp ++
      (descCalls fuel w dp).flatMap (xmitSegAccesses fuel)

def xmitHeadAccesses (fuel : Nat) (st : XmitLoop) : List Access :=
  let w := st.world
  if w.reg Reg.tdh = w.reg Reg.tdt then []
  else processTxDescAccesses fuel (w.emit (.dmaRead .txDesc (txHeadAddr w) descBytes))
    (TxDesc.fetch w.mem (txHeadAddr w))

def startXmitAccesses (fuel : Nat) (w : World) : List Access :=
  cells .macReg
      ([Reg.tctl, Reg.tdh, Reg.tdt, Reg.tdlen, Reg.tdbah, Reg.tdbal] ++ interruptRegs) ++
    if test (w.reg Reg.tctl) tctlEn then
      (trail (xmitBody (w.reg Reg.tdh) fuel) fuel ⟨w, icrTxqe⟩).flatMap (xmitHeadAccesses fuel)
    else []

/-! ## The register interface -/

def setMdicAccesses (val : U32) : List Access :=
  let addr := ((val &&& mdicRegMask) >>> mdicRegShift).toNat
  cells .macReg (Reg.mdic :: Reg.status :: interruptRegs) ++ cells .phyReg [Phy.status] ++
    if (val &&& mdicPhyMask) >>> mdicPhyShift ≠ 1#32 then []
    else if test val mdicOpRead || test val mdicOpWrite then
      [⟨.phyRegcap, addr, 1⟩, ⟨.phyReg, addr, 1⟩] ++
        if addr < nPhywriteops then [⟨.phyregWriteops, addr, 1⟩] else []
    else []

def getEecdAccesses (s : E1000State) : List Access :=
  cells .eepromData [((s.eecdState.bitnumOut >>> 4) &&& 0x3f#16).toNat]

def flashEerdReadAccesses (s : E1000State) : List Access :=
  let index := ((s.macReg Reg.eerd &&& ~~~eepromRwRegStart) >>> eepromRwAddrShift).toNat
  cells .macReg [Reg.eerd] ++
    if index > eepromChecksumReg then [] else cells .eepromData [index]

def readOpAccesses (s : E1000State) (index : Nat) : ReadOp → List Access
  | .macReadreg => cells .macReg [index]
  | .macReadClr4 => cells .macReg [index]
  | .macReadClr8 => cells .macReg [index, index - 1]
  | .macIcrRead => cells .macReg interruptRegs
  | .getEecd => getEecdAccesses s
  | .flashEerdRead => flashEerdReadAccesses s

def mmioReadAccesses (w : World) (addr : U64) : List Access :=
  let index := mmioIndex addr
  if index < nReadops then
    ⟨.macregReadops, index, 1⟩ ::
      match macregReadops index with
      | some op => readOpAccesses w.dev index op
      | none => []
  else []

/-- `start_xmit` runs in the world that `set_tctl` has prepared. -/
def setTctlAccesses (fuel : Nat) (w : World) (index : Nat) (val : U32) : List Access :=
  let w := w.setReg index val
  cells .macReg [index, Reg.tdt] ++
    startXmitAccesses fuel (w.setReg Reg.tdt (w.reg Reg.tdt &&& 0xffff#32))

def writeOpAccesses (fuel : Nat) (w : World) (index : Nat) (val : U32) : WriteOp → List Access
  | .macWritereg => cells .macReg [index, Reg.ra, Reg.ra + 1]
  | .setDlen => cells .macReg [index]
  | .setTctl => setTctlAccesses fuel w index val
  | .setMdic => setMdicAccesses val
  | .setIcs => cells .macReg interruptRegs
  | .set16bit => cells .macReg [index]
  | .setRdt => cells .macReg [index, Reg.rdh, Reg.rdt, Reg.rdlen]
  | .setImc => cells .macReg interruptRegs
  | .setIms => cells .macReg interruptRegs
  | .setIcr => cells .macReg interruptRegs
  | .setEecd => []
  | .setRxControl => cells .macReg [Reg.rctl, Reg.rdt]
  | .setCtrl => cells .macReg [Reg.ctrl]

def mmioWriteAccesses (fuel : Nat) (w : World) (addr val : U64) : List Access :=
  let index := mmioIndex addr
  (if index < nWriteops then
    ⟨.macregWriteops, index, 1⟩ ::
      match macregWriteops index with
      | some op => writeOpAccesses fuel w index (val.setWidth 32) op
      | none => []
  else []) ++
  if index < nReadops then [⟨.macregReadops, index, 1⟩] else []

/-! ## Reset, host events and whole operations -/

def resetAccesses : List Access :=
  [⟨.phyReg, 0, phyRegs⟩, ⟨.macReg, 0, macRegs⟩, ⟨.txHeader, 0, 256⟩,
    ⟨.txFrame, 0, 4 + txDataBytes⟩] ++
    cells .macReg [Reg.status, Reg.ra, Reg.ra + 1] ++ cells .phyReg [Phy.status]

/-- `pci_e1000_init` copies the template, puts the address in and sums the words up. -/
def initAccesses : List Access :=
  ⟨.eepromData, 0, eepromTemplate.length⟩ ::
    cells .eepromData (List.range 3 ++ List.range eepromChecksumReg ++ [eepromChecksumReg])

def linkAccesses : List Access :=
  cells .macReg (Reg.status :: interruptRegs) ++ cells .phyReg [Phy.ctrl, Phy.status]

def accesses (fuel : Nat) (w : World) : Op → List Access
  | .mmioRead addr => mmioReadAccesses w addr
  | .mmioWrite addr val => mmioWriteAccesses fuel w addr val
  | .receive iov => receiveAccesses fuel w iov
  | .linkStatus _ => linkAccesses
  | .autonegTimer => linkAccesses
  | .mitTimer => linkAccesses
  | .preSave => linkAccesses
  | .reset => resetAccesses
  | .guestStore _ => []

/-! ## Reception stays inside -/

theorem interruptRegs_lt : ∀ i ∈ interruptRegs, i < macRegs := by decide

theorem allIn_headerAccesses (iov : Iov) : AllIn (headerAccesses iov) := by
  have hwhole : AllIn (iov.map fun frag => ⟨.fragment frag.length, 0, frag.length⟩) := by
    intro a ha
    obtain ⟨frag, -, rfl⟩ := List.mem_map.mp ha
    exact Nat.le_of_eq (Nat.zero_add _)
  refine .ite (fun hshort => ?_) fun _ => ?_
  · refine .cons ?_ (.cons ?_ hwhole)
    · exact (Nat.zero_add _).trans_le (Nat.le_of_lt hshort)
    · exact Nat.le_of_eq (Nat.add_sub_cancel' (Nat.le_of_lt hshort))
  · cases iov with
    | nil => exact allIn_nil
    | cons first rest => exact .ite (fun _ => .cons (by decide) hwhole) fun _ => allIn_nil

theorem filterArr_length {iov : Iov} {h : RxHeader} (hh : receiveHeader iov = .ok h) :
    16 ≤ h.filterArr.length := by
  simp only [receiveHeader] at hh
  split_ifs at hh with hshort
  · obtain ⟨buf, -, hh⟩ := Run.bind_eq_ok.mp hh
    cases hh
    exact (by decide : 16 ≤ minBufSize)
  · cases iov with
    | nil => cases hh
    | cons first rest =>
        dsimp only at hh
        split_ifs at hh with hfirst
        · obtain ⟨buf, -, hh⟩ := Run.bind_eq_ok.mp hh
          cases hh
          exact (by decide : 16 ≤ minBufSize)
        · cases hh
          simp only [RxHeader.filterArr, Arr.length, maximumEthernetHdrLen] at hfirst ⊢
          omega

theorem allIn_receiveFilterAccesses (s : E1000State) {h : RxHeader}
    (hlen : 16 ≤ h.filterArr.length) : AllIn (receiveFilterAccesses s h) := by
  refine .cons ((Nat.zero_add 16).trans_le hlen) (allIn_cells fun i hi => ?_)
  simp only [List.mem_append, List.mem_cons, List.not_mem_nil, or_false, List.mem_map,
    List.mem_range] at hi
  rcases hi with (rfl | rfl | rfl | rfl) | ⟨j, hj, rfl⟩
  · decide
  · decide
  · exact Nat.lt_of_le_of_lt (Nat.add_le_add_left Nat.and_le_right _) (by decide)
  · refine Nat.lt_of_le_of_lt (Nat.add_le_add_left (m := 127) ?_ Reg.mta) (by decide)
    have hand : ∀ f : Nat, f &&& 0xfff ≤ 0xfff := fun f => Nat.and_le_right
    rw [Nat.shiftRight_eq_div_pow]
    exact Nat.div_le_div_right (hand _)
  · exact Nat.lt_of_le_of_lt (Nat.add_le_add_left (Nat.le_of_lt_succ hj) Reg.ra) (by decide)

theorem allIn_stripVlanAccesses (s : E1000State) {h : RxHeader}
    (hlen : 16 ≤ h.filterArr.length) : AllIn (stripVlanAccesses s h) := by
  have hin : ∀ {i n : Nat}, i + n ≤ 16 → (⟨h.filterArr, i, n⟩ : Access).InBounds := fun hn =>
    hn.trans hlen
  refine .ite (fun _ => ?_) fun _ => allIn_nil
  refine .cons (hin (by decide)) (.cons (hin (by decide)) (.cons (hin (by decide)) ?_))
  intro a ha
  obtain ⟨frag, -, rfl⟩ := List.mem_map.mp ha
  exact Nat.le_of_eq (Nat.zero_add _)

theorem allIn_copyAccesses {copySize : Nat} {iov : Iov} {ofs : Nat} (h : CursorOk iov ofs) :
    AllIn (copyAccesses copySize iov ofs) := by
  induction iov generalizing copySize ofs with
  | nil => exact allIn_nil
  | cons frag rest ih =>
      have hofs : ofs ≤ frag.length := h
      refine .cons ?_ (.ite (fun _ => allIn_nil) fun _ => ih ?_)
      · have hmin := Nat.min_le_right copySize (frag.length - ofs)
        simp only [Access.InBounds, Arr.length]
        omega
      · cases rest with
        | nil => rfl
        | cons _ _ => exact Nat.zero_le _

theorem copyFragments_cursor {w w' : World} {ba : U64} {n ofs ofs' : Nat} {iov iov' : Iov}
    (h : copyFragments w ba n iov ofs = .ok (w', iov', ofs')) (hcur : CursorOk iov ofs) :
    CursorOk iov' ofs' := by
  induction iov generalizing w ba n ofs with
  | nil => cases h
  | cons frag rest ih =>
      have hofs : ofs ≤ frag.length := hcur
      have hstart : CursorOk rest 0 := by
        cases rest with
        | nil => rfl
        | cons _ _ => exact Nat.zero_le _
      simp only [copyFragments] at h
      split_ifs at h
      · cases h
        exact hstart
      · cases h
        simp only [CursorOk]
        omega
      · exact ih h hstart

theorem rxBody_cursor {p : RxParams} {st st' : RxLoop} (hcur : CursorOk st.iov st.iovOfs)
    (h : rxBody p st = .ok (.next st')) : CursorOk st'.iov st'.iovOfs := by
  obtain ⟨u, hstore, h⟩ := Run.bind_eq_ok.mp h
  have hu : CursorOk u.iov u.iovOfs := by
    simp only [rxStore] at hstore
    split_ifs at hstore
    · cases hstore
      exact hcur
    · obtain ⟨⟨w', iov', ofs'⟩, hfill, hstore⟩ := Run.bind_eq_ok.mp hstore
      cases hstore
      simp only [fillBuffer] at hfill
      split_ifs at hfill
      · exact copyFragments_cursor hfill hcur
      · cases hfill
        exact hcur
  dsimp only at h
  split_ifs at h <;> cases h
  exact hu

theorem allIn_storePacketAccesses (fuel : Nat) (w : World) {p : RxPacket}
    (hcur : CursorOk p.iov p.iovOfs) : AllIn (storePacketAccesses fuel w p) := by
  refine .ite (fun _ => .flatMap fun st hst => ?_) fun _ => allIn_nil
  have hcursor : CursorOk st.iov st.iovOfs :=
    trail_invariant (fun st : RxLoop => CursorOk st.iov st.iovOfs)
      (fun _ _ hs hb => rxBody_cursor hs hb) hcur hst
  exact .ite (fun _ => allIn_nil) fun _ =>
    .ite (fun _ => allIn_copyAccesses hcursor) fun _ => allIn_nil

theorem allIn_receiveAccesses (fuel : Nat) (w : World) (iov : Iov) :
    AllIn (receiveAccesses fuel w iov) := by
  refine .append (allIn_cells (by decide)) (.ite (fun _ => ?_) fun _ => allIn_nil)
  refine .append (allIn_headerAccesses iov) ?_
  cases hh : receiveHeader iov with
  | fault => exact allIn_nil
  | timeout => exact allIn_nil
  | ok h =>
      have hlen := filterArr_length hh
      refine .ite (fun _ => allIn_nil) fun _ => ?_
      refine .append (allIn_receiveFilterAccesses w.dev hlen) (.ite (fun _ => ?_) fun _ =>
        allIn_nil)
      refine .append (allIn_stripVlanAccesses w.dev hlen) ?_
      have hok : HeaderOk iov h := by
        by_cases hne : iov = []
        · subst hne
          cases hh
          exact ⟨rfl, rfl, rfl, _, _, rfl, by decide⟩
        · obtain ⟨h', hh', hok⟩ := receiveHeader_spec hne
          exact Run.ok.inj (hh'.symm.trans hh) ▸ hok
      obtain ⟨p, hstrip, hcarries⟩ := stripVlan_spec w.dev hok
      rw [hstrip]
      exact allIn_storePacketAccesses fuel w hcarries.cursor

/-! ## Transmission stays inside -/

theorem inBounds_dataAccess {i n : Nat} (h : i + n ≤ txDataBytes) :
    (dataAccess i n).InBounds := by
  simp only [Access.InBounds, dataAccess, Arr.length]
  omega

theorem allIn_checksumAccesses (tp : E1000Tx) (sloc css : U8) (cse : U16) :
    AllIn (checksumAccesses tp sloc css cse) := by
  have hn : (tp.size.setWidth 32 : U32).toNat ≤ 0x10000 := by
    rw [BitVec.toNat_setWidth_of_le (by decide)]
    exact Nat.le_of_lt tp.size.isLt
  have hcss : (css.setWidth 32 : U32).toNat ≤ 0xff := by
    rw [BitVec.toNat_setWidth_of_le (by decide)]
    exact Nat.le_of_lt_succ css.isLt
  have hsloc : (sloc.setWidth 32 : U32).toNat ≤ 0xff := by
    rw [BitVec.toNat_setWidth_of_le (by decide)]
    exact Nat.le_of_lt_succ sloc.isLt
  obtain ⟨-, hsum⟩ := putsum_extent (cse.setWidth 32) hn (hcss.trans (by decide))
  refine .ite (fun _ => .cons (inBounds_dataAccess ?_) (.cons (inBounds_dataAccess ?_) allIn_nil))
    fun _ => allIn_nil
  · rcases hsum with hsum | hzero
    · exact hsum.trans hn
    · rw [hzero]
      exact hcss.trans (by decide)
  · simp only [txDataBytes]
    omega

theorem allIn_segmentHeaderAccesses (tp : E1000Tx) : AllIn (segmentHeaderAccesses tp) := by
  have hip := tp.ipcss.isLt
  have htu := tp.tucss.isLt
  have hso := tp.tucso.isLt
  have hdata : ∀ {i n : Nat}, i ≤ 300 → n ≤ 300 → (dataAccess i n).InBounds := fun hi hn =>
    inBounds_dataAccess (by simp only [txDataBytes]; omega)
  refine .append (.append (.ite (fun _ => ?_) fun _ => ?_) (.ite (fun _ => ?_) fun _ => ?_))
    (.ite (fun _ => ?_) fun _ => allIn_nil)
  · exact .cons (hdata (by omega) (by omega)) (.cons (hdata (by omega) (by omega)) allIn_nil)
  · exact .cons (hdata (by omega) (by omega)) allIn_nil
  · exact .cons (hdata (by omega) (by omega)) (.cons (hdata (by omega) (by omega)) allIn_nil)
  · exact .cons (hdata (by omega) (by omega)) allIn_nil
  · exact .cons (hdata (by omega) (by omega)) allIn_nil

theorem allIn_sendFrameAccesses (tp : E1000Tx) : AllIn (sendFrameAccesses tp) := by
  have hsize := tp.size.isLt
  refine .ite (fun _ => ?_) fun _ => .cons (inBounds_dataAccess ?_) allIn_nil
  · refine .cons (by decide) (.cons (by decide) (.cons (by decide) (.cons (by decide)
      (.cons (by decide) (.cons ?_ allIn_nil)))))
    simp only [Access.InBounds, Arr.length, txDataBytes]
    omega
  · simp only [txDataBytes]
    omega

theorem allIn_xmitSegAccesses (fuel : Nat) (w : World) : AllIn (xmitSegAccesses fuel w) := by
  have hfinish : AllIn (finishFrameAccesses w.dev.tx) :=
    .append (.append (.ite (fun _ => allIn_segmentHeaderAccesses _) fun _ => allIn_nil)
      (.ite (fun _ => allIn_checksumAccesses _ _ _ _) fun _ => allIn_nil))
      (.ite (fun _ => allIn_checksumAccesses _ _ _ _) fun _ => allIn_nil)
  have hloop : AllIn (if test (w.dev.phyReg Phy.ctrl) miiCrLoopback then
      receiveAccesses fuel (w.setTx (frameTx w.dev.tx)) [frameSent w.dev.tx] else []) :=
    .ite (fun _ => allIn_receiveAccesses _ _ _) fun _ => allIn_nil
  exact .append (.append (.append (.append hfinish (allIn_sendFrameAccesses _))
    (allIn_cells (by decide))) hloop) (allIn_cells (by decide))

theorem allIn_headerCopyAccesses (tp : E1000Tx) : AllIn (headerCopyAccesses tp) := by
  have hlen := tp.hdrLen.isLt
  refine .cons ?_ (.cons (inBounds_dataAccess ?_) allIn_nil)
  · simp only [Access.InBounds, Arr.length]
    omega
  · simp only [txDataBytes]
    omega

theorem allIn_tsoAccesses (msh : U32) (st : TsoLoop) : AllIn (tsoAccesses msh st) :=
  .cons (inBounds_dataAccess (toNat_tsoBytes_le _ _ _))
    (.append (.ite (fun _ => allIn_headerCopyAccesses _) fun _ => allIn_nil)
      (.ite (fun _ => allIn_headerCopyAccesses _) fun _ => allIn_nil))

theorem allIn_processTxDescAccesses (fuel : Nat) (w : World) (dp : TxDesc) :
    AllIn (processTxDescAccesses fuel w dp) := by
  refine .ite (fun _ => allIn_nil) fun _ => .append (.append (allIn_cells (by decide)) ?_)
    (.flatMap fun c _ => allIn_xmitSegAccesses fuel c)
  exact .ite (fun _ => .flatMap fun st _ => allIn_tsoAccesses _ st) fun _ =>
    .ite (fun _ => allIn_nil) fun _ =>
      .cons (inBounds_dataAccess (plainBytes_le _ dp)) allIn_nil

theorem allIn_startXmitAccesses (fuel : Nat) (w : World) : AllIn (startXmitAccesses fuel w) :=
  .append (allIn_cells (by decide)) (.ite
    (fun _ => .flatMap fun _ _ => .ite (fun _ => allIn_nil) fun _ =>
      allIn_processTxDescAccesses _ _ _)
    fun _ => allIn_nil)

/-! ## The register interface stays inside -/

theorem allIn_index {index : Nat} (hindex : index < macRegs) {is : List Nat}
    (his : ∀ i ∈ is, i < macRegs) : AllIn (cells .macReg (index :: is)) :=
  allIn_cells (List.forall_mem_cons.mpr ⟨hindex, his⟩)

theorem allIn_setMdicAccesses (val : U32) : AllIn (setMdicAccesses val) := by
  have haddr := mdicAddr_lt val
  refine .append (.append (allIn_cells (by decide)) (allIn_cells (by decide)))
    (.ite (fun _ => allIn_nil) fun _ => .ite (fun _ => ?_) fun _ => allIn_nil)
  exact .append (.cons haddr (.cons haddr allIn_nil))
    (.ite (fun hop => .cons hop allIn_nil) fun _ => allIn_nil)

theorem allIn_readOpAccesses (s : E1000State) {index : Nat} (hindex : index < macRegs)
    (op : ReadOp) : AllIn (readOpAccesses s index op) := by
  cases op with
  | macReadreg => exact allIn_index hindex (by decide)
  | macReadClr4 => exact allIn_index hindex (by decide)
  | macReadClr8 =>
      refine allIn_index hindex fun i hi => ?_
      rw [List.mem_singleton.mp hi]
      exact Nat.lt_of_le_of_lt (Nat.sub_le _ _) hindex
  | macIcrRead => exact allIn_cells interruptRegs_lt
  | getEecd =>
      refine allIn_cells fun i hi => ?_
      rw [List.mem_singleton.mp hi, BitVec.toNat_and]
      exact Nat.lt_of_le_of_lt Nat.and_le_right (by decide)
  | flashEerdRead =>
      refine .append (allIn_cells (by decide)) (.ite (fun _ => allIn_nil) fun hle => ?_)
      refine allIn_cells fun i hi => ?_
      rw [List.mem_singleton.mp hi]
      exact Nat.lt_succ_of_le (Nat.le_of_not_gt hle)

theorem allIn_writeOpAccesses (fuel : Nat) (w : World) {index : Nat} (hindex : index < macRegs)
    (val : U32) (op : WriteOp) : AllIn (writeOpAccesses fuel w index val op) := by
  cases op with
  | macWritereg => exact allIn_index hindex (by decide)
  | setDlen => exact allIn_index hindex (by decide)
  | setTctl => exact .append (allIn_index hindex (by decide)) (allIn_startXmitAccesses _ _)
  | setMdic => exact allIn_setMdicAccesses val
  | setIcs => exact allIn_cells interruptRegs_lt
  | set16bit => exact allIn_index hindex (by decide)
  | setRdt => exact allIn_index hindex (by decide)
  | setImc => exact allIn_cells interruptRegs_lt
  | setIms => exact allIn_cells interruptRegs_lt
  | setIcr => exact allIn_cells interruptRegs_lt
  | setEecd => exact allIn_nil
  | setRxControl => exact allIn_cells (by decide)
  | setCtrl => exact allIn_cells (by decide)

theorem allIn_accesses (fuel : Nat) (w : World) (op : Op) : AllIn (accesses fuel w op) := by
  have hlink : AllIn linkAccesses := .append (allIn_cells (by decide)) (allIn_cells (by decide))
  cases op with
  | mmioRead addr =>
      refine .ite (fun hlt => .cons hlt ?_) fun _ => allIn_nil
      cases macregReadops (mmioIndex addr) with
      | none => exact allIn_nil
      | some op => exact allIn_readOpAccesses w.dev (mmioIndex_lt addr) op
  | mmioWrite addr val =>
      refine .append (.ite (fun hlt => .cons hlt ?_) fun _ => allIn_nil)
        (.ite (fun hlt => .cons hlt allIn_nil) fun _ => allIn_nil)
      cases macregWriteops (mmioIndex addr) with
      | none => exact allIn_nil
      | some op => exact allIn_writeOpAccesses fuel w (mmioIndex_lt addr) _ op
  | receive iov => exact allIn_receiveAccesses fuel w iov
  | linkStatus down => exact hlink
  | autonegTimer => exact hlink
  | mitTimer => exact hlink
  | preSave => exact hlink
  | reset => exact (by decide : ∀ a ∈ resetAccesses, a.InBounds)
  | guestStore mem => exact allIn_nil

/-! ## The handler tables -/

theorem inAddressTables_lt {i : Nat} (h : inAddressTables i = true) : i < Reg.swsm + 1 := by
  simp only [inAddressTables, Bool.or_eq_true, Bool.and_eq_true, decide_eq_true_eq, Reg.ra,
    Reg.mta, Reg.vfta, Reg.swsm] at h ⊢
  omega

theorem macregReadops_eq_none {i : Nat} (h : nReadops ≤ i) : macregReadops i = none := by
  have hconst : ∀ {is : List Nat}, (∀ j ∈ is, j < nReadops) → i ∉ is := fun his hi =>
    absurd (his i hi) (Nat.not_lt.mpr h)
  have hne : ∀ {j : Nat}, j < nReadops → i ≠ j := fun hj heq =>
    absurd hj (Nat.not_lt.mpr (heq ▸ h))
  have htables : inAddressTables i = false := by
    rw [← Bool.not_eq_true]
    exact fun hin => absurd (inAddressTables_lt hin) (Nat.not_lt.mpr h)
  have hstat : ¬ (Reg.crcerrs ≤ i ∧ i ≤ Reg.mpc) := fun hin =>
    absurd (Nat.le_trans h hin.2) (by decide)
  rw [macregReadops, if_neg (hconst (by decide)),
    if_neg (not_or.mpr ⟨hne (by decide), hne (by decide)⟩), if_neg (hconst (by decide)),
    if_neg (hne (by decide)), if_neg (hne (by decide)), if_neg (hne (by decide)), if_neg hstat,
    if_neg (by rw [htables]; decide)]

theorem macregWriteops_eq_none {i : Nat} (h : nWriteops ≤ i) : macregWriteops i = none := by
  have hconst : ∀ {is : List Nat}, (∀ j ∈ is, j < nWriteops) → i ∉ is := fun his hi =>
    absurd (his i hi) (Nat.not_lt.mpr h)
  have hne : ∀ {j : Nat}, j < nWriteops → i ≠ j := fun hj heq =>
    absurd hj (Nat.not_lt.mpr (heq ▸ h))
  have htables : inAddressTables i = false := by
    rw [← Bool.not_eq_true]
    exact fun hin => absurd (inAddressTables_lt hin) (Nat.not_lt.mpr h)
  rw [macregWriteops, if_neg (hconst (by decide)),
    if_neg (not_or.mpr ⟨hne (by decide), hne (by decide)⟩),
    if_neg (not_or.mpr ⟨hne (by decide), hne (by decide)⟩), if_neg (hne (by decide)),
    if_neg (hne (by decide)), if_neg (hconst (by decide)), if_neg (hne (by decide)),
    if_neg (hne (by decide)), if_neg (hne (by decide)), if_neg (hne (by decide)),
    if_neg (hne (by decide)), if_neg (hne (by decide)), if_neg (hne (by decide)),
    if_neg (by rw [htables]; decide)]

/--
Every access of every operation lies inside its array, in any state.  The tables have
no handler behind their ends, and what lies behind the other arrays is neither read
nor written: it makes no difference to an operation, and comes out as it went in.
-/
theorem index_safety (fuel : Nat) (w : World) (op : Op) :
    (∀ a ∈ accesses fuel w op, a.InBounds) ∧ (∀ a ∈ initAccesses, a.InBounds) ∧
      (∀ i, nReadops ≤ i → macregReadops i = none) ∧
      (∀ i, nWriteops ≤ i → macregWriteops i = none) ∧
      (op ≠ .reset → ∀ o, step fuel (w.over (beyond o)) op =
        (fun r => (r.1.over (beyond o), r.2)) <$> step fuel w op) :=
  ⟨allIn_accesses fuel w op, by decide, fun _ => macregReadops_eq_none,
    fun _ => macregWriteops_eq_none, fun hop o => (step_beyond o fuel hop).eq_map⟩

/-- The EEPROM word behind a read of `EECD` on a device fresh from power-on. -/
theorem index_safety_eecd :
    (⟨.eepromData, 0, 1⟩ : Access).InBounds ∧
      step 0 ((powerOn (fun _ => 0) 0 false Memory.blank).over
          (beyond ⟨fun _ => 1, fun _ => 1, fun _ => 1, ⟨fun _ => 1, fun _ => 1, fun _ => 1,
            fun _ => 1⟩⟩)) (.mmioRead 0x10) =
        (fun r => (r.1.over (beyond ⟨fun _ => 1, fun _ => 1, fun _ => 1,
          ⟨fun _ => 1, fun _ => 1, fun _ => 1, fun _ => 1⟩⟩), r.2)) <$>
          step 0 (powerOn (fun _ => 0) 0 false Memory.blank) (.mmioRead 0x10) :=
  ⟨(index_safety 0 (powerOn (fun _ => 0) 0 false Memory.blank) (.mmioRead 0x10)).1 _
      (by decide +kernel),
    (index_safety 0 (powerOn (fun _ => 0) 0 false Memory.blank) (.mmioRead 0x10)).2.2.2.2
      (by simp) _⟩

end SE4VM.E1000
