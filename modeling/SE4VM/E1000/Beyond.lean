import SE4VM.E1000.TxBuffers
import SE4VM.E1000.Segmentation

/-!
# What lies behind the arrays

`w.over (beyond o)` has the arrays of `w` and `o` behind each of them.  No operation
but a reset, which fills whole arrays, depends on `o` or changes it.
-/

namespace SE4VM.E1000

open SE4VM.Foundation

/-! ## Arrays and what is behind them -/

def arrayUpTo {α : Type} (f : Nat → α) (n : Nat) (rest : Nat → α) : Nat → α :=
  fun i => if i < n then f i else rest i

theorem arrayUpTo_apply {α : Type} (f : Nat → α) {n i : Nat} (rest : Nat → α) (h : i < n) :
    arrayUpTo f n rest i = f i := if_pos h

theorem update_arrayUpTo {α : Type} (f : Nat → α) {n i : Nat} (rest : Nat → α) (v : α)
    (h : i < n) :
    Function.update (arrayUpTo f n rest) i v = arrayUpTo (Function.update f i v) n rest := by
  funext j
  by_cases hj : j = i
  · rw [hj, Function.update_self, arrayUpTo_apply _ rest h, Function.update_self]
  · simp only [arrayUpTo, Function.update_of_ne hj]

structure Outside where
  macReg : Nat → U32
  phyReg : Nat → U16
  eepromData : Nat → U16
  tx : Leftovers

abbrev phyRegs : Nat := 0x20

abbrev eepromSize : Nat := 64

/-- The lengths of the buffers of `tx`. -/
abbrev txArrays : Known := ⟨txDataBytes, 256, 4, 4⟩

def aroundTx (o : Outside) (s : E1000State) : E1000State :=
  { s with
    macReg := arrayUpTo s.macReg macRegs o.macReg
    phyReg := arrayUpTo s.phyReg phyRegs o.phyReg
    eepromData := arrayUpTo s.eepromData eepromSize o.eepromData }

def beyond (o : Outside) : E1000State → E1000State := veil (aroundTx o) txArrays o.tx

section Beyond

variable (o : Outside) {w : World}

theorem aroundTx_aroundTx : AroundTx (aroundTx o) where
  disguise :=
    { macReg := fun s _ hi => arrayUpTo_apply s.macReg o.macReg hi
      linkDown := fun _ => rfl
      phyCtrl := fun s =>
        arrayUpTo_apply (n := phyRegs) (i := Phy.ctrl) s.phyReg o.phyReg (by decide)
      mitTimerOn := fun _ => rfl
      mitIrqLevel := fun _ => rfl
      mitIde := fun _ => rfl
      compatFlags := fun _ => rfl
      rxbufSize := fun _ => rfl
      rxbufMinShift := fun _ => rfl
      setReg := fun s i v hi => by
        simp only [aroundTx, update_arrayUpTo s.macReg o.macReg v hi]
      setMitTimerOn := fun _ _ => rfl
      setMitIrqLevel := fun _ _ => rfl
      setMitIde := fun _ _ => rfl }
  setTx := fun _ _ => rfl

theorem disguise_beyond : Disguise (beyond o) :=
  disguise_veil (aroundTx_aroundTx o) txArrays o.tx

theorem setTx_beyond (tp : E1000Tx) :
    (w.over (beyond o)).setTx (tp.upTo txArrays o.tx) = (w.setTx tp).over (beyond o) := rfl

/-! ## Transmission -/

theorem frameWithin_txArrays (tp : E1000Tx) : FrameWithin txArrays tp where
  data := Nat.le_of_lt tp.size.isLt
  bound := le_rfl
  headers := fun _ => by
    have hip := tp.ipcss.isLt
    have htu := tp.tucss.isLt
    have hso := tp.tucso.isLt
    refine ⟨?_, ?_, fun _ => ?_⟩
    · simp only [txDataBytes]
      omega
    · simp only [txDataBytes]
      split_ifs <;> omega
    · simp only [txDataBytes]
      omega
  tag := fun _ => ⟨by decide, by decide⟩

theorem tagged_txArrays (tp : E1000Tx) : txArrays.tagged tp = txArrays := by
  rw [Known.tagged]
  split_ifs <;> rfl

def OverBeyond (o : Outside) (w w' : World) : Prop := w' = w.over (beyond o)

theorem xmitSeg_beyond (fuel : Nat) :
    Run.Rel (OverBeyond o) (xmitSeg fuel w) (xmitSeg fuel (w.over (beyond o))) := by
  obtain ⟨rest, hroom, hrel⟩ := xmitSeg_veil (o := o.tx) (aroundTx_aroundTx o)
    (frameWithin_txArrays w.dev.tx) fuel
  rw [hroom (by decide), tagged_txArrays] at hrel
  exact hrel

theorem restoreHeader_beyond (tp : E1000Tx) :
    restoreHeader (tp.upTo txArrays o.tx) = (restoreHeader tp).upTo txArrays o.tx := by
  have hlen := tp.hdrLen.isLt
  have hmax : max txDataBytes tp.hdrLen.toNat = txDataBytes :=
    Nat.max_eq_left (by simp only [txDataBytes]; omega)
  rw [restoreHeader_upTo _ (Nat.le_of_lt hlen), hmax]

theorem append_txArrays {tp : E1000Tx} {n : Nat} (h : tp.size.toNat + n ≤ txDataBytes) :
    txArrays.append tp n = txArrays := by
  rw [Known.append, Nat.max_eq_left h]

theorem appendTso_txArrays {tp : E1000Tx} {n : Nat} (h : tp.size.toNat + n ≤ txDataBytes) :
    txArrays.appendTso tp n = txArrays := by
  have hlen := tp.hdrLen.isLt
  rw [Known.appendTso, append_txArrays h, Nat.max_eq_left (show tp.hdrLen.toNat ≤ 256 by omega),
    ite_self]

theorem flushSegment_beyond (fuel : Nat) (complete : Bool) :
    Run.Rel (OverBeyond o) (flushSegment fuel complete w)
      (flushSegment fuel complete (w.over (beyond o))) := by
  simp only [flushSegment]
  split_ifs
  · refine (xmitSeg_beyond o fuel).bind ?_
    rintro u u' rfl
    refine .ok ?_
    have hrestore := restoreHeader_beyond o u.dev.tx
    rw [OverBeyond, ← setTx_beyond, ← hrestore]
    rfl
  · exact .ok rfl

theorem tsoBody_beyond {msh : U32} {fuel : Nat} {st st' : TsoLoop}
    (hst : st' = { st with world := st.world.over (beyond o) }) :
    Run.Rel (fun x y =>
      (∃ a b, x = .next a ∧ y = .next b ∧ b = { a with world := a.world.over (beyond o) }) ∨
      (∃ a b, x = .done a ∧ y = .done b ∧ OverBeyond o a b))
      (tsoBody msh fuel st) (tsoBody msh fuel st') := by
  obtain rfl := hst
  have hbytes : tsoBytes (st.world.over (beyond o)).dev.tx msh st.splitSize =
      tsoBytes st.world.dev.tx msh st.splitSize := rfl
  have hfit := toNat_tsoBytes_le st.world.dev.tx msh st.splitSize
  have hsize : (st.world.over (beyond o)).dev.tx.size = st.world.dev.tx.size := rfl
  have hmem : (st.world.over (beyond o)).mem = st.world.mem := rfl
  have happend : ∀ chunk : List U8,
      chunk.length = (tsoBytes st.world.dev.tx msh st.splitSize).toNat →
      appendChunk (st.world.over (beyond o)).dev.tx chunk =
        (appendChunk st.world.dev.tx chunk).upTo txArrays o.tx := by
    intro chunk hchunk
    refine (appendChunk_upTo o.tx chunk (Nat.le_of_lt st.world.dev.tx.size.isLt)).trans ?_
    rw [appendTso_txArrays (by rw [hchunk]; exact hfit)]
  simp only [tsoBody, hbytes, hsize, World.fst_dmaRead, World.snd_dmaRead, hmem,
    happend _ (Memory.length_read _ _ _)]
  refine (flushSegment_beyond o (w := (st.world.emit _).setTx _) fuel _).bind ?_
  rintro u u' rfl
  split_ifs
  · exact .ok (.inl ⟨_, _, rfl, rfl, rfl⟩)
  · exact .ok (.inr ⟨_, _, rfl, rfl, rfl⟩)

theorem fetchData_beyond (fuel : Nat) (dp : TxDesc) :
    Run.Rel (OverBeyond o) (fetchData fuel w dp) (fetchData fuel (w.over (beyond o)) dp) := by
  have htse : (w.over (beyond o)).dev.tx.tse = w.dev.tx.tse := rfl
  have hcptse : (w.over (beyond o)).dev.tx.cptse = w.dev.tx.cptse := rfl
  have hplain : plainChunk (w.over (beyond o)).dev.tx
      (w.mem.read dp.bufferAddr (plainBytes w.dev.tx dp)) =
        (plainChunk w.dev.tx (w.mem.read dp.bufferAddr (plainBytes w.dev.tx dp))).upTo txArrays
          o.tx := by
    refine (plainChunk_upTo o.tx _ (Nat.le_of_lt w.dev.tx.size.isLt)).trans ?_
    rw [Memory.length_read, append_txArrays (plainBytes_le w.dev.tx dp)]
  simp only [fetchData_eq, htse, hcptse]
  split_ifs
  · exact loop_rel (fun st st' hst => tsoBody_beyond o hst) fuel rfl
  · exact .ok rfl
  · exact .ok (congrArg (World.setTx _) hplain)

theorem sendLast_beyond (fuel : Nat) :
    Run.Rel (OverBeyond o) (sendLast fuel w) (sendLast fuel (w.over (beyond o))) := by
  have htse : (w.over (beyond o)).dev.tx.tse = w.dev.tx.tse := rfl
  have hcptse : (w.over (beyond o)).dev.tx.cptse = w.dev.tx.cptse := rfl
  have hsize : (w.over (beyond o)).dev.tx.size = w.dev.tx.size := rfl
  have hlen : (w.over (beyond o)).dev.tx.hdrLen = w.dev.tx.hdrLen := rfl
  simp only [sendLast, htse, hcptse, hsize, hlen]
  split_ifs
  · exact .ok rfl
  · exact xmitSeg_beyond o fuel

theorem endPacket_beyond (fuel : Nat) :
    Run.Rel (OverBeyond o) (endPacket fuel w) (endPacket fuel (w.over (beyond o))) := by
  refine (sendLast_beyond o fuel).bind ?_
  rintro u u' rfl
  exact .ok rfl

theorem beginDesc_beyond (dp : TxDesc) :
    beginDesc (w.over (beyond o)) dp = (beginDesc w dp).over (beyond o) := by
  have hknown : txArrays.tagHeader w.dev (beganTx w dp) dp = txArrays := by
    rw [Known.tagHeader]
    split_ifs <;> rfl
  have hbegin := beginDesc_veil (K := txArrays) (o := o.tx) (aroundTx_aroundTx o) w dp
  rwa [hknown] at hbegin

theorem processTxDesc_beyond (fuel : Nat) (dp : TxDesc) :
    Run.Rel (OverBeyond o) (processTxDesc fuel w dp)
      (processTxDesc fuel (w.over (beyond o)) dp) := by
  simp only [processTxDesc, beginDesc_beyond]
  split_ifs
  · exact .ok rfl
  · refine (fetchData_beyond o fuel dp).bind ?_
    rintro u u' rfl
    exact endPacket_beyond o fuel
  · refine (fetchData_beyond o fuel dp).bind ?_
    rintro u u' rfl
    exact .ok rfl

def XmitOver (o : Outside) (st st' : XmitLoop) : Prop :=
  st' = { st with world := st.world.over (beyond o) }

theorem txHeadAddr_beyond : txHeadAddr (w.over (beyond o)) = txHeadAddr w := by
  have hbase : txDescBase (w.over (beyond o)).dev = txDescBase w.dev := by
    rw [txDescBase, show (w.over (beyond o)).dev = beyond o w.dev from rfl,
      (disguise_beyond o).macReg w.dev Reg.tdbah (by decide),
      (disguise_beyond o).macReg w.dev Reg.tdbal (by decide), txDescBase]
  rw [txHeadAddr, hbase, (disguise_beyond o).reg (by decide), txHeadAddr]

theorem finishDesc_beyond (cause : U32) (base : U64) (dp : TxDesc) :
    XmitOver o (finishDesc cause base dp w) (finishDesc cause base dp (w.over (beyond o))) := by
  have hnext : ∀ u : World,
      (u.over (beyond o)).setReg Reg.tdh (ringNext ((u.over (beyond o)).reg Reg.tdlen)
        ((u.over (beyond o)).reg Reg.tdh)) =
      (u.setReg Reg.tdh (ringNext (u.reg Reg.tdlen) (u.reg Reg.tdh))).over (beyond o) := by
    intro u
    rw [(disguise_beyond o).reg (by decide), (disguise_beyond o).reg (by decide),
      (disguise_beyond o).worldSetReg _ (by decide)]
  simp only [finishDesc, txdescWriteback]
  split_ifs
  · exact congrArg (XmitLoop.mk · _) (hnext (w.dmaWrite _ _ _))
  · exact congrArg (XmitLoop.mk · _) (hnext w)

theorem xmitBody_beyond {tdhStart : U32} {fuel : Nat} {st st' : XmitLoop}
    (hst : XmitOver o st st') :
    Run.Rel (fun x y =>
      (∃ a b, x = .next a ∧ y = .next b ∧ XmitOver o a b) ∨
      (∃ a b, x = .done a ∧ y = .done b ∧ XmitOver o a b))
      (xmitBody tdhStart fuel st) (xmitBody tdhStart fuel st') := by
  obtain rfl := hst
  have hg := disguise_beyond o
  have hmem : (st.world.over (beyond o)).mem = st.world.mem := rfl
  simp only [xmitBody, hg.reg (i := Reg.tdh) (by decide), hg.reg (i := Reg.tdt) (by decide),
    txHeadAddr_beyond, hmem]
  split_ifs
  · exact .ok (.inr ⟨_, _, rfl, rfl, rfl⟩)
  · refine (processTxDesc_beyond o (w := st.world.emit _) fuel _).bind ?_
    rintro u u' rfl
    have hfin := finishDesc_beyond o (w := u) st.cause (txHeadAddr st.world)
      (TxDesc.fetch st.world.mem (txHeadAddr st.world))
    rw [hfin, hg.reg (i := Reg.tdh) (by decide)]
    split_ifs
    · exact .ok (.inr ⟨_, _, rfl, rfl, rfl⟩)
    · exact .ok (.inl ⟨_, _, rfl, rfl, rfl⟩)

theorem startXmit_beyond (fuel : Nat) :
    Run.Rel (OverBeyond o) (startXmit fuel w) (startXmit fuel (w.over (beyond o))) := by
  have hg := disguise_beyond o
  simp only [startXmit, hg.reg (i := Reg.tctl) (by decide), hg.reg (i := Reg.tdh) (by decide)]
  split_ifs
  · refine Run.Rel.bind (loop_rel (fun st st' hst => xmitBody_beyond o hst) fuel rfl) ?_
    rintro st st' rfl
    exact .ok (hg.setIcs _)
  · exact .ok rfl

/-! ## The register interface -/

theorem mmioIndex_lt (addr : U64) : mmioIndex addr < macRegs := by
  have hand : (addr &&& 0x1ffff#64).toNat ≤ 0x1ffff := by
    rw [BitVec.toNat_and]
    exact Nat.and_le_right
  rw [mmioIndex, BitVec.toNat_ushiftRight, Nat.shiftRight_eq_div_pow]
  simp only [macRegs]
  omega

theorem phyReg_beyond (s : E1000State) {i : Nat} (hi : i < phyRegs) :
    (beyond o s).phyReg i = s.phyReg i :=
  arrayUpTo_apply s.phyReg o.phyReg hi

theorem setPhyReg_beyond (s : E1000State) {i : Nat} (v : U16) (hi : i < phyRegs) :
    { beyond o s with phyReg := Function.update (beyond o s).phyReg i v } =
      beyond o { s with phyReg := Function.update s.phyReg i v } := by
  simp only [beyond, veil, aroundTx, update_arrayUpTo s.phyReg o.phyReg v hi]

theorem e1000LinkDown_beyond (s : E1000State) :
    e1000LinkDown (beyond o s) = beyond o (e1000LinkDown s) := by
  simp only [e1000LinkDown, beyond, veil, aroundTx]
  rw [update_arrayUpTo s.macReg o.macReg _ (by decide),
    update_arrayUpTo s.phyReg o.phyReg _ (by decide), arrayUpTo_apply s.macReg _ (by decide),
    arrayUpTo_apply s.phyReg _ (by decide)]

theorem e1000LinkUp_beyond (s : E1000State) :
    e1000LinkUp (beyond o s) = beyond o (e1000LinkUp s) := by
  simp only [e1000LinkUp, beyond, veil, aroundTx]
  rw [update_arrayUpTo s.macReg o.macReg _ (by decide),
    update_arrayUpTo s.phyReg o.phyReg _ (by decide), arrayUpTo_apply s.macReg _ (by decide),
    arrayUpTo_apply s.phyReg _ (by decide)]

theorem getEecd_beyond (s : E1000State) : getEecd (beyond o s) = getEecd s := by
  have hword : ((s.eecdState.bitnumOut >>> 4) &&& 0x3f#16).toNat < eepromSize := by
    rw [BitVec.toNat_and]
    exact Nat.lt_of_le_of_lt Nat.and_le_right (by decide)
  have hcell : (beyond o s).eepromData ((s.eecdState.bitnumOut >>> 4) &&& 0x3f#16).toNat =
      s.eepromData ((s.eecdState.bitnumOut >>> 4) &&& 0x3f#16).toNat :=
    arrayUpTo_apply s.eepromData o.eepromData hword
  have heecd : (beyond o s).eecdState = s.eecdState := rfl
  simp only [getEecd, heecd, hcell]

theorem flashEerdRead_beyond (s : E1000State) : flashEerdRead (beyond o s) = flashEerdRead s := by
  have hreg := (disguise_beyond o).macReg s Reg.eerd (by decide)
  have hcell : ∀ {i : Nat}, ¬ i > eepromChecksumReg →
      (beyond o s).eepromData i = s.eepromData i := fun hi =>
    arrayUpTo_apply s.eepromData o.eepromData (Nat.lt_succ_of_le (Nat.le_of_not_gt hi))
  simp only [flashEerdRead, hreg]
  split_ifs with hstart hindex
  · rfl
  · rfl
  · rw [hcell hindex]

theorem mdicAddr_lt (val : U32) : ((val &&& mdicRegMask) >>> mdicRegShift).toNat < phyRegs := by
  have hand : (val &&& mdicRegMask).toNat ≤ 0x1f0000 := by
    rw [BitVec.toNat_and]
    exact Nat.and_le_right
  rw [BitVec.toNat_ushiftRight, Nat.shiftRight_eq_div_pow]
  simp only [mdicRegShift, phyRegs]
  omega

theorem setPhyCtrl_beyond (val : U16) :
    setPhyCtrl (w.over (beyond o)) val = (setPhyCtrl w val).over (beyond o) := by
  have hflags : (w.over (beyond o)).dev.compatFlags = w.dev.compatFlags := rfl
  have hdown : e1000LinkDown (w.over (beyond o)).dev = beyond o (e1000LinkDown w.dev) :=
    e1000LinkDown_beyond o w.dev
  simp only [setPhyCtrl, hflags, hdown]
  split_ifs
  · have hphy := setPhyReg_beyond o (e1000LinkDown w.dev)
      ((e1000LinkDown w.dev).phyReg Phy.status &&& ~~~miiSrAutonegComplete)
      (show Phy.status < phyRegs by decide)
    rw [phyReg_beyond o _ (by decide)]
    exact congrArg (fun d : E1000State => World.mk { d with autonegTimer := true } w.mem
      (.armAutonegTimer :: w.log)) hphy
  · rfl

theorem mdicCommand_beyond (val : U32) :
    mdicCommand (w.over (beyond o)) val =
      ((mdicCommand w val).1, (mdicCommand w val).2.over (beyond o)) := by
  have haddr := mdicAddr_lt val
  have hread : (w.over (beyond o)).dev.phyReg ((val &&& mdicRegMask) >>> mdicRegShift).toNat =
      w.dev.phyReg ((val &&& mdicRegMask) >>> mdicRegShift).toNat := phyReg_beyond o w.dev haddr
  have hwrite : ∀ (u : World) (v : U16),
      { u.over (beyond o) with dev := { (u.over (beyond o)).dev with
        phyReg := Function.update (u.over (beyond o)).dev.phyReg
          ((val &&& mdicRegMask) >>> mdicRegShift).toNat v } } =
      World.over { u with dev := { u.dev with
        phyReg := Function.update u.dev.phyReg
          ((val &&& mdicRegMask) >>> mdicRegShift).toNat v } } (beyond o) := fun u v =>
    congrArg (World.mk · u.mem u.log) (setPhyReg_beyond o u.dev v haddr)
  simp only [mdicCommand, (disguise_beyond o).reg (i := Reg.mdic) (by decide), hread]
  split_ifs
  · rfl
  · rfl
  · rfl
  · rw [setPhyCtrl_beyond, hwrite]
  · rw [hwrite]
  · rfl
  · rfl

theorem setMdic_beyond (val : U32) :
    setMdic (w.over (beyond o)) val = (setMdic w val).over (beyond o) := by
  simp only [setMdic, mdicCommand_beyond, (disguise_beyond o).worldSetReg (i := Reg.mdic) _
    (by decide)]
  split_ifs
  · exact (disguise_beyond o).setIcs _
  · rfl

theorem macWritereg_beyond {i : Nat} (val : U32) (hi : i < macRegs) :
    macWritereg (w.over (beyond o)) i val = (macWritereg w i val).over (beyond o) := by
  have hg := disguise_beyond o
  simp only [macWritereg, hg.worldSetReg _ hi, hg.reg (i := Reg.ra) (by decide),
    hg.reg (i := Reg.ra + 1) (by decide)]
  split_ifs <;> rfl

theorem setRxControl_beyond (val : U32) :
    setRxControl (w.over (beyond o)) val = (setRxControl w val).over (beyond o) := by
  simp only [setRxControl, (disguise_beyond o).worldSetReg (i := Reg.rctl) _ (by decide)]
  rfl

theorem setRdt_beyond {i : Nat} (val : U32) (hi : i < macRegs) :
    setRdt (w.over (beyond o)) i val = (setRdt w i val).over (beyond o) := by
  have hg := disguise_beyond o
  have hroom : ∀ u : World, e1000HasRxbufs (u.over (beyond o)).dev 1 = e1000HasRxbufs u.dev 1 :=
    fun u => hg.e1000HasRxbufs u.dev 1
  simp only [setRdt, hg.worldSetReg _ hi, hroom]
  split_ifs <;> rfl

theorem runReadOp_beyond (op : ReadOp) {i : Nat} (hi : i < macRegs) :
    runReadOp op (w.over (beyond o)) i =
      ((runReadOp op w i).1.over (beyond o), (runReadOp op w i).2) := by
  have hg := disguise_beyond o
  cases op with
  | macReadreg => simp only [runReadOp, hg.reg hi]
  | macReadClr4 => simp only [runReadOp, hg.reg hi, hg.worldSetReg _ hi]
  | macReadClr8 =>
      simp only [runReadOp, hg.reg hi, hg.worldSetReg _ hi,
        hg.worldSetReg _ (Nat.lt_of_le_of_lt (Nat.sub_le i 1) hi)]
  | macIcrRead => simp only [runReadOp, hg.reg (i := Reg.icr) (by decide), hg.setInterruptCause]
  | getEecd => exact congrArg (Prod.mk _) (getEecd_beyond o w.dev)
  | flashEerdRead => exact congrArg (Prod.mk _) (flashEerdRead_beyond o w.dev)

theorem runWriteOp_beyond (fuel : Nat) (op : WriteOp) {i : Nat} (val : U32) (hi : i < macRegs) :
    Run.Rel (OverBeyond o) (runWriteOp fuel op w i val)
      (runWriteOp fuel op (w.over (beyond o)) i val) := by
  have hg := disguise_beyond o
  cases op with
  | macWritereg => exact .ok (macWritereg_beyond o val hi)
  | setDlen => exact .ok (hg.worldSetReg _ hi)
  | setTctl =>
      simp only [runWriteOp, setTctl, hg.worldSetReg _ hi,
        hg.bump (i := Reg.tdt) (by decide) (· &&& 0xffff#32)]
      exact startXmit_beyond o fuel
  | setMdic => exact .ok (setMdic_beyond o val)
  | setIcs => exact .ok (hg.setIcs val)
  | set16bit => exact .ok (hg.worldSetReg _ hi)
  | setRdt => exact .ok (setRdt_beyond o val hi)
  | setImc =>
      refine .ok ?_
      rw [OverBeyond, setImc, hg.bump (by decide) (· &&& ~~~val), hg.setIcs, setImc]
  | setIms =>
      refine .ok ?_
      rw [OverBeyond, setIms, hg.bump (by decide) (· ||| val), hg.setIcs, setIms]
  | setIcr =>
      refine .ok ?_
      rw [OverBeyond, setIcr, hg.reg (by decide), hg.setInterruptCause, setIcr]
  | setEecd => exact .ok rfl
  | setRxControl => exact .ok (setRxControl_beyond o val)
  | setCtrl => exact .ok (hg.worldSetReg _ (by decide))

/-! ## Host events -/

theorem e1000SetLinkStatus_beyond (down : Bool) :
    e1000SetLinkStatus (w.over (beyond o)) down =
      (e1000SetLinkStatus w down).over (beyond o) := by
  have hg := disguise_beyond o
  let notify (old : U32) (u : World) : World :=
    if u.reg Reg.status ≠ old then setIcs u icrLsc else u
  have hnotify : ∀ u : World, notify ((w.over (beyond o)).reg Reg.status) (u.over (beyond o)) =
      (notify (w.reg Reg.status) u).over (beyond o) := by
    intro u
    simp only [notify, hg.reg (i := Reg.status) (by decide)]
    split_ifs
    · exact hg.setIcs _
    · rfl
  cases down with
  | true =>
      have hlink := e1000LinkDown_beyond o { w.dev with linkDown := true }
      exact (congrArg (fun d => notify _ (World.mk d w.mem w.log)) hlink).trans
        (hnotify { w with dev := e1000LinkDown { w.dev with linkDown := true } })
  | false =>
      have hlink := e1000LinkUp_beyond o { w.dev with linkDown := false }
      exact (congrArg (fun d => notify _ (World.mk d w.mem w.log)) hlink).trans
        (hnotify { w with dev := e1000LinkUp { w.dev with linkDown := false } })

def autonegComplete (s : E1000State) : E1000State :=
  { s with
    phyReg := Function.update s.phyReg Phy.status
      (s.phyReg Phy.status ||| miiSrAutonegComplete) }

theorem autonegComplete_beyond (s : E1000State) :
    autonegComplete (beyond o s) = beyond o (autonegComplete s) := by
  rw [autonegComplete, phyReg_beyond o s (by decide)]
  exact setPhyReg_beyond o s _ (by decide)

theorem e1000AutonegTimer_beyond :
    e1000AutonegTimer (w.over (beyond o)) = (e1000AutonegTimer w).over (beyond o) := by
  have hup : (if w.dev.linkDown then beyond o { w.dev with autonegTimer := false }
      else e1000LinkUp (beyond o { w.dev with autonegTimer := false })) =
      beyond o (if w.dev.linkDown then { w.dev with autonegTimer := false }
        else e1000LinkUp { w.dev with autonegTimer := false }) := by
    split_ifs
    · rfl
    · exact e1000LinkUp_beyond o _
  exact congrArg (World.mk · w.mem w.log)
    ((congrArg autonegComplete hup).trans (autonegComplete_beyond o _))

theorem e1000MitTimer_beyond :
    e1000MitTimer (w.over (beyond o)) = (e1000MitTimer w).over (beyond o) := by
  have hg := disguise_beyond o
  rw [e1000MitTimer, hg.reg (by decide)]
  exact hg.setInterruptCause (w := { w with dev := { w.dev with mitTimerOn := false } }) _

theorem e1000PreSave_beyond :
    e1000PreSave (w.over (beyond o)) = (e1000PreSave w).over (beyond o) := by
  have hflush : (if w.dev.mitTimerOn then e1000MitTimer (w.over (beyond o))
      else w.over (beyond o)) =
      (if w.dev.mitTimerOn then e1000MitTimer w else w).over (beyond o) := by
    split_ifs
    · exact e1000MitTimer_beyond o
    · rfl
  let settle (u : World) : World :=
    if test u.dev.compatFlags e1000FlagAutoneg && u.dev.linkDown && autonegPending u.dev then
      { u with dev := autonegComplete u.dev }
    else u
  have hsettle : ∀ u : World, settle (u.over (beyond o)) = (settle u).over (beyond o) := by
    intro u
    have hpending : autonegPending (u.over (beyond o)).dev = autonegPending u.dev := by
      have hctrl : (u.over (beyond o)).dev.phyReg Phy.ctrl = u.dev.phyReg Phy.ctrl :=
        phyReg_beyond o u.dev (by decide)
      rw [autonegPending, hctrl, autonegPending]
    have hflags : (u.over (beyond o)).dev.compatFlags = u.dev.compatFlags := rfl
    have hdown : (u.over (beyond o)).dev.linkDown = u.dev.linkDown := rfl
    simp only [settle, hpending, hflags, hdown]
    split_ifs
    · exact congrArg (World.mk · u.mem u.log) (autonegComplete_beyond o u.dev)
    · rfl
  exact (congrArg settle hflush).trans (hsettle _)

/-! ## Whole operations -/

/-- No operation but a reset reads or writes behind an array. -/
theorem step_beyond (fuel : Nat) {op : Op} (hop : op ≠ .reset) :
    Run.Rel (fun r r' => r' = (r.1.over (beyond o), r.2)) (step fuel w op)
      (step fuel (w.over (beyond o)) op) := by
  cases op with
  | mmioRead addr =>
      simp only [step, e1000MmioRead]
      cases macregReadops (mmioIndex addr) with
      | none => exact .ok rfl
      | some op =>
          simp only [runReadOp_beyond o op (mmioIndex_lt addr)]
          exact .ok rfl
  | mmioWrite addr val =>
      simp only [step, e1000MmioWrite]
      cases macregWriteops (mmioIndex addr) with
      | none => exact .ok rfl
      | some op =>
          refine (runWriteOp_beyond o fuel op _ (mmioIndex_lt addr)).bind ?_
          rintro u u' rfl
          exact .ok rfl
  | receive iov =>
      refine ((disguise_beyond o).e1000ReceiveIov fuel iov).bind ?_
      rintro r r' rfl
      exact .ok rfl
  | linkStatus down => exact .ok (congrArg (Prod.mk · _) (e1000SetLinkStatus_beyond o down))
  | autonegTimer => exact .ok (congrArg (Prod.mk · _) (e1000AutonegTimer_beyond o))
  | mitTimer => exact .ok (congrArg (Prod.mk · _) (e1000MitTimer_beyond o))
  | preSave => exact .ok (congrArg (Prod.mk · _) (e1000PreSave_beyond o))
  | reset => exact absurd rfl hop
  | guestStore mem => exact .ok rfl

end Beyond

end SE4VM.E1000
