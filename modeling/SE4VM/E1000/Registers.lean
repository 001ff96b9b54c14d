import SE4VM.Foundation.Memory

/-!
# Register map of the e1000 device model

Indices into `mac_reg` are byte offsets divided by four, as `defreg` computes
them.  Masks keep the field names of `e1000_regs.h`.
-/

namespace SE4VM.E1000

open SE4VM.Foundation

/-- The C condition `if (v & mask)`. -/
def test {n : Nat} (v mask : BitVec n) : Bool := v &&& mask != 0

theorem test_and_not {n : Nat} (v mask : BitVec n) : test (v &&& ~~~mask) mask = false := by
  have hzero : v &&& ~~~mask &&& mask = 0#n := by
    ext i hi
    simp only [BitVec.getElem_and, BitVec.getElem_not, BitVec.getElem_zero]
    cases v[i] <;> cases mask[i] <;> rfl
  simp [test, hzero]

theorem test_or_self {n : Nat} (v : BitVec n) {mask : BitVec n} (h : mask ≠ 0#n) :
    test (v ||| mask) mask = true := by
  have hmask : (v ||| mask) &&& mask = mask := by
    ext i hi
    simp only [BitVec.getElem_and, BitVec.getElem_or]
    cases v[i] <;> cases mask[i] <;> rfl
  simp [test, hmask, h]

theorem and_not_ne_self_iff {n : Nat} (v mask : BitVec n) :
    v &&& ~~~mask ≠ v ↔ test v mask = true := by
  rw [test, bne_iff_ne, not_iff_not]
  constructor
  · intro h
    rw [← h, BitVec.and_assoc, BitVec.and_comm (~~~mask), BitVec.and_not_self]
    exact BitVec.and_zero
  · intro h
    calc v &&& ~~~mask = (v &&& ~~~mask) ||| (v &&& mask) := by rw [h]; exact BitVec.or_zero.symm
      _ = v &&& BitVec.allOnes n := by
        rw [← BitVec.and_or_distrib_left, BitVec.or_comm, BitVec.or_not_self]
      _ = v := BitVec.and_allOnes

theorem or_ne_self_iff {n : Nat} (v : BitVec n) (i : Fin n) :
    v ||| BitVec.twoPow n i ≠ v ↔ test v (BitVec.twoPow n i) = false := by
  have hbit : (BitVec.twoPow n i).getLsbD i = true := by simp
  rw [← Bool.not_eq_true, not_iff_not]
  constructor
  · intro h
    rw [← h]
    refine test_or_self v fun hzero => ?_
    rw [hzero] at hbit
    simp at hbit
  · intro h
    rw [test, bne_iff_ne, BitVec.and_twoPow] at h
    ext j hj
    by_cases hij : j = i <;> simp_all [BitVec.getLsbD]

theorem test_twoPow {n : Nat} (v : BitVec n) (i : Fin n) :
    test v (BitVec.twoPow n i) = v.getLsbD i := by
  have hbit : (BitVec.twoPow n i).getLsbD i = true := by simp
  have hne : BitVec.twoPow n i ≠ 0#n := fun hzero => by
    rw [hzero] at hbit
    simp at hbit
  rw [test, BitVec.and_twoPow]
  cases v.getLsbD i with
  | true => exact bne_iff_ne.mpr hne
  | false => exact bne_self_eq_false _

theorem and_and_of_subset {n : Nat} (v : BitVec n) {a mask : BitVec n} (h : a &&& mask = mask) :
    v &&& a &&& mask = v &&& mask := by
  rw [BitVec.and_assoc, h]

theorem or_and_of_disjoint {n : Nat} (v : BitVec n) {a mask : BitVec n}
    (h : a &&& mask = 0#n) : (v ||| a) &&& mask = v &&& mask := by
  rw [BitVec.and_comm, BitVec.and_or_distrib_left, BitVec.and_comm mask a, h, BitVec.or_zero,
    BitVec.and_comm]

/-! ## Indices into `mac_reg` -/

namespace Reg

abbrev ctrl : Nat := 0x0000 / 4
abbrev status : Nat := 0x0008 / 4
abbrev eecd : Nat := 0x0010 / 4
abbrev eerd : Nat := 0x0014 / 4
abbrev mdic : Nat := 0x0020 / 4
abbrev vet : Nat := 0x0038 / 4
abbrev icr : Nat := 0x00C0 / 4
abbrev itr : Nat := 0x00C4 / 4
abbrev ics : Nat := 0x00C8 / 4
abbrev ims : Nat := 0x00D0 / 4
abbrev imc : Nat := 0x00D8 / 4
abbrev rctl : Nat := 0x0100 / 4
abbrev tctl : Nat := 0x0400 / 4
abbrev ledctl : Nat := 0x0E00 / 4
abbrev pba : Nat := 0x1000 / 4
abbrev rdbal : Nat := 0x2800 / 4
abbrev rdbah : Nat := 0x2804 / 4
abbrev rdlen : Nat := 0x2808 / 4
abbrev rdh : Nat := 0x2810 / 4
abbrev rdt : Nat := 0x2818 / 4
abbrev rdtr : Nat := 0x2820 / 4
abbrev radv : Nat := 0x282C / 4
abbrev tdbal : Nat := 0x3800 / 4
abbrev tdbah : Nat := 0x3804 / 4
abbrev tdlen : Nat := 0x3808 / 4
abbrev tdh : Nat := 0x3810 / 4
abbrev tdt : Nat := 0x3818 / 4
abbrev txdctl : Nat := 0x3828 / 4
abbrev tadv : Nat := 0x382C / 4
abbrev crcerrs : Nat := 0x4000 / 4
abbrev mpc : Nat := 0x4010 / 4
abbrev gprc : Nat := 0x4074 / 4
abbrev gptc : Nat := 0x4080 / 4
abbrev torl : Nat := 0x40C0 / 4
abbrev torh : Nat := 0x40C4 / 4
abbrev totl : Nat := 0x40C8 / 4
abbrev toth : Nat := 0x40CC / 4
abbrev tpr : Nat := 0x40D0 / 4
abbrev tpt : Nat := 0x40D4 / 4
abbrev mta : Nat := 0x5200 / 4
abbrev ra : Nat := 0x5400 / 4
abbrev vfta : Nat := 0x5600 / 4
abbrev wufc : Nat := 0x5808 / 4
abbrev manc : Nat := 0x5820 / 4
abbrev swsm : Nat := 0x5B50 / 4

end Reg

/-! ## Masks of the MAC registers -/

def ctrlSlu : U32 := 0x00000040
def ctrlSpd1000 : U32 := 0x00000200
def ctrlSwdpin0 : U32 := 0x00040000
def ctrlSwdpin2 : U32 := 0x00100000
def ctrlRst : U32 := 0x04000000
def ctrlVme : U32 := 0x40000000

def statusFd : U32 := 0x00000001
def statusLu : U32 := 0x00000002
def statusSpeed1000 : U32 := 0x00000080
def statusAsdv : U32 := 0x00000300
def statusMtxckok : U32 := 0x00000400
def statusGioMasterEnable : U32 := 0x00080000

def eecdSk : U32 := 0x00000001
def eecdCs : U32 := 0x00000002
def eecdDi : U32 := 0x00000004
def eecdDo : U32 := 0x00000008
def eecdFweMask : U32 := 0x00000030
def eecdReq : U32 := 0x00000040
def eecdGnt : U32 := 0x00000080
def eecdPres : U32 := 0x00000100

def eepromRwRegStart : U32 := 0x00000001
def eepromRwRegDone : U32 := 0x00000010
def eepromRwRegData : Nat := 16
def eepromRwAddrShift : Nat := 8
def eepromChecksumReg : Nat := 0x3f
def eepromReadOpcodeMicrowire : U32 := 0x6

def mdicDataMask : U32 := 0x0000ffff
def mdicRegMask : U32 := 0x001f0000
def mdicRegShift : Nat := 16
def mdicPhyMask : U32 := 0x03e00000
def mdicPhyShift : Nat := 21
def mdicOpWrite : U32 := 0x04000000
def mdicOpRead : U32 := 0x08000000
def mdicReady : U32 := 0x10000000
def mdicIntEn : U32 := 0x20000000
def mdicError : U32 := 0x40000000

def icrTxdw : U32 := 0x00000001
def icrTxqe : U32 := 0x00000002
def icrLsc : U32 := 0x00000004
def icrRxdmt0 : U32 := 0x00000010
def icrRxo : U32 := 0x00000040
def icrRxt0 : U32 := 0x00000080
def icrMdac : U32 := 0x00000200

def rctlEn : U32 := 0x00000002
def rctlSbp : U32 := 0x00000004
def rctlUpe : U32 := 0x00000008
def rctlMpe : U32 := 0x00000010
def rctlLpe : U32 := 0x00000020
def rctlRdmtsQuat : U32 := 0x00000100
def rctlMoShift : Nat := 12
def rctlBam : U32 := 0x00008000
def rctlSz2048 : U32 := 0x00000000
def rctlSz1024 : U32 := 0x00010000
def rctlSz512 : U32 := 0x00020000
def rctlSz256 : U32 := 0x00030000
def rctlSz16384 : U32 := 0x00010000
def rctlSz8192 : U32 := 0x00020000
def rctlSz4096 : U32 := 0x00030000
def rctlVfe : U32 := 0x00040000
def rctlBsex : U32 := 0x02000000
def rctlSecrc : U32 := 0x04000000

def tctlEn : U32 := 0x00000002

def rahAv : U32 := 0x80000000

def mancRmcpEn : U32 := 0x00000100
def manc0298En : U32 := 0x00000200
def mancArpEn : U32 := 0x00002000
def mancRcvTcoEn : U32 := 0x00020000
def mancEnMng2host : U32 := 0x00200000

/-! ## Masks of the descriptors -/

def txdDtypD : U32 := 0x00100000
def txdPoptsIxsm : U8 := 0x01
def txdPoptsTxsm : U8 := 0x02
def txdCmdEop : U32 := 0x01000000
def txdCmdRs : U32 := 0x08000000
def txdCmdRps : U32 := 0x10000000
def txdCmdDext : U32 := 0x20000000
def txdCmdVle : U32 := 0x40000000
def txdCmdIde : U32 := 0x80000000
def txdCmdTcp : U32 := 0x01000000
def txdCmdIp : U32 := 0x02000000
def txdCmdTse : U32 := 0x04000000
def txdStatDd : U32 := 0x00000001
def txdStatEc : U32 := 0x00000002
def txdStatLc : U32 := 0x00000004
def txdStatTu : U32 := 0x00000008

def rxdStatDd : U8 := 0x01
def rxdStatEop : U8 := 0x02
def rxdStatIxsm : U8 := 0x04
def rxdStatVp : U8 := 0x08

/-! ## The PHY -/

namespace Phy

abbrev ctrl : Nat := 0x00
abbrev status : Nat := 0x01
abbrev id1 : Nat := 0x02
abbrev id2 : Nat := 0x03
abbrev autonegAdv : Nat := 0x04
abbrev lpAbility : Nat := 0x05
abbrev t1000Ctrl : Nat := 0x09
abbrev t1000Status : Nat := 0x0A
abbrev m88SpecCtrl : Nat := 0x10
abbrev m88SpecStatus : Nat := 0x11
abbrev m88ExtSpecCtrl : Nat := 0x14
abbrev m88RxErrCntr : Nat := 0x15

end Phy

def miiCrRestartAutoNeg : U16 := 0x0200
def miiCrAutoNegEn : U16 := 0x1000
def miiCrLoopback : U16 := 0x4000
def miiSrLinkStatus : U16 := 0x0004
def miiSrAutonegComplete : U16 := 0x0020

/-! ## Compatibility flags and sizes -/

def e1000FlagAutoneg : U32 := 0x1
def e1000FlagMit : U32 := 0x2

def minBufSize : Nat := 60
def maximumEthernetVlanSize : Nat := 1522
def maximumEthernetLpeSize : Nat := 16384
def maximumEthernetHdrLen : Nat := 14 + 4

end SE4VM.E1000
