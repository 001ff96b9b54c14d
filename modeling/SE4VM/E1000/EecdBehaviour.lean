import Mathlib.Tactic.IntervalCases
import SE4VM.E1000.Eeprom
import SE4VM.Foundation.Behaviour

/-!
# EEPROM transactions that no access tells apart

Through `EECD` the guest sees the lines it drives and one data line.  Much of what a
transaction remembers never shows there: the bits of a command that cannot become a
read, the count of a deselected chip, full turns of the output position.
-/

namespace SE4VM.E1000

open SE4VM.Foundation

/-! ## What `EECD` shows -/

/-- The words as one signal, most significant bit first. -/
def dataBit (data : Nat → U16) (n : Nat) : Bool := (data (n / 16 % 64)).getLsbD (15 - n % 16)

def doBit (data : Nat → U16) (e : EecdState) : Bool :=
  !e.reading || dataBit data e.bitnumOut.toNat

def eecdView (data : Nat → U16) (e : EecdState) : U32 × Bool := (e.oldEecd, doBit data e)

theorem dataBit_periodic (data : Nat → U16) : Function.Periodic (dataBit data) 1024 := by
  intro n
  rw [dataBit, dataBit, show (n + 1024) / 16 % 64 = n / 16 % 64 by omega,
    show (n + 1024) % 16 = n % 16 by omega]

theorem dataBit_congr {data : Nat → U16} {m n : Nat} (h : m % 1024 = n % 1024) :
    dataBit data m = dataBit data n := by
  rw [← (dataBit_periodic data).map_mod_nat, h, (dataBit_periodic data).map_mod_nat]

theorem test_dataBit (data : Nat → U16) (n : U16) :
    test (data ((n >>> 4) &&& 0x3f#16).toNat >>> ((n &&& 0xf#16) ^^^ 0xf#16).toNat) 1#16 =
      dataBit data n.toNat := by
  have hlow : ∀ m < 16, m ^^^ 15 = 15 - m := by decide
  have hword : ((n >>> 4) &&& 0x3f#16).toNat = n.toNat / 16 % 64 := by
    rw [BitVec.toNat_and, BitVec.toNat_ushiftRight, Nat.shiftRight_eq_div_pow]
    exact Nat.and_two_pow_sub_one_eq_mod _ 6
  have hbit : ((n &&& 0xf#16) ^^^ 0xf#16).toNat = 15 - n.toNat % 16 := by
    have hand : (n &&& 0xf#16).toNat = n.toNat % 16 := by
      rw [BitVec.toNat_and]
      exact Nat.and_two_pow_sub_one_eq_mod _ 4
    rw [BitVec.toNat_xor, hand]
    exact hlow _ (Nat.mod_lt _ (by decide))
  rw [hword, hbit, show (1#16 : U16) = BitVec.twoPow 16 (0 : Fin 16) from rfl, test_twoPow,
    BitVec.getLsbD_ushiftRight, dataBit]
  rfl

theorem getEecd_eq (s : E1000State) :
    getEecd s = eecdPres ||| eecdGnt ||| s.eecdState.oldEecd |||
      if doBit s.eepromData s.eecdState then eecdDo else 0#32 := by
  simp only [getEecd, test_dataBit]
  change (if doBit s.eepromData s.eecdState then _ else _) = _
  cases doBit s.eepromData s.eecdState with
  | true => rfl
  | false => exact BitVec.or_zero.symm

def EecdState.Masked (e : EecdState) : Prop := e.oldEecd &&& eecdMask = e.oldEecd

theorem clockEecd_masked (e : EecdState) (v : U32) : (clockEecd e v).Masked := by
  have hold : (clockEecd e v).oldEecd = v &&& eecdMask := by
    simp only [clockEecd]
    split_ifs <;> rfl
  rw [EecdState.Masked, hold, BitVec.and_assoc, BitVec.and_self]

theorem getEecd_eq_iff {s s' : E1000State} (h : s.eecdState.Masked) (h' : s'.eecdState.Masked) :
    getEecd s' = getEecd s ↔
      eecdView s'.eepromData s'.eecdState = eecdView s.eepromData s.eecdState := by
  rw [getEecd_eq, getEecd_eq, eecdView, eecdView, Prod.mk.injEq]
  constructor
  · intro heq
    have hlines : ∀ (old : U32) (b : Bool), old &&& eecdMask = old →
        (eecdPres ||| eecdGnt ||| old ||| if b then eecdDo else 0#32) &&& eecdMask = old := by
      intro old b hold
      have hdo : (if b then eecdDo else 0#32) &&& eecdMask = 0#32 := by cases b <;> rfl
      rw [BitVec.and_or_distrib_right, BitVec.and_or_distrib_right, hdo, hold,
        show (eecdPres ||| eecdGnt) &&& eecdMask = 0#32 from rfl, BitVec.zero_or, BitVec.or_zero]
    have hdata : ∀ (old : U32) (b : Bool), old &&& eecdMask = old →
        test (eecdPres ||| eecdGnt ||| old ||| if b then eecdDo else 0#32) eecdDo = b := by
      intro old b hold
      have hclear : old &&& eecdDo = 0#32 := by
        rw [← hold, BitVec.and_assoc, show eecdMask &&& eecdDo = 0#32 from rfl, BitVec.and_zero]
      rw [test, BitVec.and_or_distrib_right, BitVec.and_or_distrib_right, hclear,
        show (eecdPres ||| eecdGnt) &&& eecdDo = 0#32 from rfl]
      cases b <;> rfl
    refine ⟨?_, ?_⟩
    · rw [← hlines s.eecdState.oldEecd (doBit s.eepromData s.eecdState) h, ← heq]
      exact (hlines _ _ h').symm
    · rw [← hdata s.eecdState.oldEecd (doBit s.eepromData s.eecdState) h, ← heq]
      exact (hdata _ _ h').symm
  · rintro ⟨hold, hdo⟩
    rw [hold, hdo]

/-! ## Bits shifted in -/

def bitsValue : List Bool → Nat
  | [] => 0
  | b :: bits => b.toNat * 2 ^ bits.length + bitsValue bits

theorem bitsValue_concat (bits : List Bool) (b : Bool) :
    bitsValue (bits ++ [b]) = 2 * bitsValue bits + b.toNat := by
  induction bits with
  | nil => simp [bitsValue]
  | cons c bits ih =>
      rw [List.cons_append, bitsValue, ih, bitsValue, List.length_append, List.length_singleton]
      ring

theorem exists_bitsValue {n m : Nat} (h : m < 2 ^ n) :
    ∃ bits : List Bool, bits.length = n ∧ bitsValue bits = m := by
  induction n generalizing m with
  | zero => exact ⟨[], rfl, by rw [bitsValue]; omega⟩
  | succ n ih =>
      obtain ⟨bits, hlen, hval⟩ := ih (Nat.mod_lt m (Nat.two_pow_pos n))
      refine ⟨decide (m / 2 ^ n = 1) :: bits, by rw [List.length_cons, hlen], ?_⟩
      have hdiv := Nat.div_add_mod' m (2 ^ n)
      have hlt : m / 2 ^ n < 2 := Nat.div_lt_of_lt_mul (by rwa [← Nat.pow_succ])
      rw [bitsValue, hlen, hval]
      by_cases hone : m / 2 ^ n = 1
      · rw [hone] at hdiv
        simpa [hone] using hdiv
      · have hzero : m / 2 ^ n = 0 := by
          generalize m / 2 ^ n = q at hlt hone
          omega
        rw [hzero] at hdiv
        simpa [hone] using hdiv

theorem toNat_shiftBit (v : U32) (di : Bool) :
    (shiftBit v di).toNat = (2 * v.toNat + di.toNat) % 2 ^ 32 := by
  have hdouble : (v <<< 1).toNat = 2 * v.toNat % 2 ^ 32 := by
    rw [BitVec.toNat_shiftLeft, Nat.shiftLeft_eq, Nat.pow_one, Nat.mul_comm]
  cases di with
  | false => exact hdouble
  | true =>
      have hand : v <<< 1 &&& 1#32 = 0#32 := by
        refine BitVec.eq_of_getLsbD_eq fun i _ => ?_
        cases i <;> simp
      have hor : v <<< 1 ||| 1#32 = v <<< 1 + 1#32 :=
        (BitVec.add_eq_or_of_and_eq_zero _ _ hand).symm
      rw [shiftBit, if_pos rfl, hor, BitVec.toNat_add, hdouble]
      simp only [BitVec.toNat_ofNat, Bool.toNat_true]
      omega

theorem foldl_shiftBit_modEq (v : U32) (bits : List Bool) :
    (bits.foldl shiftBit v).toNat ≡ v.toNat * 2 ^ bits.length + bitsValue bits [MOD 512] := by
  induction bits generalizing v with
  | nil => simp [bitsValue, Nat.ModEq]
  | cons b bits ih =>
      have hshift : (shiftBit v b).toNat ≡ 2 * v.toNat + b.toNat [MOD 512] := by
        rw [toNat_shiftBit]
        exact Nat.mod_mod_of_dvd _ (by decide)
      refine (ih (shiftBit v b)).trans ?_
      have hexpand : (2 * v.toNat + b.toNat) * 2 ^ bits.length + bitsValue bits =
          v.toNat * 2 ^ (b :: bits).length + bitsValue (b :: bits) := by
        rw [bitsValue, List.length_cons, Nat.pow_succ]
        ring
      exact hexpand ▸ (hshift.mul_right _).add_right _

theorem command_code (v : U32) :
    ((((v >>> 6) &&& 7#32) == eepromReadOpcodeMicrowire) =
        decide (v.toNat % 512 / 64 = 6)) ∧
      ((((v &&& 0x3f#32) <<< 4) - 1#32).setWidth 16 + 1#16).toNat = 16 * (v.toNat % 64) := by
  have hop : ((v >>> 6) &&& 7#32).toNat = v.toNat / 64 % 8 := by
    rw [BitVec.toNat_and, BitVec.toNat_ushiftRight, Nat.shiftRight_eq_div_pow]
    exact Nat.and_two_pow_sub_one_eq_mod _ 3
  have haddr : (v &&& 0x3f#32).toNat = v.toNat % 64 := by
    rw [BitVec.toNat_and]
    exact Nat.and_two_pow_sub_one_eq_mod _ 6
  refine ⟨?_, ?_⟩
  · rw [Bool.eq_iff_iff, beq_iff_eq, decide_eq_true_iff, ← BitVec.toNat_inj, hop,
      show eepromReadOpcodeMicrowire.toNat = 6 from rfl]
    omega
  · simp only [BitVec.toNat_add, BitVec.toNat_setWidth, BitVec.toNat_sub, BitVec.toNat_shiftLeft,
      BitVec.toNat_ofNat, haddr, Nat.shiftLeft_eq]
    omega

/-! ## Clock by clock -/

/-- The guest puts a bit on the data line, raises the clock and lowers it again. -/
def pulse (e : EecdState) (di : Bool) : EecdState := (clockBit di).foldl clockEecd e

def dataLine (di : Bool) : U32 := if di then eecdCs ||| eecdDi else eecdCs

def EecdState.Ready (e : EecdState) : Prop :=
  test e.oldEecd eecdCs = true ∧ test e.oldEecd eecdSk = false

/-- The rising edges up to the one with which the chip looks at its command. -/
def EecdState.due (e : EecdState) : Nat := (65544 - e.bitnumIn.toNat) % 65536 + 1

/-- The command, once `bits` have followed those that the chip has. -/
def EecdState.code (e : EecdState) (bits : List Bool) : Nat :=
  (e.valIn.toNat * 2 ^ bits.length + bitsValue bits) % 512

theorem clockEecd_lines {e : EecdState} {old v : U32} (hold : test old eecdCs = true)
    (hv : test v eecdCs = true) :
    clockEecd { e with oldEecd := old } v =
      { (skEdge (test old eecdSk) v).foldl edgeEecd e with oldEecd := v &&& eecdMask } := by
  rw [clockEecd_selected hold hv, foldl_edgeEecd_oldEecd]

theorem pulse_eq {e : EecdState} (h : e.Ready) (di : Bool) :
    pulse e di = { edgeEecd (edgeEecd e (.rise di)) .fall with
      oldEecd := dataLine di } := by
  obtain ⟨hcs, hsk⟩ := h
  have hset : clockEecd e (dataLine di) = { e with oldEecd := dataLine di } := by
    rw [clockEecd_selected hcs (by cases di <;> rfl), hsk]
    cases di <;> rfl
  have hrise : clockEecd { e with oldEecd := dataLine di } (dataLine di ||| eecdSk) =
      { edgeEecd e (.rise di) with oldEecd := dataLine di ||| eecdSk } := by
    rw [clockEecd_lines (by cases di <;> rfl) (by cases di <;> rfl)]
    cases di <;> rfl
  have hfall : ∀ f : EecdState,
      clockEecd { f with oldEecd := dataLine di ||| eecdSk } (dataLine di) =
        { edgeEecd f .fall with oldEecd := dataLine di } := by
    intro f
    rw [clockEecd_lines (by cases di <;> rfl) (by cases di <;> rfl)]
    cases di <;> rfl
  change clockEecd (clockEecd (clockEecd e (dataLine di)) (dataLine di ||| eecdSk))
    (dataLine di) = _
  rw [hset, hrise, hfall]

theorem pulse_ready {e : EecdState} (h : e.Ready) (di : Bool) : (pulse e di).Ready := by
  have hline : test (dataLine di) eecdCs = true ∧ test (dataLine di) eecdSk = false := by
    cases di <;> decide
  rw [pulse_eq h]
  exact hline

theorem foldl_pulse_ready {e : EecdState} (h : e.Ready) (bits : List Bool) :
    (bits.foldl pulse e).Ready := by
  induction bits generalizing e with
  | nil => exact h
  | cons di bits ih => exact ih (pulse_ready h di)

theorem due_eq_one_iff (e : EecdState) : e.due = 1 ↔ e.bitnumIn + 1 = 9#16 := by
  have hlt := e.bitnumIn.isLt
  rw [EecdState.due, ← BitVec.toNat_inj, BitVec.toNat_add]
  simp only [BitVec.toNat_ofNat, show (1 : U16).toNat = 1 from rfl]
  omega

theorem due_le (e : EecdState) : e.due ≤ 65536 := by
  rw [EecdState.due]
  omega

theorem due_pos (e : EecdState) : 0 < e.due := Nat.succ_pos _

theorem due_inj {e e' : EecdState} (h : e'.due = e.due) : e'.bitnumIn = e.bitnumIn := by
  have hlt := e.bitnumIn.isLt
  have hlt' := e'.bitnumIn.isLt
  rw [EecdState.due, EecdState.due] at h
  exact BitVec.eq_of_toNat_eq (by omega)

theorem pulse_reading {e : EecdState} (h : e.Ready) (hread : e.reading = true) (di : Bool) :
    (pulse e di).reading = true ∧ (pulse e di).bitnumOut = e.bitnumOut + 1 := by
  rw [pulse_eq h]
  simp only [edgeEecd, hread, Bool.true_eq_false, and_false, if_false, and_self]

theorem foldl_pulse_reading {e : EecdState} (h : e.Ready) (hread : e.reading = true)
    (bits : List Bool) :
    (bits.foldl pulse e).reading = true ∧
      (bits.foldl pulse e).bitnumOut.toNat = (e.bitnumOut.toNat + bits.length) % 65536 := by
  induction bits generalizing e with
  | nil => exact ⟨hread, (Nat.mod_eq_of_lt e.bitnumOut.isLt).symm⟩
  | cons di bits ih =>
      obtain ⟨hread', hout⟩ := pulse_reading h hread di
      obtain ⟨hlast, hpos⟩ := ih (pulse_ready h di) hread'
      refine ⟨hlast, ?_⟩
      rw [List.foldl_cons, hpos, hout, BitVec.toNat_add, List.length_cons,
        show (1 : U16).toNat = 1 from rfl]
      omega

theorem pulse_collecting {e : EecdState} (h : e.Ready) (hread : e.reading = false)
    (hdue : 1 < e.due) (di : Bool) :
    (pulse e di).reading = false ∧ (pulse e di).valIn = shiftBit e.valIn di ∧
      (pulse e di).due = e.due - 1 := by
  have hnine : ¬ (e.bitnumIn + 1 = 9#16 ∧ e.reading = false) := fun hboth =>
    absurd ((due_eq_one_iff e).mpr hboth.1) (by omega)
  have hstep : (edgeEecd e (.rise di)) =
      { e with valIn := shiftBit e.valIn di, bitnumIn := e.bitnumIn + 1 } := if_neg hnine
  rw [pulse_eq h, hstep]
  refine ⟨hread, rfl, ?_⟩
  have hlt := e.bitnumIn.isLt
  simp only [EecdState.due, edgeEecd] at hdue ⊢
  rw [BitVec.toNat_add, show (1 : U16).toNat = 1 from rfl]
  omega

theorem foldl_pulse_collecting {e : EecdState} (h : e.Ready) (hread : e.reading = false)
    (bits : List Bool) (hdue : bits.length < e.due) :
    (bits.foldl pulse e).reading = false ∧
      (bits.foldl pulse e).valIn = bits.foldl shiftBit e.valIn ∧
      (bits.foldl pulse e).due = e.due - bits.length := by
  induction bits generalizing e with
  | nil => exact ⟨hread, rfl, rfl⟩
  | cons di bits ih =>
      rw [List.length_cons] at hdue ⊢
      obtain ⟨hread', hval, hdue'⟩ := pulse_collecting h hread (by omega) di
      obtain ⟨hlast, hshift, hleft⟩ := ih (pulse_ready h di) hread' (by omega)
      refine ⟨hlast, by rw [List.foldl_cons, hshift, hval, List.foldl_cons], ?_⟩
      rw [List.foldl_cons, hleft, hdue']
      omega

theorem pulse_command {e : EecdState} (h : e.Ready) (hread : e.reading = false)
    (hdue : e.due = 1) (di : Bool) :
    (pulse e di).reading = decide ((shiftBit e.valIn di).toNat % 512 / 64 = 6) ∧
      (pulse e di).bitnumOut.toNat = 16 * ((shiftBit e.valIn di).toNat % 64) ∧
      (pulse e di).due = 65536 := by
  have hnine := (due_eq_one_iff e).mp hdue
  obtain ⟨hop, haddr⟩ := command_code (shiftBit e.valIn di)
  rw [pulse_eq h]
  simp only [edgeEecd, hnine, hread, and_self, if_true]
  exact ⟨hop, haddr, rfl⟩

theorem foldl_pulse_command {e : EecdState} (h : e.Ready) (hread : e.reading = false)
    {bits : List Bool} (hdue : bits.length = e.due) :
    (bits.foldl pulse e).reading = decide (e.code bits / 64 = 6) ∧
      (bits.foldl pulse e).bitnumOut.toNat = 16 * (e.code bits % 64) ∧
      (bits.foldl pulse e).due = 65536 := by
  have hcode : (bits.foldl shiftBit e.valIn).toNat % 512 = e.code bits :=
    foldl_shiftBit_modEq e.valIn bits
  cases bits using List.reverseRecOn with
  | nil => exact absurd hdue.symm (due_pos e).ne'
  | append_singleton bits di _ =>
      rw [List.length_append, List.length_singleton] at hdue
      rw [List.foldl_append, List.foldl_cons, List.foldl_nil] at hcode ⊢
      obtain ⟨hread', hval, hdue'⟩ :=
        foldl_pulse_collecting h hread bits (by omega)
      obtain ⟨hop, haddr, hlast⟩ :=
        pulse_command (foldl_pulse_ready h bits) hread' (by omega) di
      rw [hval] at hop haddr
      refine ⟨by rw [hop, hcode], ?_, hlast⟩
      rw [haddr, ← hcode]
      omega

/-! ## Telling two transactions apart -/

/-- The bits that are still due can make the command a read. -/
def EecdState.CanRead (e : EecdState) : Prop :=
  ∃ bits : List Bool, bits.length = e.due ∧ e.code bits / 64 = 6

theorem canRead_of_due {e : EecdState} (h : 9 ≤ e.due) : e.CanRead := by
  have hroom : 2 ^ 9 ≤ 2 ^ e.due := Nat.pow_le_pow_right (by decide) h
  obtain ⟨bits, hlen, hval⟩ := exists_bitsValue (show 384 < 2 ^ e.due by omega)
  refine ⟨bits, hlen, ?_⟩
  have hzero : e.valIn.toNat * 2 ^ bits.length % 512 = 0 := by
    rw [hlen, ← Nat.sub_add_cancel h, Nat.pow_add, ← Nat.mul_assoc]
    exact Nat.mul_mod_left _ _
  rw [EecdState.code, hval]
  omega

section Apart

variable {data : Nat → U16} {e e' : EecdState}

theorem doBit_reading (h : e.Ready) (hread : e.reading = true) (bits : List Bool) :
    doBit data (bits.foldl pulse e) = dataBit data (e.bitnumOut.toNat + bits.length) := by
  obtain ⟨hread', hout⟩ := foldl_pulse_reading h hread bits
  rw [doBit, hread', hout]
  exact dataBit_congr (by omega)

theorem doBit_collecting (h : e.Ready) (hread : e.reading = false) {bits : List Bool}
    (hdue : bits.length < e.due) : doBit data (bits.foldl pulse e) = true := by
  rw [doBit, (foldl_pulse_collecting h hread _ hdue).1]
  rfl

/-- Two words in which a factory EEPROM is not the same turned by half. -/
structure HalvesDiffer (data : Nat → U16) : Prop where
  set : dataBit data 64 = true
  clear : dataBit data 576 = false

theorem HalvesDiffer.modEq (hdata : HalvesDiffer data) (h : e.Ready) (h' : e'.Ready)
    (hread : e.reading = true) (hread' : e'.reading = true)
    (hsame : SameBehaviour pulse (doBit data) e e') :
    e.bitnumOut.toNat ≡ e'.bitnumOut.toNat [MOD 1024] := by
  refine modEq_of_shift (f := dataBit data) (k := 9) (dataBit_periodic data) ?_ ?_
  · intro hhalf
    have hturn := hhalf 64
    rw [hdata.set, show 64 + 2 ^ 9 = 576 from rfl, hdata.clear] at hturn
    cases hturn
  · intro i
    have hbit := hsame (List.replicate i false)
    rwa [doBit_reading h hread, doBit_reading h' hread', List.length_replicate] at hbit

theorem HalvesDiffer.exists_clear (hdata : HalvesDiffer data) (h : e.Ready)
    (hread : e.reading = true) :
    ∃ bits : List Bool, bits.length < 1024 ∧ doBit data (bits.foldl pulse e) = false := by
  refine ⟨List.replicate ((1600 - e.bitnumOut.toNat % 1024) % 1024) false, ?_, ?_⟩
  · rw [List.length_replicate]
    omega
  · rw [doBit_reading h hread, List.length_replicate, ← hdata.clear]
    exact dataBit_congr (by omega)

theorem code_last (e : EecdState) (bits : List Bool) :
    e.code (bits ++ [true]) = e.code (bits ++ [false]) + 1 ∧
      e.code (bits ++ [false]) % 2 = 0 := by
  have heven : e.valIn.toNat * 2 ^ (bits.length + 1) = 2 * (e.valIn.toNat * 2 ^ bits.length) := by
    ring
  simp only [EecdState.code, bitsValue_concat, List.length_append, List.length_singleton, heven,
    Bool.toNat_true, Bool.toNat_false]
  omega

/-- Whether a chip reads shows sooner or later. -/
theorem HalvesDiffer.reading_eq (hdata : HalvesDiffer data) (h : e.Ready) (h' : e'.Ready)
    (hread : e.reading = true) (hsame : SameBehaviour pulse (doBit data) e e') :
    e'.reading = true := by
  by_contra hnot
  have hnot : e'.reading = false := Bool.eq_false_iff.mpr hnot
  have hpos := due_pos e'
  -- Only the last bit of the command is left open.
  let ask (b : Bool) : List Bool := List.replicate (e'.due - 1) false ++ [b]
  have hlen : ∀ b, (ask b).length = e'.due := by
    intro b
    simp only [ask, List.length_append, List.length_replicate, List.length_singleton]
    omega
  have hstill : ∀ b, ((ask b).foldl pulse e).reading = true :=
    fun b => (foldl_pulse_reading h hread (ask b)).1
  have hanswer := fun b => foldl_pulse_command h' hnot (hlen b)
  obtain ⟨hnext, heven⟩ := code_last e' (List.replicate (e'.due - 1) false)
  by_cases hop : e'.code (ask false) / 64 = 6
  · -- Two addresses would have the same position.
    have hplace : ∀ b, e'.code (ask b) / 64 = 6 →
        e.bitnumOut.toNat + e'.due ≡ 16 * (e'.code (ask b) % 64) [MOD 1024] := by
      intro b hb
      have hboth := hdata.modEq (foldl_pulse_ready h _) (foldl_pulse_ready h' _) (hstill b)
        (by rw [(hanswer b).1, decide_eq_true hb]) (hsame.foldl (ask b))
      rw [(hanswer b).2.1, (foldl_pulse_reading h hread (ask b)).2, hlen] at hboth
      exact (Nat.mod_mod_of_dvd _ (by decide)).symm.trans hboth
    have hfalse := hplace false hop
    have htrue := hplace true (by simp only [ask] at hop ⊢; omega)
    have hcontra := hfalse.symm.trans htrue
    simp only [ask, hnext, Nat.ModEq] at hcontra
    omega
  · -- The chip goes on collecting while the other comes to a clear bit.
    obtain ⟨bits, hshort, hclear⟩ := hdata.exists_clear (foldl_pulse_ready h (ask false))
      (hstill false)
    have hquiet : doBit data (bits.foldl pulse ((ask false).foldl pulse e')) = true :=
      doBit_collecting (foldl_pulse_ready h' (ask false))
        (by rw [(hanswer false).1, decide_eq_false hop]) (by rw [(hanswer false).2.2]; omega)
    have hsee := hsame.foldl (ask false) bits
    rw [hclear, hquiet] at hsee
    cases hsee

/-- A chip that looks at its command first would show it, or wait for another one. -/
theorem HalvesDiffer.not_due_lt (hdata : HalvesDiffer data) (h : e.Ready) (h' : e'.Ready)
    (hread : e.reading = false) (hread' : e'.reading = false)
    (hsame : SameBehaviour pulse (doBit data) e e') {bits : List Bool} (hlen : bits.length = e.due)
    (hgoes : (bits.foldl pulse e').reading = true) : ¬ e'.due < e.due := by
  intro hlt
  have hle := due_le e
  have hpos := due_pos e'
  have hfirst : (bits.take e'.due).length = e'.due := by
    rw [List.length_take]
    omega
  have hsplit : bits.foldl pulse e' = (bits.drop e'.due).foldl pulse
      ((bits.take e'.due).foldl pulse e') := by
    rw [← List.foldl_append, List.take_append_drop]
  obtain ⟨-, -, hagain⟩ := foldl_pulse_command h' hread' hfirst
  have hwait := foldl_pulse_collecting h hread (bits.take e'.due) (by omega)
  cases hstart : ((bits.take e'.due).foldl pulse e').reading with
  | true =>
      have hcontra := hdata.reading_eq (foldl_pulse_ready h' _) (foldl_pulse_ready h _) hstart
        (hsame.foldl (bits.take e'.due)).symm
      rw [hwait.1] at hcontra
      cases hcontra
  | false =>
      have hidle := foldl_pulse_collecting (foldl_pulse_ready h' _) hstart
        (bits.drop e'.due) (by rw [hagain, List.length_drop]; omega)
      rw [hsplit, hidle.1] at hgoes
      cases hgoes

theorem HalvesDiffer.command_eq (hdata : HalvesDiffer data) (h : e.Ready) (h' : e'.Ready)
    (hread : e.reading = false) (hread' : e'.reading = false) (hcan : e.CanRead)
    (hsame : SameBehaviour pulse (doBit data) e e') :
    e'.due = e.due ∧
      e.valIn.toNat * 2 ^ e.due ≡ e'.valIn.toNat * 2 ^ e.due [MOD 512] := by
  obtain ⟨bits, hlen, hop⟩ := hcan
  obtain ⟨hgoes, hplace, -⟩ := foldl_pulse_command h hread hlen
  rw [decide_eq_true hop] at hgoes
  have hgoes' : (bits.foldl pulse e').reading = true :=
    hdata.reading_eq (foldl_pulse_ready h bits) (foldl_pulse_ready h' bits) hgoes
      (hsame.foldl bits)
  rcases Nat.lt_trichotomy e'.due e.due with hlt | heq | hgt
  · exact absurd hlt (hdata.not_due_lt h h' hread hread' hsame hlen hgoes')
  · obtain ⟨hlook, hplace', -⟩ := foldl_pulse_command h' hread' (hlen.trans heq.symm)
    rw [hgoes'] at hlook
    have hop' : e'.code bits / 64 = 6 := of_decide_eq_true hlook.symm
    have hmod := hdata.modEq (foldl_pulse_ready h bits) (foldl_pulse_ready h' bits) hgoes hgoes'
      (hsame.foldl bits)
    rw [hplace, hplace'] at hmod
    have hcode : e.code bits = e'.code bits := by
      simp only [Nat.ModEq] at hmod
      omega
    refine ⟨heq, ?_⟩
    rw [← hlen]
    exact Nat.ModEq.add_right_cancel' _ hcode
  · rw [(foldl_pulse_collecting h' hread' _ (by omega)).1] at hgoes'
    cases hgoes'

/-- The two chips look at their commands with the same edge, whatever these are. -/
theorem HalvesDiffer.due_eq_of_le (hdata : HalvesDiffer data) (h : e.Ready) (h' : e'.Ready)
    (hread : e.reading = false) (hread' : e'.reading = false) (hle : e'.due ≤ e.due)
    (hsame : SameBehaviour pulse (doBit data) e e') : e'.due = e.due := by
  by_cases hcan : e.CanRead
  · exact (hdata.command_eq h h' hread hread' hcan hsame).1
  by_cases hcan' : e'.CanRead
  · exact (hdata.command_eq h' h hread' hread hcan' hsame.symm).1.symm
  -- Neither command is a read; after both the chips start anew.
  have hshort : e.due < 9 := Nat.lt_of_not_le fun hle => hcan (canRead_of_due hle)
  let ask : List Bool := List.replicate e.due false
  have hlen : ask.length = e.due := List.length_replicate
  have hnone : e.code ask / 64 ≠ 6 := fun hop => hcan ⟨ask, hlen, hop⟩
  obtain ⟨hlook, -, hagain⟩ := foldl_pulse_command h hread hlen
  rw [decide_eq_false hnone] at hlook
  have hfirst : (ask.take e'.due).length = e'.due := by
    rw [List.length_take, hlen]
    omega
  have hnone' : e'.code (ask.take e'.due) / 64 ≠ 6 := fun hop => hcan' ⟨_, hfirst, hop⟩
  obtain ⟨hlook', -, hagain'⟩ := foldl_pulse_command h' hread' hfirst
  rw [decide_eq_false hnone'] at hlook'
  have hrest : (ask.drop e'.due).length < ((ask.take e'.due).foldl pulse e').due := by
    rw [hagain', List.length_drop, hlen]
    omega
  obtain ⟨hidle, -, hleft⟩ := foldl_pulse_collecting (foldl_pulse_ready h' _) hlook' _ hrest
  rw [← List.foldl_append, List.take_append_drop] at hidle hleft
  rw [hagain', List.length_drop, hlen] at hleft
  have hboth := (hdata.command_eq (foldl_pulse_ready h ask) (foldl_pulse_ready h' ask) hlook hidle
    (canRead_of_due (by rw [hagain]; decide)) (hsame.foldl ask)).1
  rw [hleft, hagain] at hboth
  omega

theorem HalvesDiffer.bitnumIn_eq (hdata : HalvesDiffer data) (h : e.Ready) (h' : e'.Ready)
    (hread : e.reading = false) (hread' : e'.reading = false)
    (hsame : SameBehaviour pulse (doBit data) e e') : e'.bitnumIn = e.bitnumIn := by
  rcases Nat.le_total e'.due e.due with hle | hle
  · exact due_inj (hdata.due_eq_of_le h h' hread hread' hle hsame)
  · exact (due_inj (hdata.due_eq_of_le h' h hread' hread hle hsame.symm)).symm

end Apart

/-! ## What two transactions have to share -/

/-- The bits that the chip has are the first ones of a command `110aaaaaa`. -/
def EecdState.BeginsRead (e : EecdState) : Prop :=
  ∃ a < 64, e.valIn.toNat % 2 ^ e.bitnumIn.toNat = (6 * 64 + a) / 2 ^ (9 - e.bitnumIn.toNat)

/-- Two selected chips: where the one puts out its words and what the other may still read. -/
structure SamePhase (e e' : EecdState) : Prop where
  reading : e'.reading = e.reading
  position : e.reading = true → e'.bitnumOut.toNat % 1024 = e.bitnumOut.toNat % 1024
  count : e.reading = false → e'.bitnumIn = e.bitnumIn
  command : e.reading = false → e.bitnumIn.toNat ≤ 8 → e.BeginsRead ∨ e'.BeginsRead →
    e'.valIn.toNat % 2 ^ e.bitnumIn.toNat = e.valIn.toNat % 2 ^ e.bitnumIn.toNat

/-- A deselected chip keeps no more than the bit on its data line. -/
structure SameTransaction (data : Nat → U16) (e e' : EecdState) : Prop where
  lines : e'.oldEecd = e.oldEecd
  deselected : test e.oldEecd eecdCs = false → doBit data e' = doBit data e
  selected : test e.oldEecd eecdCs = true → SamePhase e e'

theorem SamePhase.refl (e : EecdState) : SamePhase e e :=
  ⟨rfl, fun _ => rfl, fun _ => rfl, fun _ _ _ => rfl⟩

theorem SamePhase.doBit_eq {e e' : EecdState} (h : SamePhase e e') (data : Nat → U16) :
    doBit data e' = doBit data e := by
  rw [doBit, doBit, h.reading]
  cases hread : e.reading with
  | false => rfl
  | true => rw [dataBit_congr (h.position hread)]

theorem SamePhase.fall {e e' : EecdState} (h : SamePhase e e') :
    SamePhase (edgeEecd e .fall) (edgeEecd e' .fall) := by
  refine ⟨h.reading, fun hread => ?_, h.count, h.command⟩
  have hpos := h.position hread
  simp only [edgeEecd, BitVec.toNat_add, show (1 : U16).toNat = 1 from rfl]
  omega

theorem toNat_succ {k : U16} (h : k.toNat ≤ 8) : (k + 1).toNat = k.toNat + 1 := by
  rw [BitVec.toNat_add, show (1 : U16).toNat = 1 from rfl, Nat.mod_eq_of_lt (by omega)]

theorem toNat_shiftBit_mod (v : U32) (di : Bool) {k : Nat} (hk : k ≤ 8) :
    (shiftBit v di).toNat % 2 ^ (k + 1) = 2 * (v.toNat % 2 ^ k) + di.toNat := by
  have hdi := Bool.toNat_le di
  rw [toNat_shiftBit]
  interval_cases k <;> omega

theorem beginsRead_of_shift {v : U32} {di : Bool} {k a : Nat} (hk : k ≤ 8)
    (h : (shiftBit v di).toNat % 2 ^ (k + 1) = (6 * 64 + a) / 2 ^ (9 - (k + 1))) :
    v.toNat % 2 ^ k = (6 * 64 + a) / 2 ^ (9 - k) := by
  have hdi := Bool.toNat_le di
  have hpow : 2 ^ (9 - k) = 2 ^ (9 - (k + 1)) * 2 := by
    rw [← Nat.pow_succ]
    exact congrArg (2 ^ ·) (by omega)
  rw [toNat_shiftBit_mod v di hk] at h
  rw [hpow, ← Nat.div_div_eq_div_mul, ← h]
  omega

theorem toNat_succ_of_gt {k : U16} (h : ¬ k.toNat ≤ 8) (hle : (k + 1).toNat ≤ 8) :
    (k + 1).toNat = 0 := by
  have hlt := k.isLt
  rw [BitVec.toNat_add, show (1 : U16).toNat = 1 from rfl] at hle ⊢
  omega

theorem SamePhase.ninth {e e' : EecdState} (h : SamePhase e e') (hread : e.reading = false)
    (height : e.bitnumIn.toNat = 8) (di : Bool)
    (hop : (shiftBit e.valIn di).toNat % 512 / 64 = 6 ∨
      (shiftBit e'.valIn di).toNat % 512 / 64 = 6) :
    (shiftBit e'.valIn di).toNat % 512 = (shiftBit e.valIn di).toNat % 512 := by
  have hbegins : ∀ v : U32, (shiftBit v di).toNat % 512 / 64 = 6 →
      ∃ a < 64, v.toNat % 2 ^ 8 = (6 * 64 + a) / 2 ^ (9 - 8) := by
    intro v hv
    have hcode : (shiftBit v di).toNat % 2 ^ (8 + 1) =
        (6 * 64 + (shiftBit v di).toNat % 64) / 2 ^ (9 - (8 + 1)) := by
      rw [show 9 - (8 + 1) = 0 from rfl, Nat.pow_zero, Nat.div_one]
      omega
    exact ⟨_, Nat.mod_lt _ (by decide), beginsRead_of_shift (Nat.le_refl 8) hcode⟩
  have hlow := h.command hread height.le (by
    rw [EecdState.BeginsRead, EecdState.BeginsRead, h.count hread, height]
    exact hop.imp (hbegins e.valIn) (hbegins e'.valIn))
  rw [height] at hlow
  have hsame := toNat_shiftBit_mod e.valIn di (Nat.le_refl 8)
  have hsame' := toNat_shiftBit_mod e'.valIn di (Nat.le_refl 8)
  rw [hlow, ← hsame] at hsame'
  exact hsame'

theorem SamePhase.rise {e e' : EecdState} (h : SamePhase e e') (di : Bool) :
    SamePhase (edgeEecd e (.rise di)) (edgeEecd e' (.rise di)) := by
  cases hread : e.reading with
  | true =>
      have hread' := h.reading.trans hread
      simp only [edgeEecd, hread, hread', Bool.true_eq_false, and_false, if_false]
      exact ⟨rfl, fun _ => h.position hread, fun hno => Bool.noConfusion hno,
        fun hno => Bool.noConfusion hno⟩
  | false =>
      have hread' := h.reading.trans hread
      have hcount := h.count hread
      by_cases hnine : e.bitnumIn + 1 = 9#16
      · have height : e.bitnumIn.toNat = 8 := by
          have hlt := e.bitnumIn.isLt
          have hsucc := congrArg BitVec.toNat hnine
          rw [BitVec.toNat_add, show (1 : U16).toNat = 1 from rfl] at hsucc
          simp only [BitVec.toNat_ofNat] at hsucc
          omega
        have hcode := h.ninth hread height di
        obtain ⟨hop, haddr⟩ := command_code (shiftBit e.valIn di)
        obtain ⟨hop', haddr'⟩ := command_code (shiftBit e'.valIn di)
        simp only [edgeEecd, hread, hread', hcount, hnine, and_self, if_true, hop, hop']
        refine ⟨?_, fun hgo => ?_, fun _ => rfl, fun _ hle => ?_⟩
        · rw [decide_eq_decide]
          exact ⟨fun hsix => by rwa [← hcode (.inr hsix)], fun hsix => by rwa [hcode (.inl hsix)]⟩
        · have hsix := of_decide_eq_true hgo
          have hnext : ((((shiftBit e'.valIn di &&& 0x3f#32) <<< 4) - 1#32).setWidth 16 + 1#16) =
              (((shiftBit e.valIn di &&& 0x3f#32) <<< 4) - 1#32).setWidth 16 + 1#16 := by
            refine BitVec.eq_of_toNat_eq ?_
            have heq := hcode (.inl hsix)
            rw [haddr, haddr']
            omega
          exact congrArg (fun x : U16 => x.toNat % 1024) ((BitVec.add_left_inj _).mp hnext)
        · exact absurd (show 9 ≤ 8 from hle) (by decide)
      · simp only [edgeEecd, hread, hread', hcount, hnine, false_and, if_false]
        refine ⟨rfl, fun hno => Bool.noConfusion hno, fun _ => rfl, fun _ hle hbegins => ?_⟩
        by_cases hk : e.bitnumIn.toNat ≤ 8
        · have hbefore : e.BeginsRead ∨ e'.BeginsRead := by
            obtain ⟨a, ha, heq⟩ | ⟨a, ha, heq⟩ := hbegins
            · exact .inl ⟨a, ha, beginsRead_of_shift hk (toNat_succ hk ▸ heq)⟩
            · exact .inr ⟨a, ha, hcount ▸ beginsRead_of_shift hk (toNat_succ hk ▸ heq)⟩
          have hlow := h.command hread hk hbefore
          rw [toNat_succ hk, toNat_shiftBit_mod _ _ hk, toNat_shiftBit_mod _ _ hk, hlow]
        · rw [toNat_succ_of_gt hk hle, Nat.pow_zero, Nat.mod_one, Nat.mod_one]

theorem SamePhase.foldl {e e' : EecdState} (h : SamePhase e e') (es : List Edge) :
    SamePhase (es.foldl edgeEecd e) (es.foldl edgeEecd e') := by
  induction es generalizing e e' with
  | nil => exact h
  | cons edge es ih =>
      cases edge with
      | rise di => exact ih (h.rise di)
      | fall => exact ih h.fall

theorem SamePhase.oldEecd {e e' : EecdState} (h : SamePhase e e') (old old' : U32) :
    SamePhase { e with oldEecd := old } { e' with oldEecd := old' } :=
  ⟨h.reading, h.position, h.count, h.command⟩

theorem SameTransaction.clock {data : Nat → U16} {e e' : EecdState}
    (h : SameTransaction data e e') (v : U32) :
    SameTransaction data (clockEecd e v) (clockEecd e' v) := by
  cases hv : test v eecdCs with
  | false =>
      have hhold : ∀ f : EecdState, clockEecd f v = { f with oldEecd := v &&& eecdMask } := by
        intro f
        simp only [clockEecd, hv, Bool.not_false, if_true]
        rfl
      have hdo : doBit data e' = doBit data e := by
        cases hcs : test e.oldEecd eecdCs with
        | false => exact h.deselected hcs
        | true => exact (h.selected hcs).doBit_eq data
      rw [hhold, hhold]
      refine ⟨rfl, fun _ => hdo, fun hcs => ?_⟩
      have hlow : test (v &&& eecdMask) eecdCs = false := (test_oldEecd (by decide)).trans hv
      exact absurd (hlow.symm.trans hcs) (by decide)
  | true =>
      cases hcs : test e.oldEecd eecdCs with
      | false =>
          -- The same new transaction, whatever the chips kept of the old ones.
          have hcs' : test e'.oldEecd eecdCs = false := by rw [h.lines, hcs]
          have hnew : clockEecd e' v = clockEecd e v := by
            rw [clockEecd_select hcs hv, clockEecd_select hcs' hv, selectEecd, selectEecd,
              h.lines]
          rw [hnew]
          exact ⟨rfl, fun _ => rfl, fun _ => .refl _⟩
      | true =>
          have hcs' : test e'.oldEecd eecdCs = true := by rw [h.lines, hcs]
          have hphase := (h.selected hcs).foldl (skEdge (test e.oldEecd eecdSk) v)
          rw [clockEecd_selected hcs hv, clockEecd_selected hcs' hv, h.lines]
          exact ⟨rfl, fun _ => hphase.doBit_eq data, fun _ => hphase.oldEecd _ _⟩

/-! ## The two together -/

theorem due_of_le {e : EecdState} (hk : e.bitnumIn.toNat ≤ 8) :
    e.due = 9 - e.bitnumIn.toNat := by
  rw [EecdState.due]
  omega

theorem canRead_of_beginsRead {e : EecdState} (hk : e.bitnumIn.toNat ≤ 8) (h : e.BeginsRead) :
    e.CanRead := by
  obtain ⟨a, ha, hbegins⟩ := h
  obtain ⟨bits, hlen, hval⟩ := exists_bitsValue (Nat.mod_lt (6 * 64 + a) (Nat.two_pow_pos e.due))
  have hpow : 512 = 2 ^ e.bitnumIn.toNat * 2 ^ e.due := by
    rw [← Nat.pow_add, due_of_le hk, Nat.add_sub_cancel' (by omega)]
  have hhigh : e.valIn.toNat * 2 ^ e.due % 512 = (6 * 64 + a) / 2 ^ e.due * 2 ^ e.due := by
    rw [hpow, Nat.mul_mod_mul_right, hbegins, due_of_le hk]
  refine ⟨bits, hlen, ?_⟩
  have hcode : e.code bits = 6 * 64 + a := by
    rw [EecdState.code, hlen, hval, Nat.add_mod, hhigh, Nat.add_mod_mod,
      Nat.div_add_mod', Nat.mod_eq_of_lt (by omega)]
  omega

theorem low_bits_of_modEq {e e' : EecdState} (hk : e.bitnumIn.toNat ≤ 8)
    (h : e.valIn.toNat * 2 ^ e.due ≡ e'.valIn.toNat * 2 ^ e.due [MOD 512]) :
    e'.valIn.toNat % 2 ^ e.bitnumIn.toNat = e.valIn.toNat % 2 ^ e.bitnumIn.toNat := by
  have hpow : 512 = 2 ^ e.bitnumIn.toNat * 2 ^ e.due := by
    rw [← Nat.pow_add, due_of_le hk, Nat.add_sub_cancel' (by omega)]
  rw [hpow] at h
  exact ((Nat.ModEq.mul_right_cancel_iff' (Nat.two_pow_pos e.due).ne').mp h).symm

theorem clockEecd_low {e : EecdState} (hcs : test e.oldEecd eecdCs = true) :
    clockEecd e eecdCs = { e with
      bitnumOut := e.bitnumOut + (if test e.oldEecd eecdSk then 1#16 else 0#16)
      oldEecd := eecdCs } := by
  rw [clockEecd_selected hcs rfl]
  cases test e.oldEecd eecdSk with
  | true => rfl
  | false => rw [if_neg Bool.false_ne_true, BitVec.add_zero]; rfl

theorem HalvesDiffer.samePhase {data : Nat → U16} (hdata : HalvesDiffer data) {e e' : EecdState}
    (h : e.Ready) (h' : e'.Ready) (hsame : SameBehaviour pulse (doBit data) e e') :
    SamePhase e e' := by
  have hreading : e'.reading = e.reading := by
    cases hread : e.reading with
    | true => exact hdata.reading_eq h h' hread hsame
    | false =>
        cases hread' : e'.reading with
        | false => rfl
        | true => exact absurd (hdata.reading_eq h' h hread' hsame.symm) (by rw [hread]; decide)
  refine ⟨hreading, fun hread => ?_, fun hread => ?_, fun hread hk hbegins => ?_⟩
  · exact (hdata.modEq h h' hread (hreading.trans hread) hsame).symm
  · exact hdata.bitnumIn_eq h h' hread (hreading.trans hread) hsame
  · have hread' := hreading.trans hread
    have hcount := hdata.bitnumIn_eq h h' hread hread' hsame
    rcases hbegins with hbegins | hbegins
    · exact low_bits_of_modEq hk
        (hdata.command_eq h h' hread hread' (canRead_of_beginsRead hk hbegins) hsame).2
    · have hk' : e'.bitnumIn.toNat ≤ 8 := hcount ▸ hk
      have hlow := low_bits_of_modEq hk'
        (hdata.command_eq h' h hread' hread (canRead_of_beginsRead hk' hbegins) hsame.symm).2
      rw [hcount] at hlow
      exact hlow.symm

/-- No sequence of accesses tells two transactions apart that share this much, and no less. -/
theorem HalvesDiffer.sameBehaviour_iff {data : Nat → U16} (hdata : HalvesDiffer data)
    {e e' : EecdState} :
    SameBehaviour clockEecd (eecdView data) e e' ↔ SameTransaction data e e' := by
  constructor
  · intro h
    obtain ⟨hlines, hdo⟩ := Prod.mk.inj h.obs_eq
    refine ⟨hlines.symm, fun _ => hdo.symm, fun hcs => ?_⟩
    have hcs' : test e'.oldEecd eecdCs = true := by rw [← hlines, hcs]
    have hpulses : SameBehaviour pulse (doBit data) (clockEecd e eecdCs) (clockEecd e' eecdCs) :=
      ((h.foldl [eecdCs]).coarsen clockBit).map Prod.snd
    rw [clockEecd_low hcs, clockEecd_low hcs', ← hlines] at hpulses
    have hready : ∀ f : EecdState, f.oldEecd = eecdCs → f.Ready := fun f hf => by
      rw [EecdState.Ready, hf]
      decide
    have hphase := hdata.samePhase (hready _ rfl) (hready _ rfl) hpulses
    refine ⟨hphase.reading, fun hread => ?_, hphase.count, hphase.command⟩
    have hpos := hphase.position hread
    simp only [BitVec.toNat_add] at hpos
    omega
  · intro h
    refine .of_bisimulation (SameTransaction data) ?_ (fun _ _ v hr => hr.clock v) h
    intro f f' hr
    rw [eecdView, eecdView, hr.lines]
    cases hcs : test f.oldEecd eecdCs with
    | false => rw [hr.deselected hcs]
    | true => rw [(hr.selected hcs).doBit_eq data]

end SE4VM.E1000
