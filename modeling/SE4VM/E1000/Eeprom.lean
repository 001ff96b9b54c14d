import Mathlib.Data.List.Induction
import SE4VM.E1000.Device

/-!
# Two ways to read the EEPROM

Through `EECD` the guest clocks a command of nine bits in and the words out, one
bit for each falling edge.  Through `EERD` it asks for one word by its address.
-/

namespace SE4VM.E1000

open SE4VM.Foundation

/-! ## Clock edges -/

inductive Edge where
  | rise (di : Bool)
  | fall
  deriving DecidableEq, Repr

/-- What a write does to a clock that stands at `sk`. -/
def skEdge (sk : Bool) (v : U32) : List Edge :=
  if test v eecdSk = sk then []
  else if test v eecdSk then [.rise (test v eecdDi)] else [.fall]

def skEdges : Bool → List U32 → List Edge
  | _, [] => []
  | sk, v :: vs => skEdge sk v ++ skEdges (test v eecdSk) vs

def risingBits (es : List Edge) : List Bool :=
  es.filterMap fun
    | .rise di => some di
    | .fall => none

/-- The number of falling edges that follow the `k`-th rising one. -/
def fallsAfter : Nat → List Edge → Nat
  | _, [] => 0
  | 0, .rise _ :: es => fallsAfter 0 es
  | 0, .fall :: es => fallsAfter 0 es + 1
  | k + 1, .rise _ :: es => fallsAfter k es
  | k + 1, .fall :: es => fallsAfter (k + 1) es

theorem risingBits_append (es es' : List Edge) :
    risingBits (es ++ es') = risingBits es ++ risingBits es' := List.filterMap_append

theorem risingBits_rise (di : Bool) (es : List Edge) :
    risingBits (.rise di :: es) = di :: risingBits es := rfl

theorem fallsAfter_eq_zero {k : Nat} {es : List Edge} (h : (risingBits es).length < k) :
    fallsAfter k es = 0 := by
  induction es generalizing k with
  | nil => cases k <;> rfl
  | cons edge es ih =>
      cases k with
      | zero => exact absurd h (Nat.not_lt_zero _)
      | succ k =>
          cases edge with
          | rise di => exact ih (Nat.lt_of_succ_lt_succ h)
          | fall => exact ih h

theorem fallsAfter_rise (k : Nat) (es : List Edge) (di : Bool) :
    fallsAfter k (es ++ [.rise di]) = fallsAfter k es := by
  induction es generalizing k with
  | nil => rcases k with _ | _ | k <;> rfl
  | cons edge es ih => cases k <;> cases edge <;> simp only [List.cons_append, fallsAfter, ih]

theorem fallsAfter_fall (k : Nat) (es : List Edge) :
    fallsAfter k (es ++ [.fall]) =
      fallsAfter k es + if k ≤ (risingBits es).length then 1 else 0 := by
  induction es generalizing k with
  | nil => cases k <;> rfl
  | cons edge es ih =>
      cases k with
      | zero =>
          cases edge with
          | rise di =>
              simp only [List.cons_append, fallsAfter, ih, Nat.zero_le, if_true]
          | fall =>
              simp only [List.cons_append, fallsAfter, ih, Nat.zero_le, if_true]
      | succ k =>
          cases edge with
          | rise di =>
              simp only [List.cons_append, fallsAfter, ih, risingBits_rise, List.length_cons,
                Nat.succ_le_succ_iff]
          | fall => exact ih (k + 1)

/-! ## The transaction, edge by edge -/

def shiftBit (valIn : U32) (di : Bool) : U32 :=
  if di then valIn <<< 1 ||| 1#32 else valIn <<< 1

def edgeEecd (e : EecdState) : Edge → EecdState
  | .fall => { e with bitnumOut := e.bitnumOut + 1 }
  | .rise di =>
      let valIn := shiftBit e.valIn di
      let e : EecdState := { e with valIn := valIn, bitnumIn := e.bitnumIn + 1 }
      if e.bitnumIn = 9#16 ∧ e.reading = false then
        { e with
          bitnumOut := (((valIn &&& 0x3f#32) <<< 4) - 1#32).setWidth 16
          reading := ((valIn >>> 6) &&& 7#32) == eepromReadOpcodeMicrowire }
      else e

def eecdMask : U32 := eecdSk ||| eecdCs ||| eecdDi ||| eecdFweMask ||| eecdReq

def selectEecd (e : EecdState) : EecdState := ⟨0, 0, 0, false, e.oldEecd⟩

theorem edgeEecd_oldEecd (e : EecdState) (old : U32) (edge : Edge) :
    edgeEecd { e with oldEecd := old } edge = { edgeEecd e edge with oldEecd := old } := by
  cases edge with
  | fall => rfl
  | rise di =>
      simp only [edgeEecd]
      split_ifs <;> rfl

theorem foldl_edgeEecd_oldEecd (e : EecdState) (old : U32) (es : List Edge) :
    es.foldl edgeEecd { e with oldEecd := old } =
      { es.foldl edgeEecd e with oldEecd := old } := by
  induction es generalizing e with
  | nil => rfl
  | cons edge es ih => rw [List.foldl_cons, edgeEecd_oldEecd, ih, List.foldl_cons]

theorem test_xor {v v' : U32} (i : Fin 32) :
    test (v ^^^ v') (BitVec.twoPow 32 i) =
      (test v (BitVec.twoPow 32 i) != test v' (BitVec.twoPow 32 i)) := by
  rw [test_twoPow, test_twoPow, test_twoPow, BitVec.getLsbD_xor]

/-- A write while the chip is selected. -/
theorem clockEecd_selected {e : EecdState} {v : U32} (hold : test e.oldEecd eecdCs = true)
    (hv : test v eecdCs = true) :
    clockEecd e v =
      { (skEdge (test e.oldEecd eecdSk) v).foldl edgeEecd e with oldEecd := v &&& eecdMask } := by
  have hcs : test (v ^^^ e.oldEecd) eecdCs = false := by
    rw [show eecdCs = BitVec.twoPow 32 (1 : Fin 32) from rfl] at hold hv ⊢
    rw [test_xor, hv, hold]
    rfl
  have hsk : test (v ^^^ e.oldEecd) eecdSk = (test v eecdSk != test e.oldEecd eecdSk) := by
    rw [show eecdSk = BitVec.twoPow 32 (0 : Fin 32) from rfl]
    exact test_xor _
  rw [← foldl_edgeEecd_oldEecd]
  simp only [clockEecd, hv, hcs, hsk, skEdge, eecdMask]
  cases test v eecdSk <;> cases test e.oldEecd eecdSk <;> cases test v eecdDi <;>
    simp [edgeEecd, shiftBit]

/-- The write that selects the chip starts a transaction, and may clock it at once. -/
theorem clockEecd_select {e : EecdState} {v : U32} (hold : test e.oldEecd eecdCs = false)
    (hv : test v eecdCs = true) :
    clockEecd e v =
      { (skEdge (test e.oldEecd eecdSk) v).foldl edgeEecd (selectEecd e) with
        oldEecd := v &&& eecdMask } := by
  have hcs : test (v ^^^ e.oldEecd) eecdCs = true := by
    rw [show eecdCs = BitVec.twoPow 32 (1 : Fin 32) from rfl] at hold hv ⊢
    rw [test_xor, hv, hold]
    rfl
  have hsk : test (v ^^^ e.oldEecd) eecdSk = (test v eecdSk != test e.oldEecd eecdSk) := by
    rw [show eecdSk = BitVec.twoPow 32 (0 : Fin 32) from rfl]
    exact test_xor _
  rw [← foldl_edgeEecd_oldEecd]
  simp only [clockEecd, hv, hcs, hsk, skEdge, eecdMask, selectEecd]
  cases test v eecdSk <;> cases test e.oldEecd eecdSk <;> cases test v eecdDi <;>
    simp [edgeEecd, shiftBit]

theorem test_oldEecd {v mask : U32} (h : eecdMask &&& mask = mask) :
    test (v &&& eecdMask) mask = test v mask := by
  rw [test, and_and_of_subset v h, test]

theorem foldl_clockEecd {e : EecdState} {vs : List U32} (hold : test e.oldEecd eecdCs = true)
    (hdo : test e.oldEecd eecdDo = false) (hvs : ∀ v ∈ vs, test v eecdCs = true) :
    ∃ old, vs.foldl clockEecd e =
        { (skEdges (test e.oldEecd eecdSk) vs).foldl edgeEecd e with oldEecd := old } ∧
      test old eecdDo = false := by
  induction vs generalizing e with
  | nil => exact ⟨e.oldEecd, rfl, hdo⟩
  | cons v vs ih =>
      obtain ⟨hv, hvs⟩ := List.forall_mem_cons.mp hvs
      have hmask : test (v &&& eecdMask) eecdDo = false := by
        rw [test, BitVec.and_assoc]
        exact (by rw [show eecdMask &&& eecdDo = 0#32 from rfl, BitVec.and_zero]; rfl)
      have hclock := clockEecd_selected hold hv
      obtain ⟨old, hrun, hold'⟩ := ih (e := clockEecd e v)
        (by rw [hclock]; exact (test_oldEecd (by decide)).trans hv) (by rw [hclock]; exact hmask)
        hvs
      refine ⟨old, ?_, hold'⟩
      rw [List.foldl_cons, hrun, skEdges, List.foldl_append, hclock, foldl_edgeEecd_oldEecd]
      dsimp only
      rw [test_oldEecd (by decide)]

/-! ## Sessions -/

/-- The address in six bits, most significant first. -/
def addressBits (a : Nat) : List Bool := (List.range 6).map fun i => a.testBit (5 - i)

def readCommand (a : Nat) : List Bool := [true, true, false] ++ addressBits a

theorem length_readCommand (a : Nat) : (readCommand a).length = 9 := rfl

/--
The writes select the chip and keep it selected, the first nine rising edges carry a
read command for word `a`, and `n` falling edges have followed the ninth.
-/
structure ReadSession (e : EecdState) (a n : Nat) (vals : List U32) : Prop where
  deselected : test e.oldEecd eecdCs = false
  selected : ∀ v ∈ vals, test v eecdCs = true
  command : (risingBits (skEdges (test e.oldEecd eecdSk) vals)).take 9 = readCommand a
  falls : fallsAfter 9 (skEdges (test e.oldEecd eecdSk) vals) = n

/-- Where a transaction stands: collecting the command, or putting out bits. -/
structure Clocked (a : Nat) (es : List Edge) (e : EecdState) : Prop where
  collecting : (risingBits es).length < 9 →
    e.bitnumIn.toNat = (risingBits es).length ∧ e.reading = false ∧
      e.valIn = (risingBits es).foldl shiftBit 0#32
  reading : 9 ≤ (risingBits es).length →
    e.reading = true ∧ e.bitnumOut = BitVec.ofNat 16 (16 * a + 65535 + fallsAfter 9 es)

theorem readCommand_shifted : ∀ a < 64,
    ((((readCommand a).foldl shiftBit 0#32 &&& 0x3f#32) <<< 4) - 1#32).setWidth 16 =
        BitVec.ofNat 16 (16 * a + 65535) ∧
      ((((readCommand a).foldl shiftBit 0#32 >>> 6) &&& 7#32) == eepromReadOpcodeMicrowire) =
        true := by
  decide +kernel

theorem clocked_fall {a : Nat} {es : List Edge} {e : EecdState} (h : Clocked a es e) :
    Clocked a (es ++ [.fall]) (edgeEecd e .fall) := by
  have hbits : risingBits (es ++ [.fall]) = risingBits es := by
    rw [risingBits_append]
    exact List.append_nil _
  refine ⟨?_, ?_⟩
  · rw [hbits]
    exact h.collecting
  · rw [hbits]
    intro hlen
    obtain ⟨hreading, hout⟩ := h.reading hlen
    refine ⟨hreading, ?_⟩
    rw [fallsAfter_fall, if_pos hlen, ← Nat.add_assoc, BitVec.ofNat_add, ← hout]
    rfl

theorem clocked_rise {a : Nat} (ha : a < 64) {es : List Edge} {e : EecdState} {di : Bool}
    (hcommand : (risingBits (es ++ [.rise di])).take 9 <+: readCommand a)
    (h : Clocked a es e) : Clocked a (es ++ [.rise di]) (edgeEecd e (.rise di)) := by
  have hbits : risingBits (es ++ [.rise di]) = risingBits es ++ [di] := risingBits_append _ _
  rw [hbits] at hcommand
  have hshift : (risingBits es ++ [di]).foldl shiftBit 0#32 =
      shiftBit ((risingBits es).foldl shiftBit 0#32) di := List.foldl_append
  rcases Nat.lt_trichotomy (risingBits es).length 8 with hlt | heq | hgt
  · -- Not the ninth bit yet.
    obtain ⟨hin, hreading, hval⟩ := h.collecting (by omega)
    have hsucc : (e.bitnumIn + 1).toNat = (risingBits es).length + 1 := by
      rw [BitVec.toNat_add, hin, show (1 : U16).toNat = 1 from rfl, Nat.mod_eq_of_lt (by omega)]
    have hnot : ¬ (e.bitnumIn + 1 = 9#16 ∧ e.reading = false) := by
      rintro ⟨hnine, -⟩
      rw [hnine] at hsucc
      simp only [BitVec.toNat_ofNat] at hsucc
      omega
    simp only [edgeEecd, if_neg hnot]
    refine ⟨fun _ => ⟨?_, hreading, ?_⟩, fun hlen => ?_⟩
    · rw [hsucc, hbits, List.length_append, List.length_singleton]
    · rw [hbits, hshift, hval]
    · rw [hbits, List.length_append, List.length_singleton] at hlen
      omega
  · -- The ninth bit completes the command.
    obtain ⟨hin, hreading, hval⟩ := h.collecting (by omega)
    have hnine : e.bitnumIn + 1 = 9#16 := by
      refine BitVec.eq_of_toNat_eq ?_
      rw [BitVec.toNat_add, hin, heq]
      rfl
    have hlen9 : (risingBits es ++ [di]).length = 9 := by simp [heq]
    have hcmd : risingBits es ++ [di] = readCommand a := by
      rw [List.take_of_length_le hlen9.le] at hcommand
      exact hcommand.eq_of_length (by rw [hlen9]; rfl)
    have hall : shiftBit e.valIn di = (readCommand a).foldl shiftBit 0#32 := by
      rw [← hcmd, hshift, hval]
    obtain ⟨hout, hop⟩ := readCommand_shifted a ha
    simp only [edgeEecd, hnine, hreading, and_self, if_true, hall]
    refine ⟨fun hlen => ?_, fun _ => ⟨hop, ?_⟩⟩
    · rw [hbits] at hlen
      omega
    · rw [fallsAfter_rise, fallsAfter_eq_zero (by omega), Nat.add_zero]
      exact hout
  · -- Later bits are shifted in and ignored.
    obtain ⟨hreading, hout⟩ := h.reading (by omega)
    have hnot : ¬ (e.bitnumIn + 1 = 9#16 ∧ e.reading = false) := by
      rintro ⟨-, hno⟩
      rw [hreading] at hno
      cases hno
    simp only [edgeEecd, if_neg hnot]
    refine ⟨fun hlen => ?_, fun _ => ⟨hreading, ?_⟩⟩
    · rw [hbits, List.length_append, List.length_singleton] at hlen
      omega
    · rw [fallsAfter_rise]
      exact hout

theorem clocked_foldl {a : Nat} (ha : a < 64) (e : EecdState) (es : List Edge)
    (hcommand : (risingBits es).take 9 <+: readCommand a) :
    Clocked a es (es.foldl edgeEecd (selectEecd e)) := by
  induction es using List.reverseRecOn with
  | nil =>
      refine ⟨fun _ => ⟨rfl, rfl, rfl⟩, fun hlen => ?_⟩
      exact absurd hlen (by decide)
  | append_singleton es edge ih =>
      have hbefore : (risingBits es).take 9 <+: readCommand a := by
        refine List.IsPrefix.trans ?_ hcommand
        rw [risingBits_append, List.take_append]
        exact List.prefix_append _ _
      rw [List.foldl_append, List.foldl_cons, List.foldl_nil]
      cases edge with
      | rise di => exact clocked_rise ha hcommand (ih hbefore)
      | fall => exact clocked_fall (ih hbefore)

theorem ReadSession.clocked {e : EecdState} {a n : Nat} {vals : List U32} (ha : a < 64)
    (h : ReadSession e a n vals) :
    (vals.foldl clockEecd e).reading = true ∧
      (vals.foldl clockEecd e).bitnumOut = BitVec.ofNat 16 (16 * a + 65535 + n) ∧
      test (vals.foldl clockEecd e).oldEecd eecdDo = false := by
  obtain ⟨hold, hsel, hcommand, hfalls⟩ := h
  cases vals with
  | nil => cases hcommand
  | cons v vs =>
      obtain ⟨hv, hvs⟩ := List.forall_mem_cons.mp hsel
      have hlen : 9 ≤ (risingBits (skEdges (test e.oldEecd eecdSk) (v :: vs))).length := by
        have htake := congrArg List.length hcommand
        rw [List.length_take, length_readCommand] at htake
        omega
      obtain ⟨hreading, hout⟩ := (clocked_foldl ha e (skEdges (test e.oldEecd eecdSk) (v :: vs))
        (hcommand ▸ List.prefix_rfl)).reading hlen
      have hclock := clockEecd_select hold hv
      have hmask : test (v &&& eecdMask) eecdDo = false := by
        rw [test, BitVec.and_assoc]
        exact (by rw [show eecdMask &&& eecdDo = 0#32 from rfl, BitVec.and_zero]; rfl)
      obtain ⟨old, hrun, hdo⟩ := foldl_clockEecd (e := clockEecd e v)
        (by rw [hclock]; exact (test_oldEecd (by decide)).trans hv) (by rw [hclock]; exact hmask)
        hvs
      have hfold : (v :: vs).foldl clockEecd e =
          { (skEdges (test e.oldEecd eecdSk) (v :: vs)).foldl edgeEecd (selectEecd e) with
            oldEecd := old } := by
        rw [List.foldl_cons, hrun, skEdges, List.foldl_append, hclock, foldl_edgeEecd_oldEecd]
        dsimp only
        rw [test_oldEecd (by decide)]
      rw [hfold]
      exact ⟨hreading, hfalls ▸ hout, hdo⟩

/-! ## A guest's routine -/

/-- Data stands before the clock rises, and the clock falls again. -/
def clockBit (di : Bool) : List U32 :=
  let level := if di then eecdCs ||| eecdDi else eecdCs
  [level, level ||| eecdSk, level]

/-- The command and then `n` more clocks; the first falling edge that counts is the command's. -/
def readRoutine (a n : Nat) : List U32 :=
  (readCommand a ++ List.replicate n false).flatMap clockBit

theorem skEdges_clockBits (bits : List Bool) :
    skEdges false (bits.flatMap clockBit) = bits.flatMap fun di => [.rise di, .fall] := by
  induction bits with
  | nil => rfl
  | cons di bits ih =>
      rw [List.flatMap_cons, List.flatMap_cons, ← ih]
      cases di <;> rfl

theorem risingBits_clocks (bits : List Bool) :
    risingBits (bits.flatMap fun di => [.rise di, .fall]) = bits := by
  induction bits with
  | nil => rfl
  | cons di bits ih => exact congrArg (di :: ·) ih

theorem fallsAfter_clocks (k : Nat) (bits : List Bool) (hk : 1 ≤ k) :
    fallsAfter k (bits.flatMap fun di => [.rise di, .fall]) = bits.length + 1 - k := by
  have hzero : ∀ bits : List Bool,
      fallsAfter 0 (bits.flatMap fun di => [.rise di, .fall]) = bits.length := by
    intro bits
    induction bits with
    | nil => rfl
    | cons di bits ih => exact congrArg (· + 1) ih
  induction bits generalizing k with
  | nil => simp only [List.flatMap_nil, fallsAfter, List.length_nil]; omega
  | cons di bits ih =>
      obtain ⟨k, rfl⟩ := Nat.exists_eq_add_of_le' hk
      rw [List.length_cons, Nat.add_sub_add_right]
      cases k with
      | zero => exact congrArg (· + 1) (hzero bits)
      | succ k => exact ih (k + 1) (Nat.le_add_left 1 k)

theorem readRoutine_session {e : EecdState} (h : e.oldEecd = 0#32) (a n : Nat) :
    ReadSession e a (n + 1) (readRoutine a n) := by
  have hsk : test e.oldEecd eecdSk = false := by rw [h]; rfl
  refine ⟨by rw [h]; rfl, ?_, ?_, ?_⟩
  · intro v hv
    obtain ⟨di, -, hbit⟩ := List.mem_flatMap.mp hv
    have hall : (clockBit di).all (test · eecdCs) = true := by cases di <;> rfl
    exact List.all_eq_true.mp hall v hbit
  · rw [hsk, readRoutine, skEdges_clockBits, risingBits_clocks]
    exact List.take_left' (length_readCommand a)
  · rw [hsk, readRoutine, skEdges_clockBits, fallsAfter_clocks 9 _ (by decide),
      List.length_append, List.length_replicate, length_readCommand]
    omega

/-! ## What the two paths read -/

theorem foldl_setEecd (s : E1000State) (vals : List U32) :
    vals.foldl setEecd s = { s with eecdState := vals.foldl clockEecd s.eecdState } := by
  induction vals generalizing s with
  | nil => rfl
  | cons v vs ih => rw [List.foldl_cons, ih]; rfl

/-- Starting one before the first bit makes the first fall after the command count as bit 0. -/
theorem bitnumOut_position {a n : Nat} (hn : 1 ≤ n) :
    (((BitVec.ofNat 16 (16 * a + 65535 + n) >>> 4) &&& 0x3f#16).toNat =
        (a + (n - 1) / 16) % 64) ∧
      ((BitVec.ofNat 16 (16 * a + 65535 + n) &&& 0xf#16) ^^^ 0xf#16).toNat =
        15 - (n - 1) % 16 := by
  have hlow : ∀ m < 16, m ^^^ 15 = 15 - m := by decide
  have hand6 : ∀ m : Nat, m &&& 63 = m % 64 := fun m => Nat.and_two_pow_sub_one_eq_mod m 6
  have hand4 : ∀ m : Nat, m &&& 15 = m % 16 := fun m => Nat.and_two_pow_sub_one_eq_mod m 4
  refine ⟨?_, ?_⟩
  · simp only [BitVec.toNat_and, BitVec.toNat_ushiftRight, BitVec.toNat_ofNat,
      Nat.shiftRight_eq_div_pow]
    rw [show 63 % 2 ^ 16 = 63 from rfl, hand6]
    omega
  · simp only [BitVec.toNat_xor, BitVec.toNat_and, BitVec.toNat_ofNat]
    rw [show 15 % 2 ^ 16 = 15 from rfl, hand4, hlow _ (Nat.mod_lt _ (by decide))]
    omega

theorem ReadSession.test_getEecd {s : E1000State} {a n : Nat} {vals : List U32} (ha : a < 64)
    (hn : 1 ≤ n) (h : ReadSession s.eecdState a n vals) :
    test (getEecd (vals.foldl setEecd s)) eecdDo =
      (s.eepromData ((a + (n - 1) / 16) % 64)).getLsbD (15 - (n - 1) % 16) := by
  obtain ⟨hreading, hout, hold⟩ := h.clocked ha
  obtain ⟨hword, hbit⟩ := bitnumOut_position (a := a) hn
  have hlsb : ∀ (x : U16) (k : Nat), test (x >>> k) 1#16 = x.getLsbD k := by
    intro x k
    rw [show (1#16 : U16) = BitVec.twoPow 16 (0 : Fin 16) from rfl, test_twoPow,
      BitVec.getLsbD_ushiftRight]
    rfl
  have hclear : test (eecdPres ||| eecdGnt ||| (vals.foldl clockEecd s.eecdState).oldEecd) eecdDo =
      false := by
    rw [test, BitVec.or_comm, or_and_of_disjoint _ (by decide)]
    exact hold
  rw [foldl_setEecd]
  simp only [getEecd, hreading, hout, hword, hbit, hlsb, Bool.not_true, Bool.false_or]
  cases (s.eepromData ((a + (n - 1) / 16) % 64)).getLsbD (15 - (n - 1) % 16) with
  | true => exact test_or_self _ (by decide)
  | false => exact hclear

theorem foldl_shiftBit (x : U16) {k : Nat} (hk : k ≤ 16) :
    (List.range k).foldl (fun v i => shiftBit v (x.getLsbD (15 - i))) 0#32 =
      (x >>> (16 - k)).setWidth 32 := by
  induction k with
  | zero =>
      rw [BitVec.ushiftRight_eq_zero (Nat.le_refl 16)]
      rfl
  | succ k ih =>
      rw [List.range_succ, List.foldl_append, List.foldl_cons, List.foldl_nil, ih (by omega)]
      refine BitVec.eq_of_getLsbD_eq fun j hj => ?_
      cases j with
      | zero =>
          rw [BitVec.getLsbD_setWidth, BitVec.getLsbD_ushiftRight,
            show 16 - (k + 1) + 0 = 15 - k by omega]
          cases hbit : x.getLsbD (15 - k) <;> simp [shiftBit]
      | succ j =>
          have hshift : 16 - (k + 1) + (j + 1) = 16 - k + j := by omega
          have hbound : x.getLsbD (16 - k + j) = true → 16 - k + j < 32 := fun hbit =>
            (BitVec.lt_of_getLsbD hbit).trans (by decide)
          rw [BitVec.getLsbD_setWidth, BitVec.getLsbD_ushiftRight, hshift]
          cases x.getLsbD (15 - k) <;> simpa [shiftBit, hj] using hbound

theorem eerd_command : ∀ a < 64,
    test ((BitVec.ofNat 32 a <<< eepromRwAddrShift) ||| eepromRwRegStart) eepromRwRegStart =
        true ∧
      ((((BitVec.ofNat 32 a <<< eepromRwAddrShift) ||| eepromRwRegStart) &&&
        ~~~eepromRwRegStart) >>> eepromRwAddrShift).toNat = a ∧
      (((BitVec.ofNat 32 a <<< eepromRwAddrShift) ||| eepromRwRegStart) &&&
        ~~~eepromRwRegStart) >>> eepromRwRegData = 0#32 := by
  decide +kernel

theorem flashEerdRead_data {w : World} {a : Nat} (ha : a < 64) :
    flashEerdRead (macWritereg w Reg.eerd
        ((BitVec.ofNat 32 a <<< eepromRwAddrShift) ||| eepromRwRegStart)).dev >>>
          eepromRwRegData =
      (w.dev.eepromData a).setWidth 32 := by
  obtain ⟨hstart, hindex, hlow⟩ := eerd_command a ha
  have hwritten : (macWritereg w Reg.eerd
      ((BitVec.ofNat 32 a <<< eepromRwAddrShift) ||| eepromRwRegStart)).dev.macReg Reg.eerd =
        (BitVec.ofNat 32 a <<< eepromRwAddrShift) ||| eepromRwRegStart :=
    Function.update_self Reg.eerd _ w.dev.macReg
  have hdata : (w.dev.eepromData a).setWidth 32 <<< eepromRwRegData >>> eepromRwRegData =
      (w.dev.eepromData a).setWidth 32 := by
    refine BitVec.eq_of_toNat_eq ?_
    have hlt := (w.dev.eepromData a).isLt
    simp only [eepromRwRegData, BitVec.toNat_ushiftRight, BitVec.toNat_shiftLeft,
      BitVec.toNat_setWidth, Nat.shiftLeft_eq, Nat.shiftRight_eq_div_pow]
    omega
  simp only [flashEerdRead, hwritten, hstart, hindex, Bool.not_true, Bool.false_eq_true, if_false,
    if_neg (show ¬ a > eepromChecksumReg by simp only [eepromChecksumReg]; omega),
    BitVec.ushiftRight_or_distrib, hlow]
  rw [show (macWritereg w Reg.eerd ((BitVec.ofNat 32 a <<< eepromRwAddrShift) |||
    eepromRwRegStart)).dev.eepromData = w.dev.eepromData from rfl, hdata,
    show eepromRwRegDone >>> eepromRwRegData = 0#32 from rfl, BitVec.or_zero, BitVec.or_zero]

/--
The `n`-th falling edge after a read command for word `a` puts out bit `n - 1` of the words
from `a` on, wherever between its edges the guest samples; sixteen samples make the word
that `EERD` gives for `a`.
-/
theorem eeprom_paths_agree (w : World) {a : Nat} (ha : a < 64) :
    (∀ n vals, 1 ≤ n → ReadSession w.dev.eecdState a n vals →
      test (getEecd (vals.foldl setEecd w.dev)) eecdDo =
        (w.dev.eepromData ((a + (n - 1) / 16) % 64)).getLsbD (15 - (n - 1) % 16)) ∧
      ∀ sample : Nat → List U32,
        (∀ i < 16, ReadSession w.dev.eecdState a (i + 1) (sample i)) →
        (List.range 16).foldl (fun word i =>
            shiftBit word (test (getEecd ((sample i).foldl setEecd w.dev)) eecdDo)) 0#32 =
          flashEerdRead (macWritereg w Reg.eerd
            ((BitVec.ofNat 32 a <<< eepromRwAddrShift) ||| eepromRwRegStart)).dev >>>
              eepromRwRegData := by
  refine ⟨fun n vals hn hsession => hsession.test_getEecd ha hn, fun sample hsample => ?_⟩
  have hbits : ∀ i ∈ List.range 16,
      test (getEecd ((sample i).foldl setEecd w.dev)) eecdDo =
        (w.dev.eepromData a).getLsbD (15 - i) := by
    intro i hi
    have hi : i < 16 := List.mem_range.mp hi
    rw [(hsample i hi).test_getEecd ha (Nat.le_add_left 1 i), Nat.add_sub_cancel,
      Nat.div_eq_of_lt hi, Nat.add_zero, Nat.mod_eq_of_lt ha, Nat.mod_eq_of_lt hi]
  rw [List.foldl_ext _ (fun word i => shiftBit word ((w.dev.eepromData a).getLsbD (15 - i))) _
    fun word i hi => by rw [hbits i hi], foldl_shiftBit _ (Nat.le_refl 16), flashEerdRead_data ha,
    Nat.sub_self, BitVec.ushiftRight_zero]

theorem eeprom_paths_agree_routine :
    (List.range 16).foldl (fun word i =>
        shiftBit word (test (getEecd ((readRoutine 8 i).foldl setEecd
          (powerOn (fun _ => 0) 0 false Memory.blank).dev)) eecdDo)) 0#32 = 0x3000#32 :=
  ((eeprom_paths_agree (powerOn (fun _ => 0) 0 false Memory.blank) (a := 8) (by decide)).2
    (readRoutine 8) fun i _ => readRoutine_session rfl 8 i).trans
      ((flashEerdRead_data (by decide)).trans (by decide +kernel))

end SE4VM.E1000
