import Mathlib.Data.Finset.Card
import Mathlib.Order.Lattice.Nat
import SE4VM.Ram.Records

/-!
# The pages still to be sent

The pages that are still to be sent are the bits of a bitmap, which `find_next_bit` searches
by words, four at a time where it can, and their number is counted beside it.
-/

namespace SE4VM.Ram

open Foundation

/-! ## Bitmaps -/

/-- The words that an `unsigned long *` points to. -/
abbrev Bitmap := Nat → U64

namespace Bitmap

def testBit (m : Bitmap) (nr : Nat) : Bool := (m (nr / 64)).getLsbD (nr % 64)

/-- `BIT_MASK` -/
def mask (nr : Nat) : U64 := 1#64 <<< (nr % 64)

def setBit (m : Bitmap) (nr : Nat) : Bitmap :=
  fun i => if i = nr / 64 then m i ||| mask nr else m i

def clearBit (m : Bitmap) (nr : Nat) : Bitmap :=
  fun i => if i = nr / 64 then m i &&& ~~~mask nr else m i

def testAndSetBit (m : Bitmap) (nr : Nat) : Bool × Bitmap :=
  (decide (m (nr / 64) &&& mask nr ≠ 0), m.setBit nr)

/-- The bit for a number that is passed as an `int`, and made `unsigned long` again. -/
def intBit (nr : Nat) : Nat := ((BitVec.ofNat 32 nr).signExtend 64).toNat

theorem intBit_of_lt {nr : Nat} (h : nr < 2 ^ 31) : intBit nr = nr := by
  have hmsb : (BitVec.ofNat 32 nr).msb = false := by
    rw [BitVec.msb_eq_false_iff_two_mul_lt, BitVec.toNat_ofNat]
    omega
  rw [intBit, BitVec.signExtend_eq_setWidth_of_msb_false hmsb, BitVec.toNat_setWidth,
    BitVec.toNat_ofNat]
  omega

theorem getLsbD_mask (nr k : Nat) : (mask nr).getLsbD k = decide (k = nr % 64) := by
  have hlt : nr % 64 < 64 := Nat.mod_lt _ (by decide)
  rw [mask, BitVec.getLsbD_shiftLeft]
  by_cases heq : k = nr % 64
  · simp [heq, hlt]
  · by_cases hle : k < nr % 64
    · simp [hle, heq]
    · have hpos : k - nr % 64 ≠ 0 := by omega
      simp [heq, hpos]

theorem same_bit {n nr : Nat} (hword : n / 64 = nr / 64) : n % 64 = nr % 64 ↔ n = nr := by
  omega

theorem testBit_setBit (m : Bitmap) (nr n : Nat) :
    (m.setBit nr).testBit n = (decide (n = nr) || m.testBit n) := by
  simp only [testBit, setBit]
  by_cases hword : n / 64 = nr / 64
  · rw [if_pos hword, BitVec.getLsbD_or, getLsbD_mask,
      decide_eq_decide.mpr (same_bit hword), Bool.or_comm]
  · rw [if_neg hword, decide_eq_false fun h => hword (by rw [h]), Bool.false_or]

theorem testBit_clearBit (m : Bitmap) (nr n : Nat) :
    (m.clearBit nr).testBit n = (!decide (n = nr) && m.testBit n) := by
  have hlt : n % 64 < 64 := Nat.mod_lt _ (by decide)
  simp only [testBit, clearBit]
  by_cases hword : n / 64 = nr / 64
  · rw [if_pos hword, BitVec.getLsbD_and, BitVec.getLsbD_not, getLsbD_mask,
      decide_eq_decide.mpr (same_bit hword), decide_eq_true hlt, Bool.true_and, Bool.and_comm]
  · rw [if_neg hword, decide_eq_false fun h => hword (by rw [h]), Bool.not_false, Bool.true_and]

theorem testAndSetBit_fst (m : Bitmap) (nr : Nat) :
    (m.testAndSetBit nr).1 = m.testBit nr := by
  have hbit : ∀ k, (m (nr / 64) &&& mask nr).getLsbD k =
      ((m (nr / 64)).getLsbD k && decide (k = nr % 64)) := by
    intro k
    rw [BitVec.getLsbD_and, getLsbD_mask]
  rw [testAndSetBit, Bool.eq_iff_iff, decide_eq_true_iff]
  constructor
  · intro hne
    by_contra hclear
    refine hne (BitVec.eq_of_getLsbD_eq fun k _ => ?_)
    rw [hbit k]
    by_cases hk : k = nr % 64
    · subst hk
      rw [Bool.not_eq_true] at hclear
      rw [← testBit, hclear]
      exact BitVec.getLsbD_zero.symm
    · rw [decide_eq_false hk, Bool.and_false]
      exact BitVec.getLsbD_zero.symm
  · intro hset hzero
    have hself := hbit (nr % 64)
    rw [hzero, decide_eq_true rfl, Bool.and_true, ← testBit, hset] at hself
    exact Bool.false_ne_true (BitVec.getLsbD_zero.symm.trans hself)

/-! ## The next bit -/

def ctzl (w : U64) : Nat := w.ctz.toNat

/-- The label `found_first`: of the last word, only `size` bits count. -/
def foundFirst (tmp : U64) (size result : Nat) : Nat :=
  let tmp := tmp &&& (BitVec.allOnes 64 >>> (64 - size))
  if tmp = 0 then result + size else result + ctzl tmp

/-- The second loop, for `size / 64` words, and the word after them. -/
def scanWords (m : Bitmap) : Nat → Nat → Nat → Nat
  | 0, size, result => if size = 0 then result else foundFirst (m (result / 64)) size result
  | words + 1, size, result =>
      if m (result / 64) ≠ 0 then result + ctzl (m (result / 64))
      else scanWords m words (size - 64) (result + 64)

/-- The first loop, for `size / 256` times four words. -/
def scanFours (m : Bitmap) : Nat → Nat → Nat → Nat
  | 0, size, result => scanWords m (size / 64) size result
  | fours + 1, size, result =>
      let p := result / 64
      if m p ≠ 0 then result + ctzl (m p)
      else if m (p + 1) ||| m (p + 2) ||| m (p + 3) ≠ 0 then scanWords m (size / 64) size result
      else scanFours m fours (size - 256) (result + 256)

def findNextBit (m : Bitmap) (size offset : Nat) : Nat :=
  let result := offset / 64 * 64
  if size ≤ offset then size
  else
    let size := size - result
    if offset % 64 ≠ 0 then
      let tmp := m (offset / 64) &&& (BitVec.allOnes 64 <<< (offset % 64))
      if size < 64 then foundFirst tmp size result
      else if tmp ≠ 0 then result + ctzl tmp
      else scanFours m ((size - 64) / 256) (size - 64) (result + 64)
    else scanFours m (size / 256) size result

structure IsNext (m : Bitmap) (start stop n : Nat) : Prop where
  start_le : start ≤ n
  le_stop : n ≤ stop
  clear : ∀ k, start ≤ k → k < n → m.testBit k = false
  set : n < stop → m.testBit n = true

theorem IsNext.extend {m : Bitmap} {start mid stop n : Nat} (h : IsNext m mid stop n)
    (hle : start ≤ mid) (hclear : ∀ k, start ≤ k → k < mid → m.testBit k = false) :
    IsNext m start stop n where
  start_le := hle.trans h.start_le
  le_stop := h.le_stop
  clear k hk hkn := by
    by_cases hmid : k < mid
    · exact hclear k hk hmid
    · exact h.clear k (by omega) hkn
  set := h.set

theorem testBit_word (m : Bitmap) (p k : Nat) (hk : k < 64) :
    m.testBit (p * 64 + k) = (m p).getLsbD k := by
  have hdiv : (p * 64 + k) / 64 = p := by omega
  have hmod : (p * 64 + k) % 64 = k := by omega
  rw [testBit, hdiv, hmod]

theorem clear_of_word {m : Bitmap} {p : Nat} (h : m p = 0) {n : Nat} (hn : p * 64 ≤ n)
    (hn' : n < p * 64 + 64) : m.testBit n = false := by
  obtain ⟨k, rfl⟩ := Nat.exists_eq_add_of_le hn
  rw [testBit_word m p k (by omega), h]
  exact BitVec.getLsbD_zero

theorem isNext_of_word {m : Bitmap} {p low high stop : Nat} {tmp : U64}
    (hbits : ∀ k < 64, tmp.getLsbD k = (decide (low ≤ k ∧ k < high) && (m p).getLsbD k))
    (hne : tmp ≠ 0) (hstop : p * 64 + high ≤ stop) :
    IsNext m (p * 64 + low) stop (p * 64 + ctzl tmp) := by
  have hbit : tmp.getLsbD (ctzl tmp) = true := BitVec.getLsbD_true_ctz_of_ne_zero hne
  have hlt : ctzl tmp < 64 := BitVec.lt_of_getLsbD hbit
  have hrange := hbits _ hlt
  rw [hbit, eq_comm, Bool.and_eq_true, decide_eq_true_eq] at hrange
  refine ⟨by omega, by omega, fun k hk hkn => ?_, fun _ => ?_⟩
  · obtain ⟨j, rfl⟩ := Nat.exists_eq_add_of_le (Nat.le_of_add_right_le hk)
    have hj : j < ctzl tmp := by omega
    have hfalse : tmp.getLsbD j = false := BitVec.getLsbD_false_of_lt_ctz hj
    rw [hbits j (by omega), decide_eq_true (by omega), Bool.true_and] at hfalse
    rw [testBit_word m p j (by omega), hfalse]
  · rw [testBit_word m p _ hlt, hrange.2]

theorem isNext_foundFirst {m : Bitmap} {p low size : Nat} {tmp : U64} (hsize : size ≤ 64)
    (hlow : low ≤ size) (hbits : ∀ k < 64, tmp.getLsbD k = (decide (low ≤ k) && (m p).getLsbD k)) :
    IsNext m (p * 64 + low) (p * 64 + size) (foundFirst tmp size (p * 64)) := by
  have hshown : ∀ k < 64, (tmp &&& (BitVec.allOnes 64 >>> (64 - size))).getLsbD k =
      (decide (low ≤ k ∧ k < size) && (m p).getLsbD k) := by
    intro k hk
    have hmask : (BitVec.allOnes 64 >>> (64 - size)).getLsbD k = decide (k < size) := by
      rw [BitVec.getLsbD_ushiftRight, BitVec.getLsbD_allOnes, decide_eq_decide]
      omega
    rw [BitVec.getLsbD_and, hbits k hk, hmask, Bool.decide_and]
    cases decide (low ≤ k) <;> cases decide (k < size) <;> cases (m p).getLsbD k <;> rfl
  rw [foundFirst]
  by_cases hzero : tmp &&& (BitVec.allOnes 64 >>> (64 - size)) = 0
  · rw [if_pos hzero]
    refine ⟨by omega, le_rfl, fun k hk hkn => ?_, fun h => absurd h (lt_irrefl _)⟩
    obtain ⟨j, rfl⟩ := Nat.exists_eq_add_of_le (Nat.le_of_add_right_le hk)
    have hfalse := hshown j (by omega)
    rw [hzero, decide_eq_true (by omega), Bool.true_and] at hfalse
    rw [testBit_word m p j (by omega), ← hfalse]
    exact BitVec.getLsbD_zero
  · rw [if_neg hzero]
    exact isNext_of_word hshown hzero le_rfl

theorem isNext_middle {m : Bitmap} {p stop : Nat} (h : m p ≠ 0) (hstop : p * 64 + 64 ≤ stop) :
    IsNext m (p * 64) stop (p * 64 + ctzl (m p)) := by
  have hbits : ∀ k < 64, (m p).getLsbD k = (decide (0 ≤ k ∧ k < 64) && (m p).getLsbD k) := by
    intro k hk
    rw [decide_eq_true ⟨Nat.zero_le k, hk⟩, Bool.true_and]
  have hnext : IsNext m (p * 64 + 0) stop (p * 64 + ctzl (m p)) := isNext_of_word hbits h hstop
  rwa [Nat.add_zero] at hnext

theorem isNext_scanWords (m : Bitmap) {words size p : Nat} (hwords : words = size / 64) :
    IsNext m (p * 64) (p * 64 + size) (scanWords m words size (p * 64)) := by
  have hword : ∀ p, p * 64 / 64 = p := fun p => Nat.mul_div_cancel p (by decide)
  induction words generalizing size p with
  | zero =>
      rw [scanWords, hword]
      by_cases hsize : size = 0
      · rw [if_pos hsize, hsize]
        exact ⟨le_rfl, le_rfl, fun k hk hkn => by omega, fun h => absurd h (lt_irrefl _)⟩
      · rw [if_neg hsize]
        have hnext : IsNext m (p * 64 + 0) (p * 64 + size) (foundFirst (m p) size (p * 64)) :=
          isNext_foundFirst (by omega) (Nat.zero_le size) fun k _ => by simp
        rwa [Nat.add_zero] at hnext
  | succ words ih =>
      rw [scanWords, hword]
      by_cases hne : m p ≠ 0
      · rw [if_pos hne]
        exact isNext_middle hne (by omega)
      · rw [if_neg hne]
        have hnext := @ih (size - 64) (p + 1) (by omega)
        rw [show (p + 1) * 64 = p * 64 + 64 by omega,
          show p * 64 + 64 + (size - 64) = p * 64 + size by omega] at hnext
        exact hnext.extend (by omega) fun k hk hk' => clear_of_word (not_not.mp hne) hk hk'

theorem isNext_scanFours (m : Bitmap) {fours size p : Nat} (hfours : fours = size / 256) :
    IsNext m (p * 64) (p * 64 + size) (scanFours m fours size (p * 64)) := by
  have hword : ∀ p, p * 64 / 64 = p := fun p => Nat.mul_div_cancel p (by decide)
  induction fours generalizing size p with
  | zero => exact isNext_scanWords m rfl
  | succ fours ih =>
      rw [scanFours]
      simp only [hword]
      by_cases hne : m p ≠ 0
      · rw [if_pos hne]
        exact isNext_middle hne (by omega)
      rw [if_neg hne]
      by_cases hlater : m (p + 1) ||| m (p + 2) ||| m (p + 3) ≠ 0
      · rw [if_pos hlater]
        exact isNext_scanWords m rfl
      · rw [if_neg hlater]
        have hzero := BitVec.or_eq_zero_iff.mp (not_not.mp hlater)
        obtain ⟨hone, htwo⟩ := BitVec.or_eq_zero_iff.mp hzero.1
        have hnext := @ih (size - 256) (p + 4) (by omega)
        rw [show (p + 4) * 64 = p * 64 + 256 by omega,
          show p * 64 + 256 + (size - 256) = p * 64 + size by omega] at hnext
        refine hnext.extend (by omega) fun k hk hk' => ?_
        obtain h | h | h | h : k < p * 64 + 64 ∨ k < p * 64 + 128 ∧ p * 64 + 64 ≤ k ∨
            k < p * 64 + 192 ∧ p * 64 + 128 ≤ k ∨ p * 64 + 192 ≤ k := by omega
        · exact clear_of_word (not_not.mp hne) hk h
        · exact clear_of_word hone (by omega) (by omega)
        · exact clear_of_word htwo (by omega) (by omega)
        · exact clear_of_word hzero.2 (by omega) (by omega)

theorem findNextBit_isNext (m : Bitmap) {size offset : Nat} (h : offset ≤ size) :
    IsNext m offset size (findNextBit m size offset) := by
  obtain ⟨p, low, hlow, rfl⟩ : ∃ p low, low < 64 ∧ offset = p * 64 + low :=
    ⟨offset / 64, offset % 64, Nat.mod_lt _ (by decide), by omega⟩
  have hdiv : (p * 64 + low) / 64 = p := by omega
  have hmod : (p * 64 + low) % 64 = low := by omega
  rw [findNextBit]
  simp only [hdiv, hmod]
  by_cases hend : size ≤ p * 64 + low
  · rw [if_pos hend]
    exact ⟨h, le_rfl, fun k hk hkn => by omega, fun hlt => absurd hlt (lt_irrefl _)⟩
  rw [if_neg hend]
  obtain ⟨rest, rfl⟩ := Nat.exists_eq_add_of_le (show p * 64 ≤ size by omega)
  rw [Nat.add_sub_cancel_left]
  by_cases hpos : low ≠ 0
  · have hbits : ∀ k < 64, (m p &&& (BitVec.allOnes 64 <<< low)).getLsbD k =
        (decide (low ≤ k) && (m p).getLsbD k) := by
      intro k hk
      have hmask : (BitVec.allOnes 64 <<< low).getLsbD k = decide (low ≤ k) := by
        rw [BitVec.getLsbD_shiftLeft, BitVec.getLsbD_allOnes, decide_eq_true hk, Bool.true_and,
          decide_eq_true (show k - low < 64 by omega), Bool.and_true, ← decide_not]
        exact decide_eq_decide.mpr Nat.not_lt
      rw [BitVec.getLsbD_and, hmask, Bool.and_comm]
    rw [if_pos hpos]
    by_cases hshort : rest < 64
    · rw [if_pos hshort]
      exact isNext_foundFirst hshort.le (by omega) hbits
    rw [if_neg hshort]
    by_cases hne : m p &&& (BitVec.allOnes 64 <<< low) ≠ 0
    · rw [if_pos hne]
      have hshown : ∀ k < 64, (m p &&& (BitVec.allOnes 64 <<< low)).getLsbD k =
          (decide (low ≤ k ∧ k < 64) && (m p).getLsbD k) := by
        intro k hk
        rw [hbits k hk, decide_eq_decide.mpr (and_iff_left hk)]
      exact isNext_of_word hshown hne (by omega)
    · rw [if_neg hne]
      have hnext : IsNext m ((p + 1) * 64) ((p + 1) * 64 + (rest - 64))
          (scanFours m ((rest - 64) / 256) (rest - 64) ((p + 1) * 64)) := isNext_scanFours m rfl
      rw [show (p + 1) * 64 = p * 64 + 64 by omega,
        show p * 64 + 64 + (rest - 64) = p * 64 + rest by omega] at hnext
      refine hnext.extend (by omega) fun k hk hk' => ?_
      obtain ⟨j, rfl⟩ := Nat.exists_eq_add_of_le (Nat.le_of_add_right_le hk)
      have hfalse := hbits j (by omega)
      rw [not_not.mp hne, decide_eq_true (by omega), Bool.true_and] at hfalse
      rw [testBit_word m p j (by omega), ← hfalse]
      exact BitVec.getLsbD_zero
  · rw [if_neg hpos]
    rw [not_not.mp hpos, Nat.add_zero]
    exact isNext_scanFours m rfl

theorem IsNext.isLeast {m : Bitmap} {start stop n : Nat} (h : IsNext m start stop n) :
    IsLeast (insert stop {k | m.testBit k = true ∧ start ≤ k ∧ k < stop}) n := by
  constructor
  · rcases h.le_stop.eq_or_lt with rfl | hlt
    · exact Set.mem_insert _ _
    · exact Set.mem_insert_of_mem _ ⟨h.set hlt, h.start_le, hlt⟩
  · rintro k (rfl | ⟨hbit, hstart, hstop⟩)
    · exact h.le_stop
    · by_contra hlt
      rw [h.clear k hstart (Nat.not_le.mp hlt)] at hbit
      cases hbit

theorem findNextBit_isLeast (m : Bitmap) (size offset : Nat) :
    IsLeast (insert size {k | m.testBit k = true ∧ offset ≤ k ∧ k < size})
      (findNextBit m size offset) := by
  by_cases hle : offset ≤ size
  · exact (findNextBit_isNext m hle).isLeast
  · have hend : findNextBit m size offset = size := by
      rw [findNextBit]
      exact if_pos (by omega)
    rw [hend]
    refine ⟨Set.mem_insert _ _, ?_⟩
    rintro k (rfl | ⟨-, hk, hk'⟩)
    · exact le_rfl
    · omega

end Bitmap

/-! ## The bitmap of a migration -/

/-- `migration_bitmap`, `migration_dirty_pages` and `ram_bulk_stage`. -/
structure Migration where
  bitmap : Bitmap
  dirtyPages : U64
  bulkStage : Bool

def nextDirty (b : RAMBlock) (start : Nat) (s : Migration) : Nat :=
  let base := b.offset
  let nr := base + start
  let size := base + b.length
  if s.bulkStage = true ∧ base < nr then nr + 1 else s.bitmap.findNextBit size nr

def resetDirty (size next : Nat) (s : Migration) : Migration :=
  if next < size then
    { s with
      bitmap := s.bitmap.clearBit (Bitmap.intBit next)
      dirtyPages := s.dirtyPages - 1 }
  else s

/-- The answer is an offset in the block, counted in pages. -/
def migrationBitmapFindAndResetDirty (b : RAMBlock) (start : Nat) (s : Migration) :
    Nat × Migration :=
  let next := nextDirty b start s
  (next - b.offset, resetDirty (b.offset + b.length) next s)

def migrationBitmapSetDirty (b : RAMBlock) (offset : Nat) (s : Migration) : Bool × Migration :=
  let nr := Bitmap.intBit (b.offset + offset)
  let ret := s.bitmap.testAndSetBit nr
  (ret.1,
    { s with
      bitmap := ret.2
      dirtyPages := if ret.1 then s.dirtyPages else s.dirtyPages + 1 })

inductive Access where
  | set (b : RAMBlock) (offset : Nat)
  | find (b : RAMBlock) (start : Nat)

namespace Access

def InRange : Access → Prop
  | .set b offset => b.offset + offset < 2 ^ 31
  | .find b _ => b.offset + b.length ≤ 2 ^ 31

def step : Access → Migration → (Nat ⊕ Bool) × Migration
  | .set b offset, s => (migrationBitmapSetDirty b offset s).map .inr id
  | .find b start, s => (migrationBitmapFindAndResetDirty b start s).map .inl id

def run : List Access → Migration → List (Nat ⊕ Bool) × Migration
  | [], s => ([], s)
  | a :: as, s =>
      let (ret, s) := a.step s
      let (rets, s) := run as s
      (ret :: rets, s)

/-! ## Sets of pages -/

/-- The same on the set of the pages that are still to be sent. -/
noncomputable def take : Access → Finset Nat → (Nat ⊕ Bool) × Finset Nat
  | .set b offset, d => (.inr (decide (b.offset + offset ∈ d)), insert (b.offset + offset) d)
  | .find b start, d =>
      let size := b.offset + b.length
      let next := sInf (insert size {k | k ∈ d ∧ b.offset + start ≤ k ∧ k < size})
      (.inl (next - b.offset), if next < size then d.erase next else d)

noncomputable def takeAll : List Access → Finset Nat → List (Nat ⊕ Bool) × Finset Nat
  | [], d => ([], d)
  | a :: as, d =>
      let (ret, d) := a.take d
      let (rets, d) := takeAll as d
      (ret :: rets, d)

end Access

structure Migration.Represents (s : Migration) (d : Finset Nat) : Prop where
  bit : ∀ n, s.bitmap.testBit n = true ↔ n ∈ d
  count : s.dirtyPages = BitVec.ofNat 64 d.card

theorem represents_empty (bulkStage : Bool) : Migration.Represents ⟨fun _ => 0, 0, bulkStage⟩ ∅ :=
  ⟨fun n => by simp [Bitmap.testBit], rfl⟩

theorem represents_set {s : Migration} {d : Finset Nat} (h : s.Represents d) {b : RAMBlock}
    {offset : Nat} (hint : b.offset + offset < 2 ^ 31) :
    (migrationBitmapSetDirty b offset s).1 = decide (b.offset + offset ∈ d) ∧
      (migrationBitmapSetDirty b offset s).2.Represents (insert (b.offset + offset) d) := by
  have hret : (migrationBitmapSetDirty b offset s).1 = decide (b.offset + offset ∈ d) := by
    show (s.bitmap.testAndSetBit (Bitmap.intBit (b.offset + offset))).1 = _
    rw [Bitmap.intBit_of_lt hint, Bitmap.testAndSetBit_fst, Bool.eq_iff_iff, h.bit,
      decide_eq_true_iff]
  refine ⟨hret, ?_, ?_⟩
  · intro n
    show (s.bitmap.setBit (Bitmap.intBit (b.offset + offset))).testBit n = true ↔ _
    rw [Bitmap.intBit_of_lt hint, Bitmap.testBit_setBit, Bool.or_eq_true, decide_eq_true_iff,
      h.bit, Finset.mem_insert]
  · show (if (migrationBitmapSetDirty b offset s).1 = true then s.dirtyPages
      else s.dirtyPages + 1) = _
    rw [hret]
    by_cases hmem : b.offset + offset ∈ d
    · rw [decide_eq_true hmem, if_pos rfl, Finset.insert_eq_of_mem hmem, h.count]
    · rw [decide_eq_false hmem, if_neg Bool.false_ne_true, Finset.card_insert_of_notMem hmem,
        h.count, BitVec.ofNat_add]
      rfl

theorem represents_reset {s : Migration} {d : Finset Nat} (h : s.Represents d) {size n : Nat}
    (hn : n ∈ d) (hlt : n < size) (hint : size ≤ 2 ^ 31) :
    (resetDirty size n s).Represents (d.erase n) := by
  rw [resetDirty, if_pos hlt, Bitmap.intBit_of_lt (hlt.trans_le hint)]
  refine ⟨fun k => ?_, ?_⟩
  · rw [Bitmap.testBit_clearBit, Bool.and_eq_true, Bool.not_eq_true', decide_eq_false_iff_not,
      h.bit, Finset.mem_erase]
  · have hcard : d.card = (d.erase n).card + 1 := (Finset.card_erase_add_one hn).symm
    show s.dirtyPages - 1 = _
    rw [h.count, hcard, BitVec.ofNat_add]
    exact BitVec.add_sub_cancel _ _

theorem nextDirty_search {s : Migration} {start : Nat} (h : s.bulkStage = false ∨ start = 0)
    (b : RAMBlock) :
    nextDirty b start s = s.bitmap.findNextBit (b.offset + b.length) (b.offset + start) := by
  rw [nextDirty]
  refine if_neg fun hnext => ?_
  rcases h with h | h
  · exact Bool.false_ne_true (h.symm.trans hnext.1)
  · omega

theorem nextDirty_isLeast {s : Migration} {d : Finset Nat} (h : s.Represents d) {start : Nat}
    (hsearch : s.bulkStage = false ∨ start = 0) (b : RAMBlock) :
    IsLeast (insert (b.offset + b.length)
        {k | k ∈ d ∧ b.offset + start ≤ k ∧ k < b.offset + b.length})
      (nextDirty b start s) := by
  have hleast := s.bitmap.findNextBit_isLeast (b.offset + b.length) (b.offset + start)
  simp only [h.bit] at hleast
  rwa [nextDirty_search hsearch]

theorem resetDirty_bulkStage (size next : Nat) (s : Migration) :
    (resetDirty size next s).bulkStage = s.bulkStage := by
  rw [resetDirty]
  by_cases hlt : next < size
  · rw [if_pos hlt]
  · rw [if_neg hlt]

theorem represents_find {s : Migration} {d : Finset Nat} (h : s.Represents d)
    (hbulk : s.bulkStage = false) {b : RAMBlock} (hint : b.offset + b.length ≤ 2 ^ 31)
    (start : Nat) :
    (Sum.inl (migrationBitmapFindAndResetDirty b start s).1 : Nat ⊕ Bool) =
        ((Access.find b start).take d).1 ∧
      (migrationBitmapFindAndResetDirty b start s).2.Represents
        ((Access.find b start).take d).2 := by
  have hleast := nextDirty_isLeast h (.inl hbulk : _ ∨ start = 0) b
  simp only [migrationBitmapFindAndResetDirty, Access.take, hleast.csInf_eq, true_and]
  by_cases hlt : nextDirty b start s < b.offset + b.length
  · rw [if_pos hlt]
    rcases hleast.1 with hend | hmem
    · exact absurd hend hlt.ne
    · exact represents_reset h hmem.1 hlt hint
  · rw [if_neg hlt, resetDirty, if_neg hlt]
    exact h

theorem represents_step {s : Migration} {d : Finset Nat} (h : s.Represents d)
    (hbulk : s.bulkStage = false) {a : Access} (ha : a.InRange) :
    (a.step s).1 = (a.take d).1 ∧ (a.step s).2.Represents (a.take d).2 ∧
      (a.step s).2.bulkStage = false := by
  cases a with
  | set b offset =>
      obtain ⟨hret, hnext⟩ := represents_set h ha
      exact ⟨congrArg Sum.inr hret, hnext, hbulk⟩
  | find b start =>
      obtain ⟨hret, hnext⟩ := represents_find h hbulk ha start
      exact ⟨hret, hnext, (resetDirty_bulkStage _ _ s).trans hbulk⟩

def threePages : RAMBlock := ⟨.empty, 0, 3⟩

example : (Access.run [.set threePages 2, .set threePages 1, .find threePages 0,
    .find threePages 1] ⟨fun _ => 0, 0, false⟩).1 =
      [.inr false, .inr false, .inl 1, .inl 2] := by
  decide +kernel

/--
In the bulk stage the page after the last one is taken without looking.  That is the page that
the search would give just when the last one has not been written again, and the one after it
is still to be sent, or is the end of the block.
-/
theorem findAndResetDirty_bulk_iff (s : Migration) (b : RAMBlock) {start : Nat}
    (hpos : 0 < start) (hstart : start < b.length) :
    (migrationBitmapFindAndResetDirty b start { s with bulkStage := true }).1 =
        (migrationBitmapFindAndResetDirty b start { s with bulkStage := false }).1 ↔
      s.bitmap.testBit (b.offset + start) = false ∧
        (start + 1 < b.length → s.bitmap.testBit (b.offset + start + 1) = true) := by
  have hbulk : nextDirty b start { s with bulkStage := true } = b.offset + start + 1 := by
    rw [nextDirty]
    exact if_pos ⟨rfl, by omega⟩
  obtain ⟨n, hn⟩ : ∃ n, n = nextDirty b start { s with bulkStage := false } := ⟨_, rfl⟩
  have hnext : Bitmap.IsNext s.bitmap (b.offset + start) (b.offset + b.length) n := by
    rw [hn, nextDirty_search (.inl rfl)]
    exact s.bitmap.findNextBit_isNext (by omega)
  have hle := hnext.start_le
  have hstop := hnext.le_stop
  simp only [migrationBitmapFindAndResetDirty, hbulk, ← hn]
  constructor
  · intro heq
    obtain rfl : n = b.offset + start + 1 := by omega
    exact ⟨hnext.clear _ le_rfl (Nat.lt_succ_self _), fun hlt => hnext.set (by omega)⟩
  · rintro ⟨hclear, hset⟩
    have hne : n ≠ b.offset + start := by
      rintro rfl
      rw [hnext.set (by omega)] at hclear
      cases hclear
    have hlast : ¬ b.offset + start + 1 < n := by
      intro hlt
      have hskipped := hnext.clear _ (Nat.le_succ _) hlt
      rw [hset (by omega)] at hskipped
      cases hskipped
    omega

theorem findAndResetDirty_bulk_again :
    (migrationBitmapFindAndResetDirty threePages 1 ⟨fun _ => 6, 2, true⟩).1 ≠
      (migrationBitmapFindAndResetDirty threePages 1 ⟨fun _ => 6, 2, false⟩).1 := by
  intro heq
  have hclear := ((findAndResetDirty_bulk_iff ⟨fun _ => 6, 2, true⟩ threePages (by decide)
    (by decide)).mp heq).1
  revert hclear
  decide

end SE4VM.Ram
