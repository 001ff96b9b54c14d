import SE4VM.Foundation.Carry
import SE4VM.E1000.TsoHeader

/-!
# Checksum insertion

`putsum` sums the bytes behind `css`, the checksum field with what it holds among
them, and stores the complement of the folded sum.  The words of the window then
add up to the complement of what the field held before.  For a segment the field
holds the sum of the pseudo header, to which `xmit_seg` adds the segment's length.
-/

namespace SE4VM.E1000

open SE4VM.Foundation

/-! ## Folding -/

def foldStep (sum : U32) : U32 := (sum &&& 0xffff#32) + (sum >>> 16)

theorem ushiftRight_eq_zero_iff (sum : U32) : sum >>> 16 = 0 ↔ sum.toNat < 2 ^ 16 := by
  rw [← BitVec.toNat_inj, BitVec.toNat_ushiftRight, Nat.shiftRight_eq_div_pow]
  change sum.toNat / 2 ^ 16 = 0 ↔ _
  omega

theorem toNat_foldStep (sum : U32) :
    (foldStep sum).toNat = sum.toNat % 2 ^ 16 + sum.toNat / 2 ^ 16 := by
  have hlt := sum.isLt
  have hand : (sum &&& 0xffff#32).toNat = sum.toNat % 2 ^ 16 := by
    rw [BitVec.toNat_and]
    exact Nat.and_two_pow_sub_one_eq_mod sum.toNat 16
  rw [foldStep, BitVec.toNat_add, hand, BitVec.toNat_ushiftRight, Nat.shiftRight_eq_div_pow]
  omega

theorem foldSum_of_zero {sum : U32} (h : sum >>> 16 = 0) : foldSum sum = sum := by
  rw [foldSum, dif_neg (not_not.mpr h)]

theorem foldSum_of_ne {sum : U32} (h : sum >>> 16 ≠ 0) : foldSum sum = foldSum (foldStep sum) := by
  rw [foldSum, dif_pos h, foldStep]

theorem foldSum_iterate (sum : U32) :
    ∃ k ≤ 2, foldStep^[k] sum >>> 16 = 0 ∧ foldSum sum = foldStep^[k] sum := by
  have hlt := sum.isLt
  have hone := toNat_foldStep sum
  have htwo := toNat_foldStep (foldStep sum)
  by_cases h₀ : sum >>> 16 = 0
  · exact ⟨0, by decide, h₀, foldSum_of_zero h₀⟩
  · by_cases h₁ : foldStep sum >>> 16 = 0
    · exact ⟨1, by decide, h₁, (foldSum_of_ne h₀).trans (foldSum_of_zero h₁)⟩
    · have h₂ : foldStep (foldStep sum) >>> 16 = 0 := by
        rw [ushiftRight_eq_zero_iff] at h₁ ⊢
        omega
      exact ⟨2, by decide, h₂,
        (foldSum_of_ne h₀).trans ((foldSum_of_ne h₁).trans (foldSum_of_zero h₂))⟩

theorem toNat_foldSum (sum : U32) : (foldSum sum).toNat = fold16 sum.toNat := by
  fun_induction foldSum sum with
  | case1 sum h ih =>
      rw [Ne, ushiftRight_eq_zero_iff, Nat.not_lt] at h
      rw [ih, fold16_of_le h, ← toNat_foldStep]
      rfl
  | case2 sum h =>
      rw [not_not, ushiftRight_eq_zero_iff] at h
      rw [fold16_of_lt h]

theorem toNat_netChecksumFinish (sum : U32) :
    (netChecksumFinish sum).toNat = 65535 - fold16 sum.toNat := by
  have hlt := fold16_lt sum.toNat
  rw [netChecksumFinish, BitVec.toNat_not, BitVec.toNat_setWidth, toNat_foldSum,
    Nat.mod_eq_of_lt hlt]

/-! ## The running sum -/

theorem Buffer.slice_succ (b : Buffer) (start n : Nat) :
    b.slice start (n + 1) = b.slice start n ++ [b (start + n)] :=
  Buffer.slice_append b start n 1

/-- No window of the array can make the 32-bit sum overflow. -/
theorem toNat_netChecksumAdd (buf : Buffer) (start : Nat) {k : Nat} (hk : k ≤ txDataBytes) :
    (netChecksumAdd buf start k).toNat = wordSum (buf.slice start k) := by
  induction k with
  | zero => rfl
  | succ k ih =>
      have hb := (buf (start + k)).isLt
      have hle := wordSum_le (buf.slice start (k + 1))
      have hbyte : ((buf (start + k)).setWidth 32 : U32).toNat = (buf (start + k)).toNat :=
        BitVec.toNat_setWidth_of_le (by decide)
      have hhigh : ((buf (start + k)).setWidth 32 <<< 8 : U32).toNat =
          256 * (buf (start + k)).toNat := by
        rw [BitVec.toNat_shiftLeft, hbyte, Nat.shiftLeft_eq]
        omega
      rw [Buffer.length_slice, Buffer.slice_succ, wordSum_concat, Buffer.length_slice] at hle
      simp only [txDataBytes] at hk
      rw [netChecksumAdd, BitVec.toNat_add, ih (by simp only [txDataBytes]; omega),
        Buffer.slice_succ, wordSum_concat, Buffer.length_slice]
      split_ifs at hle ⊢
      · rw [hbyte]
        omega
      · rw [hhigh]
        omega

/-! ## The window -/

def sumEnd (n cse : U32) : Nat :=
  if 0 < cse.toNat ∧ cse.toNat < n.toNat then cse.toNat + 1 else n.toNat

theorem sumEnd_le (n cse : U32) : sumEnd n cse ≤ n.toNat := by
  rw [sumEnd]
  split_ifs <;> omega

theorem toNat_sumEnd (n cse : U32) :
    (if cse ≠ 0 ∧ cse < n then cse + 1 else n).toNat = sumEnd n cse := by
  have hn := n.isLt
  have hzero : cse ≠ 0 ↔ 0 < cse.toNat := by
    rw [Ne, ← BitVec.toNat_inj, show (0 : U32).toNat = 0 from rfl]
    omega
  have hcond : cse ≠ 0 ∧ cse < n ↔ 0 < cse.toNat ∧ cse.toNat < n.toNat :=
    and_congr hzero Iff.rfl
  by_cases h : cse ≠ 0 ∧ cse < n
  · have hlt := hcond.mp h
    rw [if_pos h, sumEnd, if_pos hlt, BitVec.toNat_add, show (1 : U32).toNat = 1 from rfl]
    omega
  · rw [if_neg h, sumEnd, if_neg (mt hcond.mpr h)]

theorem toNat_loadBe16 (b : Buffer) (i : Nat) :
    (b.loadBe16 i).toNat = 256 * (b i).toNat + (b (i + 1)).toNat := by
  have hhigh := (b i).isLt
  have hlow := (b (i + 1)).isLt
  rw [Buffer.loadBe16, show b.slice i 2 = [b i, b (i + 1)] from rfl, BitVec.toNat_ofNat]
  simp only [ofBe, List.reverse_cons, List.reverse_nil, List.nil_append, List.singleton_append,
    ofLe]
  omega

theorem loadBe16_storeBe16 (b : Buffer) (i : Nat) (v : U16) : (b.storeBe16 i v).loadBe16 i = v := by
  rw [Buffer.loadBe16, Buffer.ofBe_slice_storeBe16, BitVec.ofNat_toNat, BitVec.setWidth_eq]

theorem wordSum_field (b : Buffer) (i : Nat) : wordSum (b.slice i 2) = (b.loadBe16 i).toNat := by
  rw [toNat_loadBe16]
  rfl

/-- What `putsum` achieves, for the window from `css` up to the end of the sum. -/
structure SumInserted (data : Buffer) (n sloc css cse : U32) : Prop where
  folds : fold16 (wordSum ((putsum data n sloc css cse).slice css.toNat
    (sumEnd n cse - css.toNat)) + (data.loadBe16 sloc.toNat).toNat) = 0xffff
  others : ∀ i, i ≠ sloc.toNat → i ≠ sloc.toNat + 1 →
    putsum data n sloc css cse i = data i
  /-- The 32-bit sum is the sum of the words, after every byte. -/
  running : ∀ k ≤ sumEnd n cse - css.toNat,
    (netChecksumAdd data css.toNat k).toNat = wordSum (data.slice css.toNat k)
  /-- The folding loop is left after at most two turns. -/
  folding : ∀ sum, ∃ k ≤ 2, foldStep^[k] sum >>> 16 = 0 ∧ foldSum sum = foldStep^[k] sum

section Window

variable (data : Buffer) {n sloc css cse : U32} (hcss : css.toNat ≤ sloc.toNat)
  (hsloc : sloc.toNat + 1 < sumEnd n cse)
include hcss hsloc

/-- The window is what comes before the field, the field and what comes behind it. -/
theorem wordSum_window (heven : (sloc.toNat - css.toNat) % 2 = 0) :
    wordSum (data.slice css.toNat (sumEnd n cse - css.toNat)) =
      wordSum (data.slice css.toNat (sloc.toNat - css.toNat)) +
        (data.loadBe16 sloc.toNat).toNat +
        wordSum (data.slice (sloc.toNat + 2) (sumEnd n cse - (sloc.toNat + 2))) := by
  have hsplit : sumEnd n cse - css.toNat =
      sloc.toNat - css.toNat + (2 + (sumEnd n cse - (sloc.toNat + 2))) := by omega
  have hfield : css.toNat + (sloc.toNat - css.toNat) = sloc.toNat := by omega
  rw [hsplit, Buffer.slice_append, hfield, Buffer.slice_append,
    wordSum_append _ (by rw [Buffer.length_slice]; exact heven),
    wordSum_append _ (by rw [Buffer.length_slice]), wordSum_field, Nat.add_assoc]

variable (hmax : n.toNat ≤ txDataBytes)
include hmax

theorem putsum_eq : putsum data n sloc css cse = data.storeBe16 sloc.toNat
    (netChecksumFinish (netChecksumAdd data css.toNat (sumEnd n cse - css.toNat))) := by
  have hle := sumEnd_le n cse
  have hend := toNat_sumEnd n cse
  simp only [txDataBytes] at hmax
  rw [putsum]
  generalize (if cse ≠ 0 ∧ cse < n then cse + 1 else n) = m at *
  have hlt : sloc < m - 1 := by
    rw [BitVec.lt_def, BitVec.toNat_sub_of_le (by rw [BitVec.le_def]; change 1 ≤ _; omega)]
    change _ < _ - 1
    omega
  have hlen : (m - css).toNat = sumEnd n cse - css.toNat := by
    rw [BitVec.toNat_sub_of_le (by rw [BitVec.le_def]; omega), hend]
  have hint : (m - css).toInt.toNat = sumEnd n cse - css.toNat := by
    rw [BitVec.toInt_eq_toNat_of_lt (by omega), hlen]
    rfl
  simp only [if_pos hlt, hint]

theorem putsum_sumInserted (heven : (sloc.toNat - css.toNat) % 2 = 0) :
    SumInserted data n sloc css cse := by
  have hle := sumEnd_le n cse
  have hput := putsum_eq data hcss hsloc hmax
  have hsum := toNat_netChecksumAdd data css.toNat
    (show sumEnd n cse - css.toNat ≤ txDataBytes by omega)
  refine ⟨?_, fun i hi hi' => ?_, fun k hk => toNat_netChecksumAdd data css.toNat (by omega),
    foldSum_iterate⟩
  · have hold := wordSum_window data hcss hsloc heven
    have hnew := wordSum_window (putsum data n sloc css cse) hcss hsloc heven
    have hbefore : (putsum data n sloc css cse).slice css.toNat (sloc.toNat - css.toNat) =
        data.slice css.toNat (sloc.toNat - css.toNat) := by
      rw [hput, Buffer.slice_storeBe16_of_disjoint _ _ (.inl (by omega))]
    have hbehind : (putsum data n sloc css cse).slice (sloc.toNat + 2)
        (sumEnd n cse - (sloc.toNat + 2)) =
        data.slice (sloc.toNat + 2) (sumEnd n cse - (sloc.toNat + 2)) := by
      rw [hput, Buffer.slice_storeBe16_of_disjoint _ _ (.inr le_rfl)]
    have hfield : ((putsum data n sloc css cse).loadBe16 sloc.toNat).toNat =
        65535 - fold16 (wordSum (data.slice css.toNat (sumEnd n cse - css.toNat))) := by
      rw [hput, loadBe16_storeBe16, toNat_netChecksumFinish, hsum]
    rw [hbefore, hbehind, hfield] at hnew
    have hlt := fold16_lt (wordSum (data.slice css.toNat (sumEnd n cse - css.toNat)))
    have hmod := fold16_mod (wordSum (data.slice css.toNat (sumEnd n cse - css.toNat)))
    have hpos : wordSum (data.slice css.toNat (sumEnd n cse - css.toNat)) = 0 →
        fold16 (wordSum (data.slice css.toNat (sumEnd n cse - css.toNat))) = 0 := fun h => by
      rw [h, fold16_of_lt (by decide)]
    -- The new words and the old value: the old sum and the complement of its fold.
    apply fold16_eq_ones <;> omega
  · rw [hput]
    exact Buffer.apply_eq_of_slice (Buffer.slice_storeBe16_of_disjoint _ _ (by omega))

end Window

/-! ## Segments -/

def editedFields (tp : E1000Tx) : List (Nat × Nat) := networkFields tp ++ transportFields tp

/--
What `putsum` finds in the checksum field of a segment: the value the guest has put
there, plus the length of the segment behind `tucss`, with the carry folded in.
-/
structure PseudoSum (tp : E1000Tx) : Prop where
  folded : ((segmentHeader tp).data.loadBe16 tp.tucso.toNat).toNat =
    fold16 (((segmentEdits tp).loadBe16 tp.tucso.toNat).toNat +
      (tp.size.toNat - tp.tucss.toNat))
  guest : (∀ f ∈ editedFields tp, tp.tucso.toNat + 2 ≤ f.1 ∨ f.1 + f.2 ≤ tp.tucso.toNat) →
    (segmentEdits tp).loadBe16 tp.tucso.toNat = tp.data.loadBe16 tp.tucso.toNat
  /-- The header in front of a segment is that of the packet. -/
  header : ∀ {c plain bytes k}, TsoCall c plain bytes k tp → c.h ≤ bytes.length →
    tp.tucso.toNat + 2 ≤ c.h →
    tp.data.loadBe16 tp.tucso.toNat = BitVec.ofNat 16 (field bytes tp.tucso.toNat 2)

section Segment

variable {tp : E1000Tx}

theorem segmentHeader_txsm (h : test tp.sumNeeded txdPoptsTxsm = true) :
    (segmentHeader tp).data = (segmentEdits tp).storeBe16 tp.tucso.toNat
      ((foldStep (((segmentEdits tp).loadBe16 tp.tucso.toNat).setWidth 32 +
        (tp.size - tp.tucss.setWidth 16).setWidth 32)).setWidth 16) := by
  rw [segmentHeader_edits]
  simp only [pseudoEdit]
  rw [if_pos h, foldStep, BitVec.add_comm (_ &&& _)]

theorem segmentEdits_slice {a n : Nat} (h : ∀ f ∈ editedFields tp, a + n ≤ f.1 ∨ f.1 + f.2 ≤ a) :
    (segmentEdits tp).slice a n = tp.data.slice a n := by
  rw [editedFields, List.forall_mem_append] at h
  rw [segmentEdits, transportEdit_slice _ h.2, networkEdit_slice _ h.1]

theorem toNat_foldStep_add (x y : U16) :
    ((foldStep (x.setWidth 32 + y.setWidth 32)).setWidth 16 : U16).toNat =
      fold16 (x.toNat + y.toNat) := by
  have hx := x.isLt
  have hy := y.isLt
  have hadd : (x.setWidth 32 + y.setWidth 32 : U32).toNat = x.toNat + y.toNat := by
    rw [BitVec.toNat_add, BitVec.toNat_setWidth_of_le (by decide),
      BitVec.toNat_setWidth_of_le (by decide)]
    omega
  rw [BitVec.toNat_setWidth, toNat_foldStep, hadd]
  by_cases hcarry : x.toNat + y.toNat < 2 ^ 16
  · rw [fold16_of_lt hcarry]
    omega
  · rw [fold16_of_le (Nat.not_lt.mp hcarry), fold16_of_lt (by omega)]
    omega

theorem pseudoSum (hsum : test tp.sumNeeded txdPoptsTxsm = true)
    (hsize : tp.tucss.toNat ≤ tp.size.toNat) : PseudoSum tp := by
  have hcss : (tp.tucss.setWidth 16).toNat = tp.tucss.toNat :=
    BitVec.toNat_setWidth_of_le (by decide)
  have hlen : (tp.size - tp.tucss.setWidth 16).toNat = tp.size.toNat - tp.tucss.toNat := by
    rw [BitVec.toNat_sub_of_le (by rw [BitVec.le_def, hcss]; exact hsize), hcss]
  refine ⟨?_, fun hapart => ?_, fun hcall hh hin => ?_⟩
  · rw [segmentHeader_txsm hsum, loadBe16_storeBe16, toNat_foldStep_add, hlen]
  · rw [Buffer.loadBe16, segmentEdits_slice hapart, Buffer.loadBe16]
  · rw [Buffer.loadBe16, hcall.slice_data hh hin, field]

end Segment

/--
`putsum` completes the sum of its window to ones, for every frame that fits the
array.  For a segment it does so with the sum of the pseudo header.
-/
theorem checksum_inserted (data : Buffer) {n sloc css cse : U32}
    (hmax : n.toNat ≤ txDataBytes) (hcss : css.toNat ≤ sloc.toNat)
    (hsloc : sloc.toNat + 1 < sumEnd n cse) (heven : (sloc.toNat - css.toNat) % 2 = 0) :
    SumInserted data n sloc css cse ∧
    ∀ tp : E1000Tx, (tp.tse && tp.cptse) = true → test tp.sumNeeded txdPoptsTxsm = true →
      tp.tucss.toNat ≤ tp.size.toNat → PseudoSum tp :=
  ⟨putsum_sumInserted data hcss hsloc hmax heven, fun _ _ => pseudoSum⟩

theorem checksum_inserted_odd :
    ∃ data : Buffer, data.loadBe16 4 = 0x1234 ∧ SumInserted data 60 4 2 8 := by
  refine ⟨Buffer.store (fun _ => 0xff) 4 [0x12, 0x34], by decide, ?_⟩
  exact (checksum_inserted _ (by decide) (by decide) (by decide) (by decide)).1

end SE4VM.E1000
