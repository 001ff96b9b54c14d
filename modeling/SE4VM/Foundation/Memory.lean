import Mathlib.Data.List.Basic
import Mathlib.Data.Nat.Basic
import Mathlib.Tactic.Ring
import Mathlib.Tactic.Push

/-!
# Byte codecs and byte-addressed memory

Words are laid out least-significant byte first; the network order used inside
packets is the reversed layout.  Memory is a total map from 64-bit addresses to
bytes, and a block transfer that runs past the last address continues at zero.
-/

namespace SE4VM.Foundation

abbrev U8 := BitVec 8
abbrev U16 := BitVec 16
abbrev U32 := BitVec 32
abbrev U64 := BitVec 64

/-! ## Byte codecs -/

def ofLe : List U8 → Nat
  | [] => 0
  | b :: bs => b.toNat + 256 * ofLe bs

def toLe : Nat → Nat → List U8
  | 0, _ => []
  | n + 1, v => BitVec.ofNat 8 v :: toLe n (v / 256)

def ofBe (bs : List U8) : Nat := ofLe bs.reverse

def toBe (n v : Nat) : List U8 := (toLe n v).reverse

@[simp] theorem length_toLe (n v : Nat) : (toLe n v).length = n := by
  induction n generalizing v with
  | zero => rfl
  | succ n ih => simp [toLe, ih]

@[simp] theorem length_toBe (n v : Nat) : (toBe n v).length = n := by
  simp [toBe]

theorem ofLe_toLe (n v : Nat) : ofLe (toLe n v) = v % 256 ^ n := by
  induction n generalizing v with
  | zero => simp [toLe, ofLe, Nat.mod_one]
  | succ n ih =>
      simp only [toLe, ofLe, ih, BitVec.toNat_ofNat]
      rw [show 256 ^ (n + 1) = 256 * 256 ^ n by ring, Nat.mod_mul]

theorem ofBe_toBe (n v : Nat) : ofBe (toBe n v) = v % 256 ^ n := by
  rw [ofBe, toBe, List.reverse_reverse, ofLe_toLe]

theorem getElem?_toLe {n v k : Nat} (h : k < n) :
    (toLe n v)[k]? = some (BitVec.ofNat 8 (v / 256 ^ k)) := by
  induction n generalizing v k with
  | zero => omega
  | succ n ih =>
      cases k with
      | zero => simp [toLe]
      | succ k =>
          rw [toLe, List.getElem?_cons_succ, ih (Nat.lt_of_succ_lt_succ h), Nat.div_div_eq_div_mul,
            Nat.pow_succ, Nat.mul_comm]

theorem toLe_add (n m : Nat) {v : Nat} (u : Nat) (hv : v < 256 ^ n) :
    toLe (n + m) (v + 256 ^ n * u) = toLe n v ++ toLe m u := by
  induction n generalizing v with
  | zero =>
      obtain rfl : v = 0 := by simpa using hv
      simp [toLe]
  | succ n ih =>
      have hlt : v / 256 < 256 ^ n := by
        rw [Nat.pow_succ] at hv
        exact Nat.div_lt_of_lt_mul (by rwa [Nat.mul_comm])
      have hsum : v + 256 ^ (n + 1) * u = v + 256 * (256 ^ n * u) := by ring
      have hdiv : (v + 256 * (256 ^ n * u)) / 256 = v / 256 + 256 ^ n * u := by omega
      have hlow : BitVec.ofNat 8 (v + 256 * (256 ^ n * u)) = BitVec.ofNat 8 v :=
        BitVec.eq_of_toNat_eq (by rw [BitVec.toNat_ofNat, BitVec.toNat_ofNat]; omega)
      rw [hsum, Nat.succ_add, toLe, hlow, hdiv, ih hlt, toLe, List.cons_append]

theorem toLe_ofLe (bs : List U8) : toLe bs.length (ofLe bs) = bs := by
  induction bs with
  | nil => rfl
  | cons b bs ih =>
      have hb := b.isLt
      have hdiv : (b.toNat + 256 * ofLe bs) / 256 = ofLe bs := by omega
      have hmod : BitVec.ofNat 8 (b.toNat + 256 * ofLe bs) = b :=
        BitVec.eq_of_toNat_eq (by rw [BitVec.toNat_ofNat]; omega)
      rw [List.length_cons, ofLe, toLe, hdiv, hmod, ih]

/-- Only the low `n` bytes of a number are laid out. -/
theorem toLe_mod (n v : Nat) : toLe n (v % 256 ^ n) = toLe n v := by
  induction n generalizing v with
  | zero => rfl
  | succ n ih =>
      have hlow : BitVec.ofNat 8 (v % 256 ^ (n + 1)) = BitVec.ofNat 8 v := by
        apply BitVec.eq_of_toNat_eq
        rw [BitVec.toNat_ofNat, BitVec.toNat_ofNat]
        exact Nat.mod_mod_of_dvd v (Dvd.intro_left (256 ^ n) rfl)
      have hhigh : v % 256 ^ (n + 1) / 256 = v / 256 % 256 ^ n := by
        rw [Nat.pow_succ, Nat.mul_comm, Nat.mod_mul_right_div_self]
      rw [toLe, toLe, hlow, hhigh, ih]

/-! ## Memory -/

abbrev Memory := U64 → U8

namespace Memory

/-- How far `x` lies above `a`, going around the address space if necessary. -/
def offset (a x : U64) : Nat := (x - a).toNat

def read (m : Memory) (a : U64) (n : Nat) : List U8 :=
  (List.range n).map fun i => m (a + BitVec.ofNat 64 i)

def write (m : Memory) (a : U64) (bs : List U8) : Memory :=
  fun x => bs.getD (offset a x) (m x)

theorem offset_lt (a x : U64) : offset a x < 2 ^ 64 := (x - a).isLt

@[simp] theorem offset_self_add (a : U64) (i : Nat) :
    offset a (a + BitVec.ofNat 64 i) = i % 2 ^ 64 := by
  rw [offset, BitVec.add_comm, BitVec.add_sub_cancel, BitVec.toNat_ofNat]

theorem sub_add_eq (x a b : U64) : x - (a + b) = x - a - b := by
  rw [BitVec.sub_eq_add_neg, BitVec.neg_add, BitVec.sub_eq_add_neg x,
    BitVec.sub_eq_add_neg, BitVec.sub_eq_add_neg, BitVec.add_assoc]

theorem offset_add (a x : U64) (n : Nat) :
    offset (a + BitVec.ofNat 64 n) x =
      (2 ^ 64 - n % 2 ^ 64 + offset a x) % 2 ^ 64 := by
  rw [offset, sub_add_eq, BitVec.toNat_sub, BitVec.toNat_ofNat, offset]

@[simp] theorem length_read (m : Memory) (a : U64) (n : Nat) :
    (m.read a n).length = n := by
  simp [read]

@[simp] theorem write_nil (m : Memory) (a : U64) : m.write a [] = m := rfl

theorem write_apply_of_le (m : Memory) {a x : U64} {bs : List U8}
    (h : bs.length ≤ offset a x) : m.write a bs x = m x := by
  simp [write, h]

theorem write_apply_of_lt (m : Memory) {a x : U64} {bs : List U8}
    (h : offset a x < bs.length) : m.write a bs x = bs[offset a x] := by
  simp [write, h]

theorem add_ofNat_add (a : U64) (i j : Nat) :
    a + BitVec.ofNat 64 i + BitVec.ofNat 64 j = a + BitVec.ofNat 64 (i + j) := by
  rw [BitVec.add_assoc, BitVec.ofNat_add]

theorem getElem_read (m : Memory) (a : U64) {n i : Nat}
    (h : i < (m.read a n).length) :
    (m.read a n)[i] = m (a + BitVec.ofNat 64 i) := by
  simp [read]

theorem read_congr {m m' : Memory} {a a' : U64} {n : Nat}
    (h : ∀ i < n, m (a + BitVec.ofNat 64 i) = m' (a' + BitVec.ofNat 64 i)) :
    m.read a n = m'.read a' n := by
  simp only [read]
  apply List.map_congr_left
  intro i hi
  exact h i (List.mem_range.mp hi)

theorem read_add (m : Memory) (a : U64) (n k : Nat) :
    m.read a (n + k) = m.read a n ++ m.read (a + BitVec.ofNat 64 n) k := by
  simp only [read, List.range_add, List.map_append, List.map_map]
  refine congrArg _ (List.map_congr_left fun i _ => ?_)
  rw [add_ofNat_add]
  rfl

theorem read_write_self (m : Memory) (a : U64) (bs : List U8)
    (h : bs.length ≤ 2 ^ 64) : (m.write a bs).read a bs.length = bs := by
  apply List.ext_getElem (by simp)
  intro i hi hi'
  have hoff : offset a (a + BitVec.ofNat 64 i) = i := by
    rw [offset_self_add]
    exact Nat.mod_eq_of_lt (by omega)
  rw [getElem_read, write_apply_of_lt m (by rw [hoff]; exact hi')]
  simp only [hoff]

/-- The two blocks have no address in common. -/
def Disjoint (a : U64) (n : Nat) (b : U64) (k : Nat) : Prop :=
  ∀ i < n, k ≤ offset b (a + BitVec.ofNat 64 i)

instance (a : U64) (n : Nat) (b : U64) (k : Nat) : Decidable (Disjoint a n b k) :=
  inferInstanceAs (Decidable (∀ i < n, k ≤ offset b (a + BitVec.ofNat 64 i)))

theorem Disjoint.mono {a b : U64} {n m m' : Nat} (h : Disjoint a n b m) (hle : m' ≤ m) :
    Disjoint a n b m' :=
  fun i hi => hle.trans (h i hi)

theorem Disjoint.mono_left {a b : U64} {n n' m : Nat} (h : Disjoint a n b m) (hle : n' ≤ n) :
    Disjoint a n' b m :=
  fun i hi => h i (by omega)

theorem Disjoint.symm {a b : U64} {n m : Nat} (h : Disjoint a n b m) : Disjoint b m a n := by
  intro i hi
  by_contra hlt
  have hle := h (offset a (b + BitVec.ofNat 64 i)) (by omega)
  have heq : a + BitVec.ofNat 64 (offset a (b + BitVec.ofNat 64 i)) = b + BitVec.ofNat 64 i := by
    rw [offset, BitVec.ofNat_toNat, BitVec.setWidth_eq, BitVec.add_comm, BitVec.sub_add_cancel]
  rw [heq, offset_self_add] at hle
  have hmod := Nat.mod_le i (2 ^ 64)
  omega

theorem disjoint_of_le {a b : U64} {n k : Nat} (ha : a.toNat + n ≤ 2 ^ 64)
    (hb : b.toNat + k ≤ 2 ^ 64) (h : a.toNat + n ≤ b.toNat ∨ b.toNat + k ≤ a.toNat) :
    Disjoint a n b k := by
  intro i hi
  rw [offset, BitVec.toNat_sub, BitVec.toNat_add, BitVec.toNat_ofNat]
  omega

/-- A block that avoids another one avoids the end of it. -/
theorem Disjoint.add_right {a b : U64} {n k l : Nat} (h : Disjoint a n b (k + l))
    (hsize : k + l ≤ 2 ^ 64) : Disjoint a n (b + BitVec.ofNat 64 k) l := by
  intro i hi
  have hle := h i hi
  have hlt := offset_lt b (a + BitVec.ofNat 64 i)
  rw [offset_add]
  omega

theorem read_write_of_disjoint (m : Memory) {a b : U64} {n : Nat} {bs : List U8}
    (h : Disjoint a n b bs.length) : (m.write b bs).read a n = m.read a n :=
  read_congr fun i hi => write_apply_of_le m (h i hi)

theorem write_append (m : Memory) (a : U64) (bs cs : List U8)
    (h : bs.length + cs.length ≤ 2 ^ 64) :
    m.write a (bs ++ cs) =
      (m.write a bs).write (a + BitVec.ofNat 64 bs.length) cs := by
  funext x
  have hx := offset_lt a x
  simp only [write, offset_add]
  by_cases hlt : offset a x < bs.length
  · have hge : cs.length ≤
        (2 ^ 64 - bs.length % 2 ^ 64 + offset a x) % 2 ^ 64 := by
      omega
    have hnone : cs[(2 ^ 64 - bs.length % 2 ^ 64 + offset a x) % 2 ^ 64]? = none :=
      List.getElem?_eq_none hge
    simp only [List.getD_eq_getElem?_getD, hnone, Option.getD_none,
      List.getElem?_append_left hlt]
  · have heq : (2 ^ 64 - bs.length % 2 ^ 64 + offset a x) % 2 ^ 64 =
        offset a x - bs.length := by
      omega
    have hnone : bs[offset a x]? = none := List.getElem?_eq_none (by omega)
    simp only [List.getD_eq_getElem?_getD, heq, hnone, Option.getD_none,
      List.getElem?_append_right (Nat.le_of_not_lt hlt)]

def blank : Memory := fun _ => 0

theorem read_blank (a : U64) (n : Nat) : blank.read a n = List.replicate n 0 := by
  simp only [read, blank, List.map_const', List.length_range]

def readWord (m : Memory) (a : U64) (n : Nat) : Nat := ofLe (m.read a n)

end Memory

end SE4VM.Foundation
