import Mathlib.Data.List.Basic
import Mathlib.Tactic.Ring

/-!
# Cutting a string behind a header

The first `h` elements of a string are its header; what follows is cut into
segments of `m` elements, each sent behind a copy of the header.  A consumer that
takes the string in pieces knows, after every piece, how many segments have been
completed and what the open one holds.  Neither depends on the pieces.
-/

namespace SE4VM.Foundation

variable {α : Type}

theorem flatten_chunks (xs : List α) (n k : Nat) :
    ((List.range k).map fun j => (xs.drop (j * n)).take n).flatten = xs.take (k * n) := by
  induction k with
  | zero => simp
  | succ k ih =>
      rw [List.range_succ, List.map_append, List.flatten_append, ih, List.map_singleton,
        List.flatten_singleton, Nat.succ_mul, ← List.take_add]

namespace Segment

variable (h m : Nat)

/-- How many segments the first `n` elements complete. -/
def complete (n : Nat) : Nat := (n - h) / m

/-- How much of the open segment the first `n` elements fill. -/
def fill (n : Nat) : Nat := if n < h then n else h + (n - h) % m

def payload (xs : List α) (k : Nat) : List α := (xs.drop (h + k * m)).take m

def segment (xs : List α) (k : Nat) : List α := xs.take h ++ payload h m xs k

def segments (xs : List α) : List (List α) :=
  (List.range (complete h m xs.length + 1)).map (segment h m xs)

/-- The open segment after `xs`. -/
def rest (xs : List α) : List α :=
  if xs.length < h then xs else xs.take h ++ xs.drop (h + complete h m xs.length * m)

variable {h m}

theorem complete_mul_add (n : Nat) : complete h m n * m + (n - h) % m = n - h := by
  rw [complete, Nat.mul_comm]
  exact Nat.div_add_mod (n - h) m

theorem fill_lt (hm : 0 < m) (n : Nat) : fill h m n < h + m := by
  have := Nat.mod_lt (n - h) hm
  unfold fill
  split_ifs <;> omega

theorem length_rest (xs : List α) : (rest h m xs).length = fill h m xs.length := by
  have hsum := complete_mul_add (h := h) (m := m) xs.length
  unfold rest fill
  split_ifs with hlt
  · rfl
  · simp only [List.length_append, List.length_take, List.length_drop]
    omega

section Append

variable {xs ys : List α}

/-- A piece that does not fill the open segment goes to its end. -/
theorem rest_append (hm : 0 < m) (hlt : fill h m xs.length + ys.length < h + m) :
    complete h m (xs ++ ys).length = complete h m xs.length ∧
      rest h m (xs ++ ys) = rest h m xs ++ ys := by
  have hsum := complete_mul_add (h := h) (m := m) xs.length
  have hcount : complete h m (xs ++ ys).length = complete h m xs.length := by
    rw [List.length_append, complete]
    unfold fill at hlt
    split_ifs at hlt with hshort
    · rw [Nat.div_eq_of_lt (by omega), complete, Nat.sub_eq_zero_of_le (by omega), Nat.zero_div]
    · refine Nat.div_eq_of_lt_le (by omega) ?_
      rw [Nat.succ_mul]
      omega
  refine ⟨hcount, ?_⟩
  unfold rest
  rw [hcount]
  by_cases hshort : xs.length < h
  · have hzero : complete h m xs.length = 0 := by
      rw [complete, Nat.sub_eq_zero_of_le (by omega), Nat.zero_div]
    rw [if_pos hshort, hzero]
    split_ifs
    · rfl
    · rw [Nat.zero_mul, Nat.add_zero, List.take_append_drop]
  · have hle : h + complete h m xs.length * m ≤ xs.length := by omega
    rw [if_neg hshort, if_neg (by rw [List.length_append]; omega),
      List.take_append_of_le_length (by omega), List.drop_append_of_le_length hle,
      List.append_assoc]

/-- A piece that fills the open segment completes it. -/
theorem rest_complete (hm : 0 < m) (heq : fill h m xs.length + ys.length = h + m) :
    complete h m (xs ++ ys).length = complete h m xs.length + 1 ∧
      rest h m xs ++ ys = segment h m (xs ++ ys) (complete h m xs.length) ∧
      rest h m (xs ++ ys) = (xs ++ ys).take h := by
  have hsum := complete_mul_add (h := h) (m := m) xs.length
  -- The string now ends with the segment.
  have hlen : (xs ++ ys).length = h + complete h m xs.length * m + m := by
    rw [List.length_append]
    unfold fill at heq
    split_ifs at heq with hshort
    · have hzero : complete h m xs.length = 0 := by
        rw [complete, Nat.sub_eq_zero_of_le (by omega), Nat.zero_div]
      rw [hzero]
      omega
    · omega
  have hcount : complete h m (xs ++ ys).length = complete h m xs.length + 1 := by
    rw [complete, hlen, show h + complete h m xs.length * m + m - h =
      (complete h m xs.length + 1) * m by rw [Nat.succ_mul]; omega, Nat.mul_div_cancel _ hm]
  refine ⟨hcount, ?_, ?_⟩
  · have hdrop : ((xs ++ ys).drop (h + complete h m xs.length * m)).length = m := by
      rw [List.length_drop]
      omega
    rw [segment, payload, List.take_of_length_le hdrop.le]
    unfold rest
    by_cases hshort : xs.length < h
    · have hzero : complete h m xs.length = 0 := by
        rw [complete, Nat.sub_eq_zero_of_le (by omega), Nat.zero_div]
      rw [if_pos hshort, hzero, Nat.zero_mul, Nat.add_zero, List.take_append_drop]
    · rw [if_neg hshort, List.take_append_of_le_length (by omega),
        List.drop_append_of_le_length (by omega), List.append_assoc]
  · unfold rest
    rw [hcount, if_neg (by omega), List.drop_eq_nil_of_le (by rw [hlen, Nat.succ_mul]; omega),
      List.append_nil]

/-- What is completed stays as it is. -/
theorem segment_append {k : Nat} (hk : k < complete h m xs.length) :
    segment h m (xs ++ ys) k = segment h m xs k := by
  have hsum := complete_mul_add (h := h) (m := m) xs.length
  have hle : (k + 1) * m ≤ complete h m xs.length * m := Nat.mul_le_mul_right m hk
  rw [Nat.succ_mul] at hle
  have hpos : 0 < m := by
    by_contra hm
    rw [complete, Nat.eq_zero_of_not_pos hm, Nat.div_zero] at hk
    omega
  rw [segment, segment, payload, payload, List.take_append_of_le_length (by omega),
    List.drop_append_of_le_length (by omega), List.take_append_of_le_length]
  rw [List.length_drop]
  omega

end Append

/-! ## The segments of a whole string -/

section Whole

variable {xs : List α}

theorem length_payload {k : Nat} (hk : k < complete h m xs.length) :
    (payload h m xs k).length = m := by
  have hsum := complete_mul_add (h := h) (m := m) xs.length
  have hle : (k + 1) * m ≤ complete h m xs.length * m := Nat.mul_le_mul_right m hk
  rw [Nat.succ_mul] at hle
  rw [payload, List.length_take, List.length_drop]
  omega

theorem length_payload_last (hm : 0 < m) :
    (payload h m xs (complete h m xs.length)).length = (xs.length - h) % m := by
  have hsum := complete_mul_add (h := h) (m := m) xs.length
  have hlt := Nat.mod_lt (xs.length - h) hm
  rw [payload, List.length_take, List.length_drop]
  omega

/-- The open segment is the last one. -/
theorem rest_eq_segment (hm : 0 < m) (hh : h ≤ xs.length) :
    rest h m xs = segment h m xs (complete h m xs.length) := by
  have hlt := Nat.mod_lt (xs.length - h) hm
  have hall : payload h m xs (complete h m xs.length) =
      xs.drop (h + complete h m xs.length * m) := by
    refine List.take_of_length_le ?_
    have hsum := complete_mul_add (h := h) (m := m) xs.length
    rw [List.length_drop]
    omega
  rw [rest, if_neg (by omega), segment, hall]

theorem length_payload_le (xs : List α) (k : Nat) : (payload h m xs k).length ≤ m :=
  List.length_take_le _ _

theorem take_of_mem_segments (hh : h ≤ xs.length) {ys : List α} (hys : ys ∈ segments h m xs) :
    ys.take h = xs.take h := by
  obtain ⟨k, -, rfl⟩ := List.mem_map.mp hys
  exact List.take_left' (List.length_take_of_le hh)

theorem map_drop_segments (hh : h ≤ xs.length) :
    (segments h m xs).map (List.drop h) =
      (List.range (complete h m xs.length + 1)).map (payload h m xs) := by
  rw [segments, List.map_map]
  exact List.map_congr_left fun k _ => List.drop_left' (List.length_take_of_le hh)

theorem flatten_payloads (hm : 0 < m) :
    ((List.range (complete h m xs.length + 1)).map (payload h m xs)).flatten = xs.drop h := by
  have hsum := complete_mul_add (h := h) (m := m) xs.length
  have hlt := Nat.mod_lt (xs.length - h) hm
  have hfun : payload h m xs = fun k => ((xs.drop h).drop (k * m)).take m := by
    funext k
    rw [payload, List.drop_drop]
  rw [hfun, flatten_chunks, List.take_of_length_le]
  rw [List.length_drop, Nat.succ_mul]
  omega

/-- A segment that another one follows is full. -/
theorem pairwise_payloads :
    ((List.range (complete h m xs.length + 1)).map (payload h m xs)).Pairwise
      fun p _ => p.length = m := by
  rw [List.pairwise_map]
  refine List.pairwise_lt_range.imp_of_mem fun hi hj hij => length_payload ?_
  rw [List.mem_range] at hj
  omega

/-- The last segment is one too many if the others take up all there is to send. -/
theorem complete_succ_eq_iff (hm : 0 < m) (n : Nat) :
    complete h m n + 1 = max 1 ((n - h + m - 1) / m) ↔ n - h = 0 ∨ ¬ m ∣ n - h := by
  have hsum := complete_mul_add (h := h) (m := m) n
  have hlt := Nat.mod_lt (n - h) hm
  rw [Nat.dvd_iff_mod_eq_zero]
  by_cases hrest : (n - h) % m = 0
  · have hceil : (n - h + m - 1) / m = complete h m n :=
      Nat.div_eq_of_lt_le (by omega) (by rw [Nat.succ_mul]; omega)
    have hzero : n - h = 0 ↔ complete h m n = 0 := by
      constructor
      · intro hn
        rw [complete, hn, Nat.zero_div]
      · intro hc
        rw [← hsum, hc, hrest, Nat.zero_mul]
    rw [hceil, hzero]
    omega
  · have hceil : (n - h + m - 1) / m = complete h m n + 1 :=
      Nat.div_eq_of_lt_le (by rw [Nat.succ_mul]; omega) (by rw [Nat.succ_mul, Nat.succ_mul]; omega)
    rw [hceil]
    omega

theorem payload_ne_nil (hm : 0 < m) (hrest : ¬ m ∣ xs.length - h) {k : Nat}
    (hk : k ≤ complete h m xs.length) : payload h m xs k ≠ [] := by
  rw [Nat.dvd_iff_mod_eq_zero] at hrest
  have hpos : 0 < (payload h m xs k).length := by
    rcases Nat.lt_or_eq_of_le hk with hlt | rfl
    · rw [length_payload hlt]
      exact hm
    · rw [length_payload_last hm]
      omega
  exact List.ne_nil_of_length_pos hpos

end Whole

end Segment

end SE4VM.Foundation
