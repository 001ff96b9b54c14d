import Mathlib.Data.List.AList
import Mathlib.Data.List.Sort

/-!
# Dictionaries and sorted key lists

A `Dict` is an association list without repeated keys.  Its sorted keys ascend
strictly, and for strictly ascending lists the elements two of them share and
the elements only one has can be read off from the two heads.
-/

namespace SE4VM.Foundation

universe u v

abbrev Dict (κ : Type u) (ν : Type v) := AList fun _ : κ => ν

/-! ## Filling a dictionary -/

section Insert

variable {κ : Type u} {ν : Type v} [DecidableEq κ]

/-- Inserts the pairs from left to right; a later pair replaces an earlier one. -/
def Dict.insertAll (d : Dict κ ν) (ps : List (κ × ν)) : Dict κ ν :=
  ps.foldl (fun d p => d.insert p.1 p.2) d

theorem Dict.insertAll_cons (d : Dict κ ν) (p : κ × ν) (ps : List (κ × ν)) :
    d.insertAll (p :: ps) = Dict.insertAll (d.insert p.1 p.2) ps := rfl

theorem Dict.mem_insertAll {d : Dict κ ν} {ps : List (κ × ν)} {k : κ} :
    k ∈ d.insertAll ps ↔ k ∈ d ∨ k ∈ ps.map Prod.fst := by
  induction ps generalizing d with
  | nil => simp [insertAll]
  | cons p ps ih =>
      rw [insertAll_cons, ih, AList.mem_insert, List.map_cons, List.mem_cons]
      tauto

theorem Dict.length_keys_insertAll (d : Dict κ ν) (ps : List (κ × ν)) :
    (d.insertAll ps).keys.length ≤ d.keys.length + ps.length := by
  induction ps generalizing d with
  | nil => exact le_rfl
  | cons p ps ih =>
      have herase := (List.erase_sublist (a := p.1) (l := d.keys)).length_le
      have h := ih (d.insert p.1 p.2)
      rw [AList.keys_insert, List.length_cons] at h
      rw [insertAll_cons, List.length_cons]
      omega

theorem Dict.lookup_insertAll_of_notMem {d : Dict κ ν} {ps : List (κ × ν)} {k : κ}
    (h : k ∉ ps.map Prod.fst) : (d.insertAll ps).lookup k = d.lookup k := by
  induction ps generalizing d with
  | nil => rfl
  | cons p ps ih =>
      rw [List.map_cons, List.mem_cons, not_or] at h
      rw [insertAll_cons, ih h.2, AList.lookup_insert_ne h.1]

/-- Every value comes from a pair, or was there before. -/
theorem Dict.of_lookup_insertAll {d : Dict κ ν} {ps : List (κ × ν)} {k : κ} {v : ν}
    (h : (d.insertAll ps).lookup k = some v) : (k, v) ∈ ps ∨ d.lookup k = some v := by
  induction ps generalizing d with
  | nil => exact .inr h
  | cons p ps ih =>
      rw [insertAll_cons] at h
      rcases ih h with h | h
      · exact .inl (List.mem_cons_of_mem p h)
      · by_cases hk : k = p.1
        · subst hk
          rw [AList.lookup_insert] at h
          cases h
          exact .inl List.mem_cons_self
        · rw [AList.lookup_insert_ne hk] at h
          exact .inr h

theorem Dict.lookup_insertAll {d : Dict κ ν} {ps : List (κ × ν)} {p : κ × ν}
    (hnodup : (ps.map Prod.fst).Nodup) (hp : p ∈ ps) :
    (d.insertAll ps).lookup p.1 = some p.2 := by
  induction ps generalizing d with
  | nil => cases hp
  | cons q ps ih =>
      rw [List.map_cons, List.nodup_cons] at hnodup
      rw [insertAll_cons]
      rcases List.mem_cons.mp hp with rfl | hp
      · rw [lookup_insertAll_of_notMem hnodup.1, AList.lookup_insert]
      · exact ih hnodup.2 hp

end Insert

/-- Look-ups that all succeed. -/
theorem mapM_eq_some {α : Type u} {β : Type u} {f : α → Option β} {g : α → β} {l : List α}
    (h : ∀ a ∈ l, f a = some (g a)) : l.mapM f = some (l.map g) := by
  induction l with
  | nil => rfl
  | cons a l ih =>
      rw [List.mapM_cons, h a List.mem_cons_self, ih fun b hb => h b (List.mem_cons_of_mem a hb)]
      rfl

/-! ## Common and private elements -/

section Split

variable {α : Type u} [DecidableEq α] {x y : α} {xs ys : List α}

def common (xs ys : List α) : List α := xs.filter (· ∈ ys)

def without (xs ys : List α) : List α := xs.filter (· ∉ ys)

@[simp] theorem mem_common : x ∈ common xs ys ↔ x ∈ xs ∧ x ∈ ys := by
  simp [common]

@[simp] theorem mem_without : x ∈ without xs ys ↔ x ∈ xs ∧ x ∉ ys := by
  simp [without]

@[simp] theorem common_nil_left : common [] ys = [] := rfl

@[simp] theorem without_nil_left : without [] ys = [] := rfl

@[simp] theorem common_nil_right : common xs [] = [] := by
  simp [common]

@[simp] theorem without_nil_right : without xs [] = xs := by
  simp [without]

theorem common_cons_of_mem (h : x ∈ ys) : common (x :: xs) ys = x :: common xs ys :=
  List.filter_cons_of_pos (decide_eq_true h)

theorem common_cons_of_notMem (h : x ∉ ys) : common (x :: xs) ys = common xs ys :=
  List.filter_cons_of_neg (by simpa using h)

theorem without_cons_of_mem (h : x ∈ ys) : without (x :: xs) ys = without xs ys :=
  List.filter_cons_of_neg (by simpa using h)

theorem without_cons_of_notMem (h : x ∉ ys) : without (x :: xs) ys = x :: without xs ys :=
  List.filter_cons_of_pos (decide_eq_true h)

theorem common_cons_right (h : y ∉ xs) : common xs (y :: ys) = common xs ys := by
  refine List.filter_congr fun x hx => ?_
  have hne : x ≠ y := fun he => h (he ▸ hx)
  simp [hne]

theorem without_cons_right (h : y ∉ xs) : without xs (y :: ys) = without xs ys := by
  refine List.filter_congr fun x hx => ?_
  have hne : x ≠ y := fun he => h (he ▸ hx)
  simp [hne]

theorem common_append_without_perm (xs ys : List α) :
    (common xs ys ++ without xs ys).Perm xs := by
  have h := List.filter_append_perm (fun x => decide (x ∈ ys)) xs
  simpa [common, without] using h

theorem common_perm_comm (hx : xs.Nodup) (hy : ys.Nodup) :
    (common xs ys).Perm (common ys xs) := by
  have hxy : (common xs ys).Nodup := hx.filter _
  have hyx : (common ys xs).Nodup := hy.filter _
  rw [List.perm_ext_iff_of_nodup hxy hyx]
  intro a
  rw [mem_common, mem_common, and_comm]

end Split

/-! ## Ascending lists -/

section Ascending

variable {α : Type u} [LinearOrder α] {x y : α} {xs ys : List α}

abbrev Ascending (xs : List α) : Prop := xs.Pairwise (· < ·)

theorem Ascending.nodup (h : Ascending xs) : xs.Nodup := h.imp fun hlt => hlt.ne

theorem Ascending.notMem (h : Ascending (x :: xs)) : x ∉ xs :=
  fun hx => lt_irrefl x (List.rel_of_pairwise_cons h hx)

theorem Ascending.notMem_of_lt (h : Ascending (x :: xs)) (hlt : y < x) : y ∉ x :: xs := by
  intro hy
  rcases List.mem_cons.mp hy with rfl | hy
  · exact lt_irrefl y hlt
  · exact lt_asymm hlt (List.rel_of_pairwise_cons h hy)

theorem ascending_common (h : Ascending xs) (ys : List α) : Ascending (common xs ys) :=
  List.Pairwise.filter _ h

theorem ascending_without (h : Ascending xs) (ys : List α) : Ascending (without xs ys) :=
  List.Pairwise.filter _ h

/-- Equal heads are common, and neither occurs again. -/
theorem Ascending.split_self (hx : Ascending (x :: xs)) (hy : Ascending (x :: ys)) :
    common (x :: xs) (x :: ys) = x :: common xs ys ∧
      without (x :: xs) (x :: ys) = without xs ys ∧
      without (x :: ys) (x :: xs) = without ys xs := by
  refine ⟨?_, ?_, ?_⟩
  · rw [common_cons_of_mem List.mem_cons_self, common_cons_right hx.notMem]
  · rw [without_cons_of_mem List.mem_cons_self, without_cons_right hx.notMem]
  · rw [without_cons_of_mem List.mem_cons_self, without_cons_right hy.notMem]

/-- The smaller of two different heads is private to its list. -/
theorem Ascending.split_lt (hy : Ascending (y :: ys)) (hlt : x < y) (xs : List α) :
    common (x :: xs) (y :: ys) = common xs (y :: ys) ∧
      without (x :: xs) (y :: ys) = x :: without xs (y :: ys) ∧
      without (y :: ys) (x :: xs) = without (y :: ys) xs ∧
      common (y :: ys) (x :: xs) = common (y :: ys) xs := by
  have hnot := hy.notMem_of_lt hlt
  exact ⟨common_cons_of_notMem hnot, without_cons_of_notMem hnot, without_cons_right hnot,
    common_cons_right hnot⟩

variable {ν : Type v}

def Dict.sortedKeys (d : Dict α ν) : List α := d.keys.insertionSort (· ≤ ·)

theorem Dict.sortedKeys_perm (d : Dict α ν) : d.sortedKeys.Perm d.keys :=
  List.perm_insertionSort _ _

theorem Dict.ascending_sortedKeys (d : Dict α ν) : Ascending d.sortedKeys := by
  have hnodup : d.sortedKeys.Nodup := d.sortedKeys_perm.nodup_iff.mpr d.keys_nodup
  have hle : d.sortedKeys.Pairwise (· ≤ ·) := List.pairwise_insertionSort _ _
  exact (hle.and hnodup).imp fun h => lt_of_le_of_ne h.1 h.2

end Ascending

end SE4VM.Foundation
