import SE4VM.Foundation.Dict
import SE4VM.Foundation.Run

/-!
# The comparison of `SE-Diff.py`

`compare` sorts the keys of two dictionaries and walks both lists at once.  The
keys are digests in the script; any linearly ordered type will do here.
-/

namespace SE4VM.Scripts

open SE4VM.Foundation

universe u

/-- `[l0, l1, l2]`. -/
structure Comparison (κ : Type u) where
  l0 : List (κ × κ)
  l1 : List κ
  l2 : List κ
  deriving DecidableEq, Repr

structure Cursor (κ : Type u) extends Comparison κ where
  idxBefore : Nat
  idxAfter : Nat
  deriving DecidableEq, Repr

variable {κ : Type u} [LinearOrder κ]

/-- One round of the `while` loop over the sorted keys; it leaves when either list is used up. -/
def compareBody (before after : List κ) (s : Cursor κ) : Run (Step (Cursor κ) (Cursor κ)) :=
  match before[s.idxBefore]?, after[s.idxAfter]? with
  | some curBefore, some curAfter =>
      if curBefore = curAfter then
        .ok (.next { s with
          l0 := s.l0 ++ [(curBefore, curAfter)]
          idxBefore := s.idxBefore + 1
          idxAfter := s.idxAfter + 1 })
      else if curBefore < curAfter then
        .ok (.next { s with l1 := s.l1 ++ [curBefore], idxBefore := s.idxBefore + 1 })
      else
        .ok (.next { s with l2 := s.l2 ++ [curAfter], idxAfter := s.idxAfter + 1 })
  | _, _ => .ok (.done s)

def compare {ν μ : Type u} (fuel : Nat) (dict1 : Dict κ ν) (dict2 : Dict κ μ) :
    Run (Comparison κ) := do
  let before := dict1.sortedKeys
  let after := dict2.sortedKeys
  let s ← loop (compareBody before after) fuel ⟨⟨[], [], []⟩, 0, 0⟩
  return ⟨s.l0, s.l1 ++ before.drop s.idxBefore, s.l2 ++ after.drop s.idxAfter⟩

/-! ## The invariant of the walk -/

def selfPairs {α : Type u} (keys : List α) : List (α × α) := keys.map fun k => (k, k)

@[simp] theorem selfPairs_map_fst {α : Type u} (keys : List α) :
    (selfPairs keys).map Prod.fst = keys := by
  simp [selfPairs, Function.comp_def]

@[simp] theorem selfPairs_map_snd {α : Type u} (keys : List α) :
    (selfPairs keys).map Prod.snd = keys := by
  simp [selfPairs, Function.comp_def]

/-- What `compare` is for: both key lists split into what they share and what they do not. -/
def splitKeys (before after : List κ) : Comparison κ :=
  ⟨selfPairs (common before after), without before after, without after before⟩

def Comparison.append (c d : Comparison κ) : Comparison κ :=
  ⟨c.l0 ++ d.l0, c.l1 ++ d.l1, c.l2 ++ d.l2⟩

/-- The lists so far, followed by the split of the two remainders, are the split of the whole. -/
def Walked (before after : List κ) (s : Cursor κ) : Prop :=
  splitKeys before after =
    s.toComparison.append (splitKeys (before.drop s.idxBefore) (after.drop s.idxAfter))

variable {before after : List κ} {s : Cursor κ}

theorem compareBody_done
    (h : before[s.idxBefore]? = none ∨ after[s.idxAfter]? = none) :
    compareBody before after s = .ok (.done s) := by
  unfold compareBody
  split
  · next hb ha => simp [hb, ha] at h
  · rfl

/-- At the end one remainder is empty, and the other is private to its list. -/
theorem Walked.finish (hs : Walked before after s)
    (h : before[s.idxBefore]? = none ∨ after[s.idxAfter]? = none) :
    splitKeys before after =
      ⟨s.l0, s.l1 ++ before.drop s.idxBefore, s.l2 ++ after.drop s.idxAfter⟩ := by
  rw [hs]
  rcases h with h | h
  · rw [List.drop_eq_nil_of_le (List.getElem?_eq_none_iff.mp h)]
    simp [splitKeys, Comparison.append, selfPairs]
  · rw [List.drop_eq_nil_of_le (List.getElem?_eq_none_iff.mp h)]
    simp [splitKeys, Comparison.append, selfPairs]

private theorem drop_of_getElem? {α : Type u} {xs : List α} {i : Nat} {x : α}
    (h : xs[i]? = some x) : i < xs.length ∧ xs.drop i = x :: xs.drop (i + 1) := by
  obtain ⟨hi, rfl⟩ := List.getElem?_eq_some_iff.mp h
  exact ⟨hi, List.drop_eq_getElem_cons hi⟩

def Cursor.remaining (before after : List κ) (s : Cursor κ) : Nat :=
  (before.length - s.idxBefore) + (after.length - s.idxAfter)

theorem compareBody_next {curBefore curAfter : κ} (hbefore : Ascending before)
    (hafter : Ascending after) (hs : Walked before after s)
    (hb : before[s.idxBefore]? = some curBefore) (ha : after[s.idxAfter]? = some curAfter) :
    ∃ s', compareBody before after s = .ok (.next s') ∧ Walked before after s' ∧
      s'.remaining before after < s.remaining before after := by
  obtain ⟨hi, hdropb⟩ := drop_of_getElem? hb
  obtain ⟨hj, hdropa⟩ := drop_of_getElem? ha
  have hascb : Ascending (curBefore :: before.drop (s.idxBefore + 1)) :=
    hdropb ▸ hbefore.sublist (List.drop_sublist _ _)
  have hasca : Ascending (curAfter :: after.drop (s.idxAfter + 1)) :=
    hdropa ▸ hafter.sublist (List.drop_sublist _ _)
  rw [Walked, hdropb, hdropa] at hs
  unfold compareBody
  simp only [hb, ha]
  -- The smaller head is in one remainder only, so no later key can match it.
  rcases lt_trichotomy curBefore curAfter with hlt | rfl | hgt
  · obtain ⟨hcommon, honly, hother, -⟩ :=
      hasca.split_lt hlt (before.drop (s.idxBefore + 1))
    rw [if_neg hlt.ne, if_pos hlt]
    refine ⟨_, rfl, ?_, by simp only [Cursor.remaining]; omega⟩
    rw [Walked, hs, hdropa]
    simp [splitKeys, Comparison.append, hcommon, honly, hother]
  · obtain ⟨hcommon, honly, hother⟩ := hascb.split_self hasca
    rw [if_pos rfl]
    refine ⟨_, rfl, ?_, by simp only [Cursor.remaining]; omega⟩
    rw [Walked, hs]
    simp [splitKeys, Comparison.append, selfPairs, hcommon, honly, hother]
  · obtain ⟨-, honly, hother, hcommon⟩ :=
      hascb.split_lt hgt (after.drop (s.idxAfter + 1))
    rw [if_neg hgt.ne', if_neg hgt.asymm]
    refine ⟨_, rfl, ?_, by simp only [Cursor.remaining]; omega⟩
    rw [Walked, hs, hdropb]
    simp [splitKeys, Comparison.append, hcommon, honly, hother]

theorem compareBody_step (hbefore : Ascending before) (hafter : Ascending after)
    (hs : Walked before after s) :
    (∃ t, compareBody before after s = .ok (.done t) ∧
      splitKeys before after =
        ⟨t.l0, t.l1 ++ before.drop t.idxBefore, t.l2 ++ after.drop t.idxAfter⟩) ∨
    (∃ s', compareBody before after s = .ok (.next s') ∧ Walked before after s' ∧
      s'.remaining before after < s.remaining before after) := by
  cases hb : before[s.idxBefore]? with
  | none => exact .inl ⟨s, compareBody_done (.inl hb), hs.finish (.inl hb)⟩
  | some curBefore =>
      cases ha : after[s.idxAfter]? with
      | none => exact .inl ⟨s, compareBody_done (.inr ha), hs.finish (.inr ha)⟩
      | some curAfter => exact .inr (compareBody_next hbefore hafter hs hb ha)

section Whole

variable {ν μ : Type u} {dict1 : Dict κ ν} {dict2 : Dict κ μ} {fuel : Nat}

theorem compare_eq (hfuel : dict1.keys.length + dict2.keys.length < fuel) :
    compare fuel dict1 dict2 = .ok (splitKeys dict1.sortedKeys dict2.sortedKeys) := by
  have hstart : Walked dict1.sortedKeys dict2.sortedKeys ⟨⟨[], [], []⟩, 0, 0⟩ := by
    simp [Walked, Comparison.append]
  have hmeasure : Cursor.remaining dict1.sortedKeys dict2.sortedKeys ⟨⟨[], [], []⟩, 0, 0⟩ <
      fuel := by
    simp only [Cursor.remaining, dict1.sortedKeys_perm.length_eq, dict2.sortedKeys_perm.length_eq]
    omega
  obtain ⟨t, hloop, ht⟩ := loop_of_measure _ _ (Cursor.remaining _ _)
    (fun s hs => compareBody_step dict1.ascending_sortedKeys dict2.ascending_sortedKeys hs)
    hstart hmeasure
  simp only [compare, hloop, Run.ok_bind, Run.pure_def, ht]

/-- `l0` and `l1` partition the first key set, `l0` and `l2` the second, all ascending. -/
structure Partitions (c : Comparison κ) (keys1 keys2 : List κ) : Prop where
  mem_l0 : ∀ p, p ∈ c.l0 ↔ p.1 = p.2 ∧ p.1 ∈ keys1 ∧ p.1 ∈ keys2
  mem_l1 : ∀ k, k ∈ c.l1 ↔ k ∈ keys1 ∧ k ∉ keys2
  mem_l2 : ∀ k, k ∈ c.l2 ↔ k ∈ keys2 ∧ k ∉ keys1
  ascending_l0 : Ascending (c.l0.map Prod.fst)
  ascending_l1 : Ascending c.l1
  ascending_l2 : Ascending c.l2
  first : (c.l0.map Prod.fst ++ c.l1).Perm keys1
  second : (c.l0.map Prod.snd ++ c.l2).Perm keys2

theorem splitKeys_partitions (hbefore : Ascending before) (hafter : Ascending after) :
    Partitions (splitKeys before after) before after where
  mem_l0 p := by
    obtain ⟨k, l⟩ := p
    simp only [splitKeys, selfPairs, List.mem_map, mem_common, Prod.mk.injEq]
    constructor
    · rintro ⟨k, h, rfl, rfl⟩
      exact ⟨rfl, h⟩
    · rintro ⟨rfl, h⟩
      exact ⟨k, h, rfl, rfl⟩
  mem_l1 _ := mem_without
  mem_l2 _ := mem_without
  ascending_l0 := by
    rw [splitKeys, selfPairs_map_fst]
    exact ascending_common hbefore after
  ascending_l1 := ascending_without hbefore after
  ascending_l2 := ascending_without hafter before
  first := by
    rw [splitKeys, selfPairs_map_fst]
    exact common_append_without_perm before after
  second := by
    rw [splitKeys, selfPairs_map_snd]
    exact ((common_perm_comm hbefore.nodup hafter.nodup).append_right _).trans
      (common_append_without_perm after before)

theorem Partitions.mem_fst {c : Comparison κ} {keys1 keys2 : List κ}
    (h : Partitions c keys1 keys2) (k : κ) :
    k ∈ c.l0.map Prod.fst ↔ k ∈ keys1 ∧ k ∈ keys2 := by
  rw [List.mem_map]
  constructor
  · rintro ⟨p, hp, rfl⟩
    exact ((h.mem_l0 p).mp hp).2
  · intro hk
    exact ⟨(k, k), (h.mem_l0 (k, k)).mpr ⟨rfl, hk⟩, rfl⟩

theorem Partitions.perm {c : Comparison κ} {keys1 keys2 keys1' keys2' : List κ}
    (h : Partitions c keys1 keys2) (h1 : keys1.Perm keys1') (h2 : keys2.Perm keys2') :
    Partitions c keys1' keys2' where
  mem_l0 p := by rw [h.mem_l0, h1.mem_iff, h2.mem_iff]
  mem_l1 k := by rw [h.mem_l1, h1.mem_iff, h2.mem_iff]
  mem_l2 k := by rw [h.mem_l2, h1.mem_iff, h2.mem_iff]
  ascending_l0 := h.ascending_l0
  ascending_l1 := h.ascending_l1
  ascending_l2 := h.ascending_l2
  first := h.first.trans h1
  second := h.second.trans h2

theorem splitKeys_sortedKeys (dict1 : Dict κ ν) (dict2 : Dict κ μ) :
    Partitions (splitKeys dict1.sortedKeys dict2.sortedKeys) dict1.keys dict2.keys :=
  (splitKeys_partitions dict1.ascending_sortedKeys dict2.ascending_sortedKeys).perm
    dict1.sortedKeys_perm dict2.sortedKeys_perm

theorem compare_partitions (dict1 : Dict κ ν) (dict2 : Dict κ μ) {fuel : Nat}
    (hfuel : dict1.keys.length + dict2.keys.length < fuel) :
    ∃ c, compare fuel dict1 dict2 = .ok c ∧ Partitions c dict1.keys dict2.keys :=
  ⟨_, compare_eq hfuel, splitKeys_sortedKeys dict1 dict2⟩

theorem compare_partitions_interleaved :
    ∃ c, compare 6 (Dict.insertAll ∅ [(3, 'a'), (1, 'b')])
        (Dict.insertAll ∅ [(4, 'c'), (3, 'd'), (2, 'e')]) = .ok c ∧
      Partitions c [1, 3] [2, 3, 4] :=
  compare_partitions (Dict.insertAll ∅ [(3, 'a'), (1, 'b')])
    (Dict.insertAll ∅ [(4, 'c'), (3, 'd'), (2, 'e')]) (by decide)

end Whole

end SE4VM.Scripts
