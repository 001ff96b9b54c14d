import Mathlib.Data.Set.Card
import SE4VM.Foundation.Run
import SE4VM.Ram.DirtyBitmap

/-!
# The walk through the blocks

`ram_save_block` goes on where it has stopped, block after block and round the list, until it has
sent a page or is back at its start.  What it does with a page it has found is a parameter here.
-/

namespace SE4VM.Ram

open Foundation

variable {σ : Type}

/-- `last_seen_block` as its place in the list, `last_offset`, and what the sending changes. -/
structure Walk (σ : Type) where
  migration : Migration
  lastSeen : Option Nat
  lastOffset : Nat
  out : σ
  /-- The pages that have been found; nothing reads it. -/
  handed : List Nat

structure Cursor (σ : Type) where
  index : Nat
  offset : Nat
  completeRound : Bool
  bytesSent : Nat
  migration : Migration
  out : σ
  handed : List Nat

section Walks

variable (send : Bool → RAMBlock → Nat → σ → Nat × σ) (blocks : List RAMBlock)

def saveRound (w : Walk σ) (c : Cursor σ) : Run (Step (Cursor σ) (Cursor σ)) :=
  match blocks[c.index]? with
  | none => .fault
  | some b =>
      let found := migrationBitmapFindAndResetDirty b c.offset c.migration
      if c.completeRound = true ∧ w.lastSeen = some c.index ∧ w.lastOffset ≤ found.1 then
        .ok (.done { c with offset := found.1, migration := found.2 })
      else if b.length ≤ found.1 then
        if c.index + 1 < blocks.length then
          .ok (.next { c with index := c.index + 1, offset := 0, migration := found.2 })
        else
          .ok (.next { c with
            index := 0, offset := 0, completeRound := true
            migration := { found.2 with bulkStage := false } })
      else
        let sent := send found.2.bulkStage b found.1 c.out
        let c := { c with
          offset := found.1, bytesSent := sent.1, migration := found.2, out := sent.2
          handed := c.handed ++ [b.offset + found.1] }
        -- a page that is not sent is passed over
        if 0 < sent.1 then .ok (.done c) else .ok (.next c)

def Walk.cursor (w : Walk σ) : Cursor σ :=
  ⟨w.lastSeen.getD 0, w.lastOffset, false, 0, w.migration, w.out, w.handed⟩

def Cursor.walk (c : Cursor σ) : Walk σ := ⟨c.migration, some c.index, c.offset, c.out, c.handed⟩

def ramSaveBlock (fuel : Nat) (w : Walk σ) : Run (Nat × Walk σ) := do
  let c ← loop (saveRound send blocks w) fuel w.cursor
  pure (c.bytesSent, c.walk)

def completeRound (fuel : Nat) (w : Walk σ) : Run (Step (Walk σ) (Walk σ)) := do
  let (bytesSent, w) ← ramSaveBlock send blocks fuel w
  pure (if bytesSent = 0 then .done w else .next w)

def ramSaveComplete (fuel : Nat) : Walk σ → Run (Walk σ) :=
  loop (completeRound send blocks fuel) fuel

end Walks

/-! ## What is found -/

theorem find_cases {s : Migration} {d : Finset Nat} (h : s.Represents d) {start : Nat}
    (hsearch : s.bulkStage = false ∨ start = 0) (b : RAMBlock) {found : Nat × Migration}
    (hfound : migrationBitmapFindAndResetDirty b start s = found) :
    found.2.bulkStage = s.bulkStage ∧
      (∀ k, start ≤ k → k < found.1 → k < b.length → b.offset + k ∉ d) ∧
      (found.1 = b.length ∧ found.2.Represents d ∨
        found.1 < b.length ∧ start ≤ found.1 ∧ b.offset + found.1 ∈ d ∧
          (b.offset + b.length ≤ 2 ^ 31 →
            found.2.Represents (d.erase (b.offset + found.1)))) := by
  subst hfound
  have hleast := nextDirty_isLeast h hsearch b
  simp only [migrationBitmapFindAndResetDirty]
  refine ⟨resetDirty_bulkStage _ _ s, fun k hk hlt hlen hmem => ?_, ?_⟩
  · have hle := hleast.2 (Set.mem_insert_of_mem _ ⟨hmem, by omega, by omega⟩)
    omega
  · rcases hleast.1 with hend | ⟨hmem, hlo, hhi⟩
    · left
      rw [hend, resetDirty, if_neg (lt_irrefl _)]
      exact ⟨Nat.add_sub_cancel_left _ _, h⟩
    · right
      have hback : b.offset + (nextDirty b start s - b.offset) = nextDirty b start s := by omega
      rw [hback]
      exact ⟨by omega, by omega, hmem, represents_reset h hmem hhi⟩

theorem Migration.Represents.card_eq {s : Migration} {d : Finset Nat} (h : s.Represents d) :
    Set.ncard {n | s.bitmap.testBit n = true} = d.card := by
  have hset : {n | s.bitmap.testBit n = true} = (d : Set Nat) := by
    ext n
    exact h.bit n
  rw [hset, Set.ncard_coe_finset]

/-- `new` is what has been taken from `d`, each page once, and `d'` what is left. -/
structure Drained (d : Finset Nat) (new : List Nat) (d' : Finset Nat) : Prop where
  nodup : new.Nodup
  apart : ∀ n ∈ new, n ∉ d'
  whole : ∀ n, n ∈ d ↔ n ∈ d' ∨ n ∈ new

namespace Drained

theorem refl (d : Finset Nat) : Drained d [] d := ⟨List.nodup_nil, by simp, by simp⟩

theorem trans {d d' d'' : Finset Nat} {new new' : List Nat} (h : Drained d new d')
    (h' : Drained d' new' d'') : Drained d (new ++ new') d'' where
  nodup := by
    refine h.nodup.append h'.nodup fun n hn hn' => h.apart n hn ?_
    exact (h'.whole n).mpr (.inr hn')
  apart n hn hleft := by
    rcases List.mem_append.mp hn with hn | hn
    · exact h.apart n hn ((h'.whole n).mpr (.inl hleft))
    · exact h'.apart n hn hleft
  whole n := by
    rw [h.whole, h'.whole, List.mem_append, or_assoc, or_comm (a := n ∈ new')]

theorem single {d : Finset Nat} {n : Nat} (hn : n ∈ d) : Drained d [n] (d.erase n) where
  nodup := List.nodup_singleton n
  apart k hk hleft := by
    rw [List.mem_singleton] at hk
    exact (Finset.mem_erase.mp hleft).1 hk
  whole k := by
    rw [Finset.mem_erase, List.mem_singleton]
    by_cases hk : k = n
    · simp [hk, hn]
    · simp [hk]

theorem card_le {d d' : Finset Nat} {new : List Nat} (h : Drained d new d') : d'.card ≤ d.card :=
  Finset.card_le_card fun n hn => (h.whole n).mpr (.inl hn)

end Drained

/-! ## One round -/

def Before (i o j k : Nat) : Prop := j < i ∨ j = i ∧ k < o

def Cursor.Passed (i o : Nat) (c : Cursor σ) (j k : Nat) : Prop :=
  if c.completeRound = true then Before c.index c.offset j k ∨ ¬ Before i o j k
  else Before c.index c.offset j k ∧ ¬ Before i o j k

/-- Nothing that has been passed is still to be sent. -/
structure Walking (blocks : List RAMBlock) (w : Walk σ) (i : Nat) (d : Finset Nat) (c : Cursor σ)
    (d' : Finset Nat) : Prop where
  represents : c.migration.Represents d'
  search : c.migration.bulkStage = false
  drained : ∃ new, c.handed = w.handed ++ new ∧ Drained d new d'
  bytes : c.bytesSent = 0
  valid : c.index < blocks.length
  place : if c.completeRound = true then c.index ≤ i else ¬ Before i w.lastOffset c.index c.offset
  clean : ∀ j b, blocks[j]? = some b → ∀ k < b.length, c.Passed i w.lastOffset j k →
    b.offset + k ∉ d'

structure Ended (blocks : List RAMBlock) (w : Walk σ) (d : Finset Nat) (c : Cursor σ)
    (d' : Finset Nat) : Prop where
  represents : c.migration.Represents d'
  search : c.migration.bulkStage = false
  drained : ∃ new, c.handed = w.handed ++ new ∧ Drained d new d'
  valid : ∃ b, blocks[c.index]? = some b ∧ c.offset ≤ b.length
  ended : if c.bytesSent = 0 then ∀ b ∈ blocks, ∀ k < b.length, b.offset + k ∉ d'
    else d'.card < d.card

def Cursor.blocksLeft (blocks : List RAMBlock) (c : Cursor σ) : Nat :=
  if c.completeRound = true then blocks.length - c.index else 2 * blocks.length - c.index

/-- After the end of a block: at the next block, or at the first one of another round. -/
def Cursor.turn (blocks : List RAMBlock) (c : Cursor σ) (s : Migration) : Cursor σ :=
  if c.index + 1 < blocks.length then { c with index := c.index + 1, offset := 0, migration := s }
  else { c with
    index := 0, offset := 0, completeRound := true, migration := { s with bulkStage := false } }

/-- Every round finds a dirty page or comes to the end of a block. -/
noncomputable def walkMeasure (blocks : List RAMBlock) (c : Cursor σ) : Nat :=
  Set.ncard {n | c.migration.bitmap.testBit n = true} + c.blocksLeft blocks

section Rounds

variable (send : Bool → RAMBlock → Nat → σ → Nat × σ) {blocks : List RAMBlock} {w : Walk σ}
  {i : Nat} {d d' : Finset Nat} {c : Cursor σ} {b : RAMBlock}

theorem saveRound_turn (hb : blocks[c.index]? = some b) {found : Nat × Migration}
    (hfound : migrationBitmapFindAndResetDirty b c.offset c.migration = found)
    (hback : ¬ (c.completeRound = true ∧ w.lastSeen = some c.index ∧ w.lastOffset ≤ found.1))
    (hend : b.length ≤ found.1) :
    saveRound send blocks w c = .ok (.next (c.turn blocks found.2)) := by
  simp only [saveRound, hb, hfound, Cursor.turn]
  rw [if_neg hback, if_pos hend]
  by_cases hmore : c.index + 1 < blocks.length
  · rw [if_pos hmore, if_pos hmore]
  · rw [if_neg hmore, if_neg hmore]

namespace Cursor

theorem turn_index_lt (hvalid : c.index < blocks.length) (s : Migration) :
    (c.turn blocks s).index < blocks.length := by
  rw [turn]
  split
  · assumption
  · exact Nat.zero_lt_of_lt hvalid

theorem turn_offset (s : Migration) : (c.turn blocks s).offset = 0 := by
  rw [turn]
  split <;> rfl

theorem turn_bytesSent (s : Migration) : (c.turn blocks s).bytesSent = c.bytesSent := by
  rw [turn]
  split <;> rfl

theorem turn_handed (s : Migration) : (c.turn blocks s).handed = c.handed := by
  rw [turn]
  split <;> rfl

theorem turn_represents {s : Migration} (h : s.Represents d) :
    (c.turn blocks s).migration.Represents d := by
  rw [turn]
  split
  · exact h
  · exact ⟨h.bit, h.count⟩

theorem turn_bulkStage {s : Migration} (h : s.bulkStage = false) :
    (c.turn blocks s).migration.bulkStage = false := by
  rw [turn]
  split
  · exact h
  · rfl

theorem turn_blocksLeft_lt (hvalid : c.index < blocks.length)
    (hahead : c.completeRound = true → c.index + 1 < blocks.length) (s : Migration) :
    (c.turn blocks s).blocksLeft blocks < c.blocksLeft blocks := by
  rw [turn]
  by_cases hmore : c.index + 1 < blocks.length
  · rw [if_pos hmore]
    simp only [blocksLeft]
    split <;> omega
  · have hround : c.completeRound = false := Bool.eq_false_iff.mpr (hmore ∘ hahead)
    simp only [if_neg hmore, blocksLeft, hround, Bool.false_eq_true, if_false, if_true]
    omega

end Cursor

theorem Walking.clean_next (h : Walking blocks w i d c d') (hb : blocks[c.index]? = some b)
    {found : Nat} (hskip : ∀ k, c.offset ≤ k → k < found → k < b.length → b.offset + k ∉ d')
    {c' : Cursor σ} {d'' : Finset Nat} (hsub : d'' ⊆ d')
    (hpassed : ∀ j k, j < blocks.length → c'.Passed i w.lastOffset j k →
      c.Passed i w.lastOffset j k ∨
        j = c.index ∧ c.offset ≤ k ∧ (k < found ∨ b.length ≤ found)) :
    ∀ j b, blocks[j]? = some b → ∀ k < b.length, c'.Passed i w.lastOffset j k →
      b.offset + k ∉ d'' := by
  intro j b' hb' k hk hpass hmem
  have hj : j < blocks.length := (List.getElem?_eq_some_iff.mp hb').1
  rcases hpassed j k hj hpass with hold | ⟨rfl, hle, hfound⟩
  · exact h.clean j b' hb' k hk hold (hsub hmem)
  · obtain rfl : b' = b := Option.some.inj (hb'.symm.trans hb)
    exact hskip k hle (by omega) hk (hsub hmem)

theorem Walking.ended (h : Walking blocks w i d c d') (hb : blocks[c.index]? = some b)
    (hclear : ∀ k, c.offset ≤ k → k < b.length → b.offset + k ∉ d')
    (hround : c.completeRound = true) (hindex : c.index = i) :
    ∀ b ∈ blocks, ∀ k < b.length, b.offset + k ∉ d' := by
  intro b' hb' k hk
  obtain ⟨j, hj⟩ := List.mem_iff_getElem?.mp hb'
  by_cases hcase : j = c.index ∧ c.offset ≤ k
  · obtain ⟨rfl, hle⟩ := hcase
    obtain rfl : b' = b := Option.some.inj (hj.symm.trans hb)
    exact hclear k hle hk
  · refine h.clean j b' hj k hk ?_
    rw [Cursor.Passed, if_pos hround]
    simp only [Before]
    omega

theorem Walking.turn (h : Walking blocks w i d c d') (hb : blocks[c.index]? = some b)
    {s : Migration} (hrep : s.Represents d') (hsearch : s.bulkStage = false)
    (hclear : ∀ k, c.offset ≤ k → k < b.length → b.offset + k ∉ d')
    (hahead : c.completeRound = true → c.index < i) (hi : i < blocks.length) :
    Walking blocks w i d (c.turn blocks s) d' := by
  have hplace := h.place
  refine ⟨c.turn_represents hrep, c.turn_bulkStage hsearch, ?_, (c.turn_bytesSent s).trans h.bytes,
    c.turn_index_lt h.valid s, ?_, h.clean_next hb (fun k hle hlt _ => hclear k hle hlt) subset_rfl
      fun j k hj hpass => ?_⟩
  · rw [c.turn_handed]
    exact h.drained
  · rw [Cursor.turn]
    by_cases hmore : c.index + 1 < blocks.length
    · rw [if_pos hmore]
      dsimp only
      cases hround : c.completeRound with
      | true => exact hahead hround
      | false =>
          rw [hround] at hplace
          simp only [Before, Bool.false_eq_true, if_false] at hplace ⊢
          omega
    · rw [if_neg hmore]
      exact Nat.zero_le i
  · rw [Cursor.turn] at hpass
    simp only [Cursor.Passed, Before] at hpass ⊢
    cases hround : c.completeRound with
    | true =>
        have hlt := hahead hround
        simp only [hround, if_pos (by omega : c.index + 1 < blocks.length), if_true] at hpass ⊢
        omega
    | false =>
        by_cases hmore : c.index + 1 < blocks.length
        · simp only [hmore, hround, Bool.false_eq_true, if_false, if_true] at hpass ⊢
          omega
        · simp only [hmore, Bool.false_eq_true, if_false, if_true] at hpass ⊢
          omega

theorem Walking.drained_found (h : Walking blocks w i d c d') {n : Nat} (hn : n ∈ d') :
    ∃ new, c.handed ++ [n] = w.handed ++ new ∧ Drained d new (d'.erase n) := by
  obtain ⟨new, hhanded, hdrained⟩ := h.drained
  refine ⟨new ++ [n], ?_, hdrained.trans (.single hn)⟩
  rw [hhanded, List.append_assoc]

theorem Walking.passPage (h : Walking blocks w i d c d') (hb : blocks[c.index]? = some b)
    {found : Nat} (hle : c.offset ≤ found) (hmem : b.offset + found ∈ d') {s : Migration}
    (hrep : s.Represents (d'.erase (b.offset + found))) (hsearch : s.bulkStage = false)
    (hskip : ∀ k, c.offset ≤ k → k < found → k < b.length → b.offset + k ∉ d') {bytesSent : Nat}
    (hbytes : bytesSent = 0) (out : σ) :
    Walking blocks w i d { c with
      offset := found, bytesSent := bytesSent, migration := s, out := out
      handed := c.handed ++ [b.offset + found] } (d'.erase (b.offset + found)) := by
  have hplace := h.place
  refine ⟨hrep, hsearch, h.drained_found hmem, hbytes, h.valid, ?_, ?_⟩
  · dsimp only
    cases hround : c.completeRound with
    | true => simpa [hround] using hplace
    | false =>
        rw [hround] at hplace
        simp only [Before, Bool.false_eq_true, if_false] at hplace ⊢
        omega
  · refine h.clean_next hb hskip (Finset.erase_subset _ _) fun j k _ hpass => ?_
    simp only [Cursor.Passed, Before] at hpass ⊢
    cases hround : c.completeRound with
    | true =>
        simp only [hround, if_true] at hpass ⊢
        omega
    | false =>
        simp only [hround, Bool.false_eq_true, if_false] at hpass ⊢
        omega

variable (hint : ∀ b ∈ blocks, b.offset + b.length ≤ 2 ^ 31)

include hint

theorem walking_round (hlast : w.lastSeen = some i) {b₀ : RAMBlock} (hb₀ : blocks[i]? = some b₀)
    (hoffset : w.lastOffset ≤ b₀.length) (h : Walking blocks w i d c d') :
    (∃ c', saveRound send blocks w c = .ok (.done c') ∧ ∃ d'', Ended blocks w d c' d'') ∨
      (∃ c', saveRound send blocks w c = .ok (.next c') ∧ (∃ d'', Walking blocks w i d c' d'') ∧
        walkMeasure blocks c' < walkMeasure blocks c) := by
  obtain ⟨b, hb⟩ : ∃ b, blocks[c.index]? = some b := ⟨_, List.getElem?_eq_getElem h.valid⟩
  obtain ⟨found, hfound⟩ :
      ∃ found, migrationBitmapFindAndResetDirty b c.offset c.migration = found := ⟨_, rfl⟩
  obtain ⟨hstage, hskip, hcases⟩ := find_cases h.represents (.inl h.search) b hfound
  have hsearch := hstage.trans h.search
  have hvalid := h.valid
  have hi : i < blocks.length := (List.getElem?_eq_some_iff.mp hb₀).1
  rcases hcases with ⟨hend, hrep⟩ | ⟨hlt, hle, hmem, hreset⟩
  · -- no page in the rest of the block
    have hclear : ∀ k, c.offset ≤ k → k < b.length → b.offset + k ∉ d' :=
      fun k hle hlt => hskip k hle (hend ▸ hlt) hlt
    by_cases hback : c.completeRound = true ∧ w.lastSeen = some c.index ∧ w.lastOffset ≤ found.1
    · left
      obtain rfl : i = c.index := Option.some.inj (hlast.symm.trans hback.2.1)
      simp only [saveRound, hb, hfound]
      rw [if_pos hback]
      refine ⟨_, rfl, d', hrep, hsearch, h.drained, ⟨b, hb, hend.le⟩, ?_⟩
      dsimp only
      rw [if_pos h.bytes]
      exact h.ended hb hclear hback.1 rfl
    · right
      have hahead : c.completeRound = true → c.index < i := by
        intro hround
        have hplace := h.place
        rw [if_pos hround] at hplace
        refine lt_of_le_of_ne hplace ?_
        rintro rfl
        obtain rfl : b = b₀ := Option.some.inj (hb.symm.trans hb₀)
        exact hback ⟨hround, hlast, by omega⟩
      refine ⟨_, saveRound_turn send hb hfound hback hend.ge,
        ⟨d', h.turn hb hrep hsearch hclear hahead hi⟩, ?_⟩
      have hleft := c.turn_blocksLeft_lt hvalid
        (fun hround => Nat.lt_of_le_of_lt (hahead hround) hi) found.2
      rw [walkMeasure, walkMeasure, (c.turn_represents hrep).card_eq, h.represents.card_eq]
      omega
  · -- a page is found, which has not been passed before
    have hrep := hreset (hint b (List.mem_of_getElem? hb))
    have hfresh : ¬ (c.completeRound = true ∧ w.lastSeen = some c.index ∧
        w.lastOffset ≤ found.1) := by
      rintro ⟨hround, hseen, hpast⟩
      obtain rfl : i = c.index := Option.some.inj (hlast.symm.trans hseen)
      refine h.clean _ b hb found.1 hlt ?_ hmem
      rw [Cursor.Passed, if_pos hround]
      simp only [Before]
      omega
    have hcard := Finset.card_erase_lt_of_mem hmem
    simp only [saveRound, hb, hfound]
    rw [if_neg hfresh, if_neg (Nat.not_le.mpr hlt)]
    by_cases hsent : 0 < (send found.2.bulkStage b found.1 c.out).1
    · left
      obtain ⟨new, -, hdrained⟩ := h.drained
      rw [if_pos hsent]
      refine ⟨_, rfl, _, hrep, hsearch, h.drained_found hmem, ⟨b, hb, hlt.le⟩, ?_⟩
      dsimp only
      rw [if_neg hsent.ne']
      exact hcard.trans_le hdrained.card_le
    · right
      rw [if_neg hsent]
      refine ⟨_, rfl, ⟨_, h.passPage hb hle hmem hrep hsearch hskip
        (Nat.eq_zero_of_not_pos hsent) _⟩, ?_⟩
      simp only [walkMeasure, Cursor.blocksLeft, hrep.card_eq, h.represents.card_eq]
      omega

theorem ramSaveBlock_ended (hrep : w.migration.Represents d)
    (hsearch : w.migration.bulkStage = false) (hlast : w.lastSeen = some i) {b₀ : RAMBlock}
    (hb₀ : blocks[i]? = some b₀) (hoffset : w.lastOffset ≤ b₀.length) {fuel : Nat}
    (hfuel : d.card + 2 * blocks.length < fuel) :
    ∃ c, ramSaveBlock send blocks fuel w = .ok (c.bytesSent, c.walk) ∧
      ∃ d', Ended blocks w d c d' := by
  have hi : i < blocks.length := (List.getElem?_eq_some_iff.mp hb₀).1
  have hindex : w.cursor.index = i := by
    rw [Walk.cursor, hlast]
    rfl
  have hstart : Walking blocks w i d w.cursor d := by
    refine ⟨hrep, hsearch, ⟨[], (List.append_nil _).symm, .refl d⟩, rfl, by omega, ?_, ?_⟩
    · rw [hindex]
      simp [Walk.cursor, Before]
    · intro j b hb k hk hpass
      rw [Cursor.Passed, hindex] at hpass
      exact absurd hpass.1 hpass.2
  have hmeasure : walkMeasure blocks w.cursor ≤ d.card + 2 * blocks.length := by
    have hcard : Set.ncard {n | w.cursor.migration.bitmap.testBit n = true} = d.card :=
      hrep.card_eq
    rw [walkMeasure, hcard, Cursor.blocksLeft]
    split <;> omega
  obtain ⟨c, hloop, hended⟩ := loop_of_measure (fun c => ∃ d', Walking blocks w i d c d')
    (fun c => ∃ d', Ended blocks w d c d') (walkMeasure blocks)
    (fun c ⟨d', hc⟩ => walking_round send hint hlast hb₀ hoffset hc) ⟨d, hstart⟩
    (hmeasure.trans_lt hfuel)
  refine ⟨c, ?_, hended⟩
  rw [ramSaveBlock, hloop]
  rfl

structure Between (blocks : List RAMBlock) (w : Walk σ) (d : Finset Nat) (v : Walk σ)
    (d' : Finset Nat) : Prop where
  represents : v.migration.Represents d'
  search : v.migration.bulkStage = false
  drained : ∃ new, v.handed = w.handed ++ new ∧ Drained d new d'
  place : ∃ i b, v.lastSeen = some i ∧ blocks[i]? = some b ∧ v.lastOffset ≤ b.length

theorem completeRound_between {v : Walk σ} (h : Between blocks w d v d') {fuel : Nat}
    (hfuel : d.card + 2 * blocks.length < fuel) :
    ∃ v' d'', Between blocks w d v' d'' ∧
      (completeRound send blocks fuel v = .ok (.done v') ∧
          (∀ b ∈ blocks, ∀ k < b.length, b.offset + k ∉ d'') ∨
        completeRound send blocks fuel v = .ok (.next v') ∧ d''.card < d'.card) := by
  obtain ⟨new, hhanded, hdrained⟩ := h.drained
  obtain ⟨i, b, hlast, hb, hoffset⟩ := h.place
  have hle := hdrained.card_le
  obtain ⟨c, hcall, d'', hended⟩ :=
    ramSaveBlock_ended send hint h.represents h.search hlast hb hoffset
      (show d'.card + 2 * blocks.length < fuel by omega)
  obtain ⟨new', hhanded', hdrained'⟩ := hended.drained
  obtain ⟨b', hb', hoffset'⟩ := hended.valid
  have hall : c.walk.handed = w.handed ++ (new ++ new') := by
    show c.handed = _
    rw [hhanded', hhanded, List.append_assoc]
  have hend := hended.ended
  refine ⟨c.walk, d'', ⟨hended.represents, hended.search, ⟨_, hall, hdrained.trans hdrained'⟩,
    c.index, b', rfl, hb', hoffset'⟩, ?_⟩
  rw [completeRound, hcall]
  simp only [Run.ok_bind, Run.pure_def]
  by_cases hzero : c.bytesSent = 0
  · left
    rw [if_pos hzero] at hend ⊢
    exact ⟨rfl, hend⟩
  · right
    rw [if_neg hzero] at hend ⊢
    exact ⟨rfl, hend⟩

end Rounds

def twoDirty : Walk Unit :=
  ⟨⟨Bitmap.setBit (Bitmap.setBit (fun _ => 0) 1) 2, 2, false⟩, some 0, 2, (), []⟩

structure Turning (blocks : List RAMBlock) (w : Walk σ) (i o : Nat) (d : Finset Nat)
    (c : Cursor σ) : Prop where
  represents : c.migration.Represents d
  handed : c.handed = w.handed
  bytes : c.bytesSent = 0
  valid : c.index < blocks.length
  place : c.completeRound = false ∧ c.index = i ∧ c.offset = o ∧ c.migration.bulkStage = true ∨
    c.completeRound = false ∧ i < c.index ∧ c.offset = 0 ∨
    c.completeRound = true ∧ c.index ≤ i ∧ c.offset = 0

section Turns

variable (send : Bool → RAMBlock → Nat → σ → Nat × σ) {blocks : List RAMBlock} {w : Walk σ}
  {i : Nat} {d : Finset Nat} {c : Cursor σ} {b : RAMBlock}

theorem Turning.next (h : Turning blocks w i w.lastOffset d c) (hb : blocks[c.index]? = some b)
    {found : Nat × Migration}
    (hfound : migrationBitmapFindAndResetDirty b c.offset c.migration = found)
    (hrep : found.2.Represents d) (hend : found.1 = b.length)
    (hahead : c.completeRound = true → c.index < i) (hi : i < blocks.length)
    (hlast : w.lastSeen = some i) :
    ∃ c', saveRound send blocks w c = .ok (.next c') ∧ Turning blocks w i w.lastOffset d c' ∧
      c'.blocksLeft blocks < c.blocksLeft blocks := by
  have hvalid := h.valid
  have hround : ¬ (c.completeRound = true ∧ w.lastSeen = some c.index ∧
      w.lastOffset ≤ found.1) := by
    rintro ⟨hround, hseen, -⟩
    have heq : i = c.index := Option.some.inj (hlast.symm.trans hseen)
    have hlt := hahead hround
    omega
  refine ⟨_, saveRound_turn send hb hfound hround hend.ge, ⟨c.turn_represents hrep,
    (c.turn_handed found.2).trans h.handed, (c.turn_bytesSent found.2).trans h.bytes,
    c.turn_index_lt hvalid found.2, .inr ?_⟩, c.turn_blocksLeft_lt hvalid
      (fun hphase => Nat.lt_of_le_of_lt (hahead hphase) hi) found.2⟩
  rw [Cursor.turn]
  by_cases hmore : c.index + 1 < blocks.length
  · rw [if_pos hmore]
    rcases h.place with ⟨hphase, rfl, -⟩ | ⟨hphase, hlt, -⟩ | ⟨hphase, -⟩
    · exact .inl ⟨hphase, Nat.lt_succ_self _, rfl⟩
    · exact .inl ⟨hphase, Nat.lt_succ_of_lt hlt, rfl⟩
    · exact .inr ⟨hphase, hahead hphase, rfl⟩
  · rw [if_neg hmore]
    exact .inr ⟨rfl, Nat.zero_le i, rfl⟩

theorem turning_round (hlast : w.lastSeen = some i) {b₀ : RAMBlock} (hb₀ : blocks[i]? = some b₀)
    (hint : b₀.offset + b₀.length ≤ 2 ^ 31) (hpos : 0 < w.lastOffset)
    (hend : w.lastOffset + 1 = b₀.length) (hmem : b₀.offset + w.lastOffset ∈ d)
    (honly : ∀ j b, blocks[j]? = some b → ∀ k < b.length, b.offset + k ∈ d →
      j = i ∧ k = w.lastOffset)
    (h : Turning blocks w i w.lastOffset d c) :
    (∃ c', saveRound send blocks w c = .ok (.done c') ∧ c'.bytesSent = 0 ∧
        c'.handed = w.handed ∧ c'.migration.Represents (d.erase (b₀.offset + w.lastOffset))) ∨
      (∃ c', saveRound send blocks w c = .ok (.next c') ∧ Turning blocks w i w.lastOffset d c' ∧
        c'.blocksLeft blocks < c.blocksLeft blocks) := by
  have hi : i < blocks.length := (List.getElem?_eq_some_iff.mp hb₀).1
  obtain ⟨b, hb⟩ : ∃ b, blocks[c.index]? = some b := ⟨_, List.getElem?_eq_getElem h.valid⟩
  obtain ⟨found, hfound⟩ :
      ∃ found, migrationBitmapFindAndResetDirty b c.offset c.migration = found := ⟨_, rfl⟩
  rcases h.place with ⟨hphase, hindex, hoffset, hbulk⟩ | hlater
  · -- the page after the last one is the end of the block, and the last one is not looked at
    right
    obtain rfl : b = b₀ := Option.some.inj (hb.symm.trans (by rw [hindex, hb₀]))
    have hnext : nextDirty b c.offset c.migration = b.offset + b.length := by
      rw [nextDirty]
      refine (if_pos ⟨hbulk, by omega⟩).trans ?_
      omega
    have hstay : found = (b.length, c.migration) := by
      rw [← hfound, migrationBitmapFindAndResetDirty]
      simp only [hnext]
      rw [resetDirty, if_neg (lt_irrefl _), Nat.add_sub_cancel_left]
    refine h.next send hb hfound ?_ ?_ (fun hround => ?_) hi hlast
    · rw [hstay]
      exact h.represents
    · rw [hstay]
    · rw [hphase] at hround
      cases hround
  · have hzero : c.offset = 0 := by
      rcases hlater with hlater | hlater
      · exact hlater.2.2
      · exact hlater.2.2
    obtain ⟨-, hskip, hcases⟩ := find_cases h.represents (.inr hzero) b hfound
    rcases hcases with ⟨hstop, hrep⟩ | ⟨hlt, -, hdirty, hrep⟩
    · right
      refine h.next send hb hfound hrep hstop (fun hround => ?_) hi hlast
      rcases hlater with hlater | hlater
      · rw [hlater.1] at hround
        cases hround
      · refine lt_of_le_of_ne hlater.2.1 fun hindex => ?_
        obtain rfl : b = b₀ := Option.some.inj (hb.symm.trans (by rw [hindex, hb₀]))
        exact hskip w.lastOffset (by omega) (by omega) (by omega) hmem
    · left
      obtain ⟨hindex, hpage⟩ := honly c.index b hb found.1 hlt hdirty
      obtain rfl : b = b₀ := Option.some.inj (hb.symm.trans (by rw [hindex, hb₀]))
      have hround : c.completeRound = true := by
        rcases hlater with hlater | hlater
        · exact absurd hlater.2.1 (by omega)
        · exact hlater.1
      simp only [saveRound, hb, hfound]
      rw [if_pos ⟨hround, by rw [hlast, hindex], hpage.ge⟩]
      refine ⟨_, rfl, h.bytes, h.handed, ?_⟩
      rw [← hpage]
      exact hrep hint

end Turns

def thirdAgain : Walk Unit :=
  ⟨⟨Bitmap.setBit (fun _ => 0) 2, 1, true⟩, some 0, 2, (), [0, 1, 2]⟩

end SE4VM.Ram
