import SE4VM.Savevm.VMState

/-!
# Loading a stream that cannot be trusted

The bytes of a stream decide which subsections are loaded, how often, and with what
result.  For a description whose layout does not depend on the contents of the memory
they decide nothing else: the load ends, whatever the backend delivers or fails to
deliver, and writes nowhere but to the fields described.
-/

namespace SE4VM.Savevm

open SE4VM.Foundation
open SE4VM.Disc (FieldLayout toSizeT vmsPointer vmsArrayOfPointer vmsVbuffer vmsArray
  vmsVarrayInt32 vmsVarrayUint32 vmsVarrayUint16 vmsVarrayUint8)

/-! ## Loaders that stay inside -/

def SameOutside (R : List Block) (m m' : Memory) : Prop := ∀ x, covers R x = false → m' x = m x

theorem SameOutside.trans {R : List Block} {m₁ m₂ m₃ : Memory} (h : SameOutside R m₁ m₂)
    (h' : SameOutside R m₂ m₃) : SameOutside R m₁ m₃ :=
  fun x hx => (h' x hx).trans (h x hx)

/-- On every file the loader comes to an end, and it writes to the blocks only. -/
def Tame (R : List Block) (load : Loader) : Prop :=
  ∀ m f, ∃ ret m' f', load m f = .ok ((ret, m'), f') ∧ Onward f f' ∧ SameOutside R m m'

namespace Tame

variable {R : List Block} {l : FieldLayout}

theorem pure (ret : Int) : Tame R fun m => pure (ret, m) :=
  fun m f => ⟨ret, m, f, rfl, .refl f, fun _ _ => rfl⟩

theorem mono {R' : List Block} {load : Loader} (h : Tame R load)
    (hR : ∀ x, covers R x = true → covers R' x = true) : Tame R' load := by
  intro m f
  obtain ⟨ret, m', f', hrun, hon, hout⟩ := h m f
  refine ⟨ret, m', f', hrun, hon, fun x hx => hout x ?_⟩
  rw [Bool.eq_false_iff] at hx ⊢
  exact fun h => hx (hR x h)

theorem andThen {p q : Loader} (hp : Tame R p) (hq : Tame R q) :
    Tame R fun m => andThen (p m) q := by
  intro m f
  obtain ⟨ret, m₁, f₁, hrun₁, hon₁, hout₁⟩ := hp m f
  have hbind : Savevm.andThen (p m) q f = (if ret < 0 then Pure.pure (ret, m₁) else q m₁) f₁ := by
    show (p m f >>= fun r => (if r.1.1 < 0 then Pure.pure (r.1.1, r.1.2) else q r.1.2) r.2) = _
    rw [hrun₁]
    rfl
  by_cases hneg : ret < 0
  · refine ⟨ret, m₁, f₁, hbind.trans ?_, hon₁, hout₁⟩
    rw [if_pos hneg]
    rfl
  · obtain ⟨ret', m₂, f₂, hrun₂, hon₂, hout₂⟩ := hq m₁ f₁
    refine ⟨ret', m₂, f₂, hbind.trans ?_, hon₁.trans hon₂, hout₁.trans hout₂⟩
    rw [if_neg hneg, hrun₂]

theorem elems (hl : l.has vmsArrayOfPointer = false) {load : U64 → Nat → Loader} {start : U64}
    {size : Int} {is : List Nat}
    (h : ∀ i ∈ is, Tame R (load (start + toSizeT (size * (i : Nat))) (toSizeT size).toNat)) :
    Tame R (loadElems l load start size is) := by
  induction is with
  | nil => exact .pure 0
  | cons i is ih =>
      obtain ⟨hi, his⟩ := List.forall_mem_cons.mp h
      have hload : loadElems l load start size (i :: is) = fun m =>
          Savevm.andThen (load (start + toSizeT (size * i)) (toSizeT size).toNat m)
            (loadElems l load start size is) := by
        funext m
        rw [loadElems, FieldLayout.elemAddr, hl, if_neg Bool.false_ne_true]
      rw [hload]
      exact hi.andThen (ih his)

end Tame

/-! ## Layouts -/

/-- A field in the structure itself, of a size that does not depend on what is in memory. -/
structure FixedLayout (l : FieldLayout) : Prop where
  noPointer : l.has vmsPointer = false
  noPointers : l.has vmsArrayOfPointer = false
  count : ∀ m a, l.nElems m a = l.nElems Memory.blank 0
  size : ∀ m a, l.elemSize m a = l.elemSize Memory.blank 0

theorem fixedLayout_plain {l : FieldLayout}
    (h : l.has vmsPointer = false ∧ l.has vmsArrayOfPointer = false ∧ l.has vmsVbuffer = false)
    (hcount : l.has vmsArray = true ∨ l.has vmsVarrayInt32 = false ∧ l.has vmsVarrayUint32 = false ∧
      l.has vmsVarrayUint16 = false ∧ l.has vmsVarrayUint8 = false) : FixedLayout l where
  noPointer := h.1
  noPointers := h.2.1
  count m a := by
    rcases hcount with harray | ⟨h₁, h₂, h₃, h₄⟩
    · rw [FieldLayout.nElems, FieldLayout.nElems, if_pos harray, if_pos harray]
    · simp only [FieldLayout.nElems, h₁, h₂, h₃, h₄, Bool.false_eq_true, if_false]
  size m a := by simp only [FieldLayout.elemSize, h.2.2, Bool.false_eq_true, if_false]

def reachEach (l : FieldLayout) (elem : U64 → Nat → List Block) (base : U64) : List Block :=
  (List.range (l.nElems Memory.blank 0).toNat).flatMap fun (i : Nat) =>
    elem (base + l.offset + toSizeT (l.elemSize Memory.blank 0 * i))
      (toSizeT (l.elemSize Memory.blank 0)).toNat

mutual

/-- The blocks that a state at `base` consists of. -/
def reachState : VMStateDescription → U64 → List Block
  | ⟨_, fields, subsections⟩, base => reachFields fields base ++ reachSubsections subsections base

def reachFields : List VMStateField → U64 → List Block
  | [], _ => []
  | f :: fs, base => reachField f base ++ reachFields fs base

def reachField : VMStateField → U64 → List Block
  | ⟨l, _, .inl info⟩, base => reachEach l (info.reach Memory.blank) base
  | ⟨l, _, .inr d⟩, base => reachEach l (fun a _ => reachState d a) base

def reachSubsections : List VMStateSubsection → U64 → List Block
  | [], _ => []
  | ⟨d, _⟩ :: subs, base => reachState d base ++ reachSubsections subs base

end

theorem Tame.each {l : FieldLayout} (hl : FixedLayout l) {load : U64 → Nat → Loader}
    {elem : U64 → Nat → List Block} (h : ∀ a n, Tame (elem a n) (load a n))
    (fieldVersion versionId : Int) (base : U64) :
    Tame (reachEach l elem base) (loadEach l load fieldVersion versionId base) := by
  have hwalk : Tame (reachEach l elem base) (loadElems l load (base + l.offset)
      (l.elemSize Memory.blank 0) (List.range (l.nElems Memory.blank 0).toNat)) := by
    refine Tame.elems hl.noPointers fun i hi => (h _ _).mono fun x hx => ?_
    rw [covers, List.any_eq_true] at hx ⊢
    obtain ⟨b, hb, hx⟩ := hx
    exact ⟨b, List.mem_flatMap.mpr ⟨i, hi, hb⟩, hx⟩
  intro m f
  have hload : loadEach l load fieldVersion versionId base m =
      if FieldLayout.loads l fieldVersion m base versionId then
        loadElems l load (base + l.offset) (l.elemSize Memory.blank 0)
          (List.range (l.nElems Memory.blank 0).toNat) m
      else Pure.pure (0, m) := by
    rw [loadEach, FieldLayout.baseAddr, hl.noPointer, if_neg Bool.false_ne_true, hl.count, hl.size]
  rw [hload]
  split_ifs
  · exact hwalk m f
  · exact Tame.pure 0 m f

/-! ## Subsections -/

theorem peeked_in_buffer (ops : GetOps) (size offset : Nat) (f : GetFile) (hsize : 0 < size)
    (h : (qemuPeekBuffer ops size offset f).1.length = size) :
    (qemuPeekBuffer ops size offset f).2.bufIndex + offset + size ≤
      (qemuPeekBuffer ops size offset f).2.buf.length := by
  simp only [qemuPeekBuffer, List.length_take, List.length_drop] at h ⊢
  omega

/-- A round that does not end the loop has skipped a byte at least. -/
theorem subsectionRound_tame (ops : GetOps) (name : CString)
    {table : List (CString × (U64 → Int → Loader))} {base : U64} {R : List Block}
    (htable : ∀ e ∈ table, ∀ v, Tame R (e.2 base v)) (m : Memory) (f : GetFile) :
    ∃ step f', subsectionRound ops name table base m f = .ok (step, f') ∧ Onward f f' ∧
      ((∃ ret m', step = .done (ret, m') ∧ SameOutside R m m') ∨
        ∃ m', step = .next m' ∧ SameOutside R m m' ∧ f'.content.length < f.content.length) := by
  have hon₀ : Onward f (qemuPeekByte ops 0 f).2 := onward_lookFor ops f 1
  generalize hpeek₀ : qemuPeekByte ops 0 f = p₀ at hon₀
  obtain ⟨b, f₀⟩ := p₀
  have hon₁ : Onward f₀ (qemuPeekByte ops 1 f₀).2 := onward_lookFor ops f₀ 2
  generalize hpeek₁ : qemuPeekByte ops 1 f₀ = p₁ at hon₁
  obtain ⟨len, f₁⟩ := p₁
  have hon₂ : Onward f₁ (qemuPeekBuffer ops len.toNat 2 f₁).2 := onward_lookFor ops f₁ _
  have hfit := peeked_in_buffer ops len.toNat 2 f₁
  generalize hpeek₂ : qemuPeekBuffer ops len.toNat 2 f₁ = p₂ at hon₂ hfit
  obtain ⟨idstr, f₂⟩ := p₂
  dsimp only at hon₀ hon₁ hon₂ hfit
  have hstay : ∀ ret : Int, ∃ ret' m', (Step.done (ret, m) : Step Memory (Int × Memory)) =
      .done (ret', m') ∧ SameOutside R m m' := fun ret => ⟨ret, m, rfl, fun _ _ => rfl⟩
  simp only [subsectionRound, hpeek₀, hpeek₁, hpeek₂]
  split_ifs with hmark hshort hsize hbegins
  · exact ⟨_, f₀, rfl, hon₀, .inl (hstay 0)⟩
  · exact ⟨_, f₁, rfl, hon₀.trans hon₁, .inl (hstay 0)⟩
  · exact ⟨_, f₂, rfl, (hon₀.trans hon₁).trans hon₂, .inl (hstay 0)⟩
  · exact ⟨_, f₂, rfl, (hon₀.trans hon₁).trans hon₂, .inl (hstay 0)⟩
  · have hon₂ := (hon₀.trans hon₁).trans hon₂
    cases hfind : vmstateGetSubsection table idstr with
    | none => exact ⟨_, f₂, rfl, hon₂, .inl (hstay _)⟩
    | some load =>
        obtain ⟨e, he, rfl⟩ := Option.map_eq_some_iff.mp hfind
        have hlen : f₂.bufIndex + 2 + len.toNat ≤ f₂.buf.length :=
          hfit (by omega) (not_not.mp hsize)
        have hskip := content_qemuFileSkip (show f₂.bufIndex + 1 ≤ f₂.buf.length by omega)
        have hbehind : Onward (qemuFileSkip 1 f₂) (qemuGetBe32 ops
            (qemuFileSkip len.toNat (qemuFileSkip 1 (qemuFileSkip 1 f₂)))).2 :=
          ((onward_qemuFileSkip _ 1).trans (onward_qemuFileSkip _ _)).trans
            (onward_getBytes ops _ 4)
        generalize qemuGetBe32 ops
          (qemuFileSkip len.toNat (qemuFileSkip 1 (qemuFileSkip 1 f₂))) = p₃ at hbehind ⊢
        obtain ⟨v, f₃⟩ := p₃
        obtain ⟨ret, m', f₄, hrun, hon₄, hout⟩ :=
          htable e (List.mem_of_find?_eq_some he) (v % 256 : Nat) m f₃
        have hon := hbehind.trans hon₄
        have hless : f₄.content.length < f.content.length := by
          have hle := hon.length_le
          have hle₂ := hon₂.length_le
          have hpos : 0 < f₂.content.length := by
            rw [GetFile.content, List.length_append, List.length_drop]
            omega
          rw [hskip, List.length_drop] at hle
          omega
        refine ⟨if ret ≠ 0 then .done (ret, m') else .next m', f₄, ?_,
          hon₂.trans ((onward_qemuFileSkip f₂ 1).trans hon), ?_⟩
        · dsimp only
          rw [hrun]
          rfl
        · split_ifs
          · exact .inl ⟨ret, m', rfl, hout⟩
          · exact .inr ⟨m', rfl, hout, hless⟩

/-- However often the bytes ask for a subsection, the loop comes to an end. -/
theorem subsectionLoad_tame (ops : GetOps) (name : CString)
    {table : List (CString × (U64 → Int → Loader))} {base : U64} {R : List Block}
    (htable : ∀ e ∈ table, ∀ v, Tame R (e.2 base v)) :
    Tame R (vmstateSubsectionLoad ops name table base) := by
  suffices hgen : ∀ fuel m f, f.content.length < fuel → ∃ ret m' f',
      readLoop (subsectionRound ops name table base) fuel m f = .ok ((ret, m'), f') ∧
        Onward f f' ∧ SameOutside R m m' from
    fun m f => hgen (f.content.length + 1) m f (Nat.lt_succ_self _)
  intro fuel
  induction fuel with
  | zero => exact fun m f h => absurd h (Nat.not_lt_zero _)
  | succ fuel ih =>
      intro m f hfuel
      obtain ⟨step, f₁, hround, hon₁, hcase⟩ := subsectionRound_tame ops name htable m f
      rcases hcase with ⟨ret, m', rfl, hout⟩ | ⟨m', rfl, hout, hless⟩
      · exact ⟨ret, m', f₁, readLoop_done hround fuel, hon₁, hout⟩
      · obtain ⟨ret, m'', f₂, hrun, hon₂, hout₂⟩ := ih m' f₁ (by omega)
        exact ⟨ret, m'', f₂, (readLoop_next hround fuel).trans hrun, hon₁.trans hon₂,
          hout.trans hout₂⟩

/-! ## Whole states -/

/-- A description whose layout is fixed, at any depth, with hooks that keep to it. -/
inductive Fixed : VMStateDescription → Prop
  | intro {d : VMStateDescription}
      (preLoad : ∀ hook, d.header.preLoad = some hook →
        ∀ m base, SameOutside (reachState d base) m (hook m base).2)
      (postLoad : ∀ hook, d.header.postLoad = some hook →
        ∀ m base v, SameOutside (reachState d base) m (hook m base v).2)
      (old : d.header.minimumVersionId ≤ d.header.minimumVersionIdOld ∨
        ∃ hook, d.header.loadStateOld = some hook ∧
          ∀ ops base v, Tame (reachState d base) (hook ops base v))
      (fields : ∀ f ∈ d.fields, FixedLayout f.layout)
      (leaves : ∀ f ∈ d.fields, ∀ info, f.what = .inl info →
        ∀ m, info.reach m = info.reach Memory.blank)
      (nested : ∀ f ∈ d.fields, ∀ sub, f.what = .inr sub → Fixed sub)
      (below : ∀ s ∈ d.subsections, Fixed s.vmsd) : Fixed d

theorem tame_fields {ops : GetOps} {versionId : Int} {base : U64} {fs : List VMStateField}
    (h : ∀ f ∈ fs, Tame (reachField f base) (loadField ops f versionId base)) :
    Tame (reachFields fs base) (loadFields ops fs versionId base) := by
  induction fs with
  | nil => exact .pure 0
  | cons f fs ih =>
      obtain ⟨hf, hfs⟩ := List.forall_mem_cons.mp h
      refine Tame.andThen (hf.mono fun x hx => ?_) ((ih hfs).mono fun x hx => ?_)
      · rw [reachFields, covers_append, hx, Bool.true_or]
      · rw [reachFields, covers_append, hx, Bool.or_true]

theorem tame_table {ops : GetOps} {base : U64} {subs : List VMStateSubsection}
    (h : ∀ s ∈ subs, ∀ v, Tame (reachState s.vmsd base) (vmstateLoadState ops s.vmsd base v)) :
    ∀ e ∈ subsectionTable ops subs, ∀ v, Tame (reachSubsections subs base) (e.2 base v) := by
  induction subs with
  | nil => exact fun e he => nomatch he
  | cons s subs ih =>
      obtain ⟨hs, hsubs⟩ := List.forall_mem_cons.mp h
      obtain ⟨d, needed⟩ := s
      refine List.forall_mem_cons.mpr ⟨fun v => (hs v).mono fun x hx => ?_,
        fun e he v => (ih hsubs e he v).mono fun x hx => ?_⟩
      · rw [reachSubsections, covers_append, Bool.or_eq_true]
        exact .inl hx
      · rw [reachSubsections, covers_append, hx, Bool.or_true]

theorem tame_tail (ops : GetOps) {h : VMStateHeader}
    {table : List (CString × (U64 → Int → Loader))} {base : U64} (versionId : Int) {R : List Block}
    (htable : ∀ e ∈ table, ∀ v, Tame R (e.2 base v))
    (hpost : ∀ hook, h.postLoad = some hook → ∀ m, SameOutside R m (hook m base versionId).2) :
    Tame R (loadTail ops h table base versionId) := by
  intro m f
  obtain ⟨ret, m₁, f₁, hrun, hon, hout⟩ := subsectionLoad_tame ops h.name htable m f
  have htail : loadTail ops h table base versionId m f = _ :=
    show (vmstateSubsectionLoad ops h.name table base m f >>= _) = _ from by rw [hrun, Run.ok_bind]
  rw [htail]
  dsimp only
  split_ifs
  · exact ⟨ret, m₁, f₁, rfl, hon, hout⟩
  · cases hhook : h.postLoad with
    | none => exact ⟨0, m₁, f₁, rfl, hon, hout⟩
    | some hook =>
        exact ⟨_, _, f₁, rfl, hon, hout.trans (hpost hook hhook m₁)⟩

/-- Whatever is in the file, loading a state ends and touches only what is described. -/
theorem tame_state {d : VMStateDescription} (hd : Fixed d) (ops : GetOps) (base : U64)
    (versionId : Int) : Tame (reachState d base) (vmstateLoadState ops d base versionId) := by
  induction hd generalizing base versionId with
  | @intro d preLoad postLoad old fields leaves _ _ nested below =>
      have hfields : Tame (reachFields d.fields base)
          (loadFields ops d.fields versionId base) := by
        refine tame_fields fun f hf => ?_
        have hlayout := fields f hf
        have hleaf := leaves f hf
        have hsub := nested f hf
        obtain ⟨l, v, info | sub⟩ := f
        · refine Tame.each hlayout (fun a n m f => ?_) v versionId base
          have hconfined := info.confined ops a n m f
          rwa [hleaf info rfl m] at hconfined
        · exact Tame.each hlayout (fun a _ => hsub sub rfl a _) v versionId base
      have htable := tame_table fun s hs v => below s hs base v
      obtain ⟨header, fs, subs⟩ := d
      have hR : ∀ x, covers (reachFields fs base) x = true →
          covers (reachState ⟨header, fs, subs⟩ base) x = true := fun x hx => by
        rw [reachState, covers_append, hx, Bool.true_or]
      have hR' : ∀ x, covers (reachSubsections subs base) x = true →
          covers (reachState ⟨header, fs, subs⟩ base) x = true := fun x hx => by
        rw [reachState, covers_append, hx, Bool.or_true]
      have hwalk := (hfields.mono hR).andThen (tame_tail ops versionId
        (fun e he v => (htable e he v).mono hR')
        fun hook hhook m => postLoad hook hhook m base versionId)
      intro m f
      rw [vmstateLoadState]
      split_ifs with hnewer holder hold
      · exact Tame.pure _ m f
      · exact Tame.pure _ m f
      · rcases old with hnone | ⟨hook, hhook, htame⟩
        · exact absurd (lt_of_lt_of_le hold hnone) holder
        · dsimp only [VMStateDescription.header] at hhook
          rw [hhook]
          exact htame ops base versionId m f
      · cases hhook : header.preLoad with
        | none => exact hwalk m f
        | some hook =>
            have hpre := preLoad hook hhook m base
            dsimp only
            split_ifs
            · exact ⟨_, _, f, rfl, .refl f, hpre⟩
            · obtain ⟨ret, m', f', hrun, hon, hout⟩ := hwalk (hook m base).2 f
              exact ⟨ret, m', f', hrun, hon, hpre.trans hout⟩

end SE4VM.Savevm
