import SE4VM.Savevm.VMState

/-!
# What is saved is loaded

The sender's walk is a list of items: what it puts, what it reads, and where a state
ends.  Whether the receiver can follow is a question about that list alone.  Counts and
sizes must have arrived before they are used, and where a state ends the bytes behind it
must not look like a subsection of it.
-/

namespace SE4VM.Savevm

open SE4VM.Foundation
open SE4VM.Disc (FieldLayout readInt32 readPointer toSizeT vmsPointer vmsArray vmsVarrayInt32
  vmsArrayOfPointer vmsVarrayUint16 vmsVbuffer vmsMultiply vmsVarrayUint8 vmsVarrayUint32)

/-! ## The sender's items -/

def wire (items : List Item) : List U8 := putBytes (items.flatMap Item.calls)

def Item.moved (m : Memory) : Item → List Block
  | put info a n _ => info.foot m a n
  | _ => []

def moved (m : Memory) (items : List Item) : List Block := items.flatMap (Item.moved m)

/-- Bytes behind a state that its receiver does not take for a subsection. -/
def stops (name : CString) (rest : List U8) : Prop :=
  rest ≠ [] ∧ (rest.getD 0 0 ≠ qemuVmSubsection ∨ 2 ≤ rest.length ∧
    ((rest.getD 1 0).toNat < name.bytes.length + 1 ∨
      2 + (rest.getD 1 0).toNat ≤ rest.length ∧
        name.begins ((rest.drop 2).take (rest.getD 1 0).toNat) = false))

instance (name : CString) (rest : List U8) : Decidable (stops name rest) :=
  inferInstanceAs (Decidable (_ ∧ _))

/--
The receiver can follow the items, with `rest` behind them: it has the blocks `S`
already, and everything lies `δ` higher up than at the sender.
-/
def Fits (ρ : Relocation) (δ : U64) (m m' : Memory) : List Item → List Block → List U8 → Prop
  | [], _, _ => True
  | .put info a n _ :: is, S, rest =>
      info.ready ρ S m m' a (a + δ) n ∧ Fits ρ δ m m' is (S ++ info.foot m a n) rest
  | .header _ :: is, S, rest => Fits ρ δ m m' is S rest
  | .cell a n :: is, S, rest =>
      (ρ.Places a (a + δ) n ∧ holds S a n) ∧ Fits ρ δ m m' is S rest
  | .finish name :: is, S, rest => stops name (wire is ++ rest) ∧ Fits ρ δ m m' is S rest

@[simp] theorem wire_nil : wire [] = [] := rfl

@[simp] theorem wire_cons (i : Item) (is : List Item) :
    wire (i :: is) = putBytes i.calls ++ wire is := by
  rw [wire, List.flatMap_cons, putBytes_append, wire]

@[simp] theorem wire_append (is js : List Item) : wire (is ++ js) = wire is ++ wire js := by
  rw [wire, List.flatMap_append, putBytes_append, wire, wire]

theorem moved_append (m : Memory) (is js : List Item) :
    moved m (is ++ js) = moved m is ++ moved m js :=
  List.flatMap_append

section Walk

variable {ρ : Relocation} {δ : U64} {m m' : Memory} {S : List Block} {rest : List U8}

theorem fits_append {is js : List Item} :
    Fits ρ δ m m' (is ++ js) S rest ↔
      Fits ρ δ m m' is S (wire js ++ rest) ∧ Fits ρ δ m m' js (S ++ moved m is) rest := by
  induction is generalizing S with
  | nil => simp [Fits, moved]
  | cons i is ih =>
      cases i with
      | put info a n calls =>
          simp only [List.cons_append, Fits, ih, and_assoc, moved, List.flatMap_cons, Item.moved,
            List.append_assoc]
      | header calls =>
          simp only [List.cons_append, Fits, ih, moved, List.flatMap_cons, Item.moved,
            List.nil_append]
      | cell a n =>
          simp only [List.cons_append, Fits, ih, and_assoc, moved, List.flatMap_cons, Item.moved,
            List.nil_append]
      | finish name =>
          simp only [List.cons_append, Fits, ih, and_assoc, moved, List.flatMap_cons, Item.moved,
            List.nil_append, wire_append, List.append_assoc]

/-! ## Walks that match -/

/-- The receiver's walk takes what the sender's walk has given. -/
def Carried (ρ : Relocation) (δ : U64) (m m' : Memory) (saved : Memory × List Item)
    (load : Loader) : Prop :=
  saved.1 = m ∧ ∀ S rest, Fits ρ δ m m' saved.2 S rest →
    Gets (load (transfer ρ S m m')) (wire saved.2) rest
      (0, transfer ρ (S ++ moved m saved.2) m m')

namespace Carried

variable {ops : GetOps} {l : FieldLayout}

theorem nil : Carried ρ δ m m' (m, []) fun m => pure (0, m) := by
  refine ⟨rfl, fun S rest _ => ?_⟩
  rw [moved, List.flatMap_nil, List.append_nil]
  exact .pure rest _

theorem andThen {s t : Memory × List Item} {p q : Loader} (hs : Carried ρ δ m m' s p)
    (ht : Carried ρ δ m m' t q) :
    Carried ρ δ m m' (t.1, s.2 ++ t.2) fun m => andThen (p m) q := by
  refine ⟨ht.1, fun S rest hfits => ?_⟩
  obtain ⟨hfits, hfits'⟩ := fits_append.mp hfits
  rw [wire_append, moved_append, ← List.append_assoc]
  exact (hs.2 S _ hfits).bind (ht.2 _ rest hfits')

theorem leaf (hops : ops.Steady) (info : VMStateInfo) (a : U64) (n : Nat) :
    Carried ρ δ m m' (m, [.put info a n (info.put m a n)]) (info.get ops (a + δ) n) := by
  refine ⟨rfl, fun S rest hfits => ?_⟩
  have h := info.carries hops hfits.1 rest
  simpa only [wire_cons, wire_nil, List.append_nil, Item.calls, moved, List.flatMap_cons,
    Item.moved, List.flatMap_nil] using h

theorem elems {save : U64 → Nat → Saver} {load : U64 → Nat → Loader}
    (hl : l.has vmsArrayOfPointer = false)
    (h : ∀ a n, Carried ρ δ m m' (save a n m) (load (a + δ) n)) (start : U64) (size : Int)
    (is : List Nat) :
    Carried ρ δ m m' (saveElems l save start size is m)
      (loadElems l load (start + δ) size is) := by
  induction is with
  | nil => exact .nil
  | cons i is ih =>
      have haddr : ∀ m base, FieldLayout.elemAddr l m base size i = base + toSizeT (size * i) := by
        intro m base
        rw [FieldLayout.elemAddr, hl, if_neg Bool.false_ne_true]
      have helem := h (start + toSizeT (size * i)) (toSizeT size).toNat
      have hsave : saveElems l save start size (i :: is) m =
          ((saveElems l save start size is m).1,
            (save (start + toSizeT (size * i)) (toSizeT size).toNat m).2 ++
              (saveElems l save start size is m).2) := by
        simp only [saveElems, haddr, helem.1]
      have hload : loadElems l load (start + δ) size (i :: is) = fun m =>
          Savevm.andThen (load (start + toSizeT (size * i) + δ) (toSizeT size).toNat m)
            (loadElems l load (start + δ) size is) := by
        funext m
        rw [loadElems, haddr, BitVec.add_assoc, BitVec.add_comm δ, ← BitVec.add_assoc]
      rw [hsave, hload]
      exact helem.andThen ih

end Carried

/-! ## Layouts -/

/-- A field that lies in the structure itself and is there whatever its contents. -/
structure Settled (l : FieldLayout) (fieldVersion versionId : Int) : Prop where
  noPointer : l.has vmsPointer = false
  noPointers : l.has vmsArrayOfPointer = false
  test : ∀ t, l.fieldExists = some t → ∀ m m' a a', t m a versionId = t m' a' versionId
  version : l.fieldExists = none → fieldVersion ≤ versionId

theorem Settled.loads_eq {l : FieldLayout} {fieldVersion versionId : Int}
    (h : Settled l fieldVersion versionId) (m m' : Memory) (a a' : U64) :
    FieldLayout.loads l fieldVersion m' a' versionId = l.present m a versionId := by
  cases htest : l.fieldExists with
  | none =>
      simp only [FieldLayout.loads, FieldLayout.present, htest, decide_eq_true (h.version htest)]
  | some t =>
      simpa only [FieldLayout.loads, FieldLayout.present, htest] using h.test t htest _ _ _ _

theorem settled_plain {l : FieldLayout} (h : l.fieldExists = none)
    (hp : l.has vmsPointer = false) (ha : l.has vmsArrayOfPointer = false)
    {v w : Int} (hv : v ≤ w) : Settled l v w :=
  ⟨hp, ha, fun _ ht => absurd (h.symm.trans ht) nofun, fun _ => hv⟩

def cellItems (l : FieldLayout) (base : U64) : List Item :=
  (FieldLayout.cells l base).map fun b => .cell b.1 b.2

theorem cellItems_puts_nothing (l : FieldLayout) (base : U64) :
    wire (cellItems l base) = [] ∧ moved m (cellItems l base) = [] := by
  refine ⟨?_, ?_⟩
  · rw [wire, cellItems, List.flatMap_map]
    simp [Item.calls, putBytes]
  · rw [moved, cellItems, List.flatMap_map]
    simp [Item.moved]

theorem fits_cells {bs : List Block}
    (h : Fits ρ δ m m' (bs.map fun b => .cell b.1 b.2) S rest) :
    ∀ b ∈ bs, (transfer ρ S m m').read (b.1 + δ) b.2 = m.read b.1 b.2 := by
  induction bs with
  | nil => exact fun b hb => nomatch hb
  | cons b bs ih =>
      obtain ⟨⟨hplaces, hholds⟩, hrest⟩ := h
      exact List.forall_mem_cons.mpr ⟨read_transfer hplaces hholds, ih hrest⟩

theorem elemSize_of_cells {l : FieldLayout} {base : U64} {mem : Memory}
    (h : ∀ b ∈ FieldLayout.cells l base, mem.read (b.1 + δ) b.2 = m.read b.1 b.2) :
    l.elemSize mem (base + δ) = l.elemSize m base := by
  have hword : (base + l.sizeOffset, 4) ∈ FieldLayout.cells l base →
      readInt32 mem (base + δ + l.sizeOffset) = readInt32 m (base + l.sizeOffset) := by
    intro hmem
    have hread := h _ hmem
    rw [readInt32, readInt32, Memory.readWord, Memory.readWord, BitVec.add_assoc base,
      BitVec.add_comm δ, ← BitVec.add_assoc, hread]
  rw [FieldLayout.elemSize, FieldLayout.elemSize]
  split_ifs with hv
  · rw [hword (List.mem_append_left _ (by rw [if_pos hv]; exact List.mem_singleton_self _))]
  · rw [hword (List.mem_append_left _ (by rw [if_pos hv]; exact List.mem_singleton_self _))]
  · rfl

theorem nElems_of_cells {l : FieldLayout} {base : U64} {mem : Memory}
    (h : ∀ b ∈ FieldLayout.cells l base, mem.read (b.1 + δ) b.2 = m.read b.1 b.2) :
    l.nElems mem (base + δ) = l.nElems m base := by
  have hword : ∀ n, (base + l.numOffset, n) ∈ FieldLayout.cells l base →
      mem.readWord (base + δ + l.numOffset) n = m.readWord (base + l.numOffset) n := by
    intro n hmem
    have hread := h _ hmem
    rw [Memory.readWord, Memory.readWord, BitVec.add_assoc base, BitVec.add_comm δ,
      ← BitVec.add_assoc, hread]
  rw [FieldLayout.nElems, FieldLayout.nElems, readInt32, readInt32]
  by_cases ha : l.has vmsArray
  · rw [if_pos ha, if_pos ha]
  by_cases hi : l.has vmsVarrayInt32
  · rw [if_neg ha, if_neg ha, if_pos hi, if_pos hi, hword 4 (by simp [FieldLayout.cells, ha, hi])]
  by_cases hu : l.has vmsVarrayUint32
  · simp only [if_neg ha, if_neg hi, if_pos hu,
      hword 4 (by simp [FieldLayout.cells, ha, hi, hu])]
  by_cases hs : l.has vmsVarrayUint16
  · simp only [if_neg ha, if_neg hi, if_neg hu, if_pos hs,
      hword 2 (by simp [FieldLayout.cells, ha, hi, hu, hs])]
  by_cases hb : l.has vmsVarrayUint8
  · simp only [if_neg ha, if_neg hi, if_neg hu, if_neg hs, if_pos hb,
      hword 1 (by simp [FieldLayout.cells, ha, hi, hu, hs, hb])]
  · simp only [if_neg ha, if_neg hi, if_neg hu, if_neg hs, if_neg hb]

theorem Carried.each {l : FieldLayout} {fieldVersion versionId : Int}
    (hl : Settled l fieldVersion versionId) {save : U64 → Nat → Saver} {load : U64 → Nat → Loader}
    (h : ∀ a n, Carried ρ δ m m' (save a n m) (load (a + δ) n)) (base : U64) :
    Carried ρ δ m m' (saveEach l save versionId base m)
      (loadEach l load fieldVersion versionId (base + δ)) := by
  have hbase : ∀ mem a, FieldLayout.baseAddr l mem a = a + l.offset := by
    intro mem a
    rw [FieldLayout.baseAddr, hl.noPointer, if_neg Bool.false_ne_true]
  by_cases hpresent : l.present m base versionId
  · have hwalk := Carried.elems hl.noPointers h (base + l.offset) (l.elemSize m base)
      (List.range (l.nElems m base).toNat)
    have hsave : saveEach l save versionId base m =
        ((saveElems l save (base + l.offset) (l.elemSize m base)
            (List.range (l.nElems m base).toNat) m).1,
          cellItems l base ++ (saveElems l save (base + l.offset) (l.elemSize m base)
            (List.range (l.nElems m base).toNat) m).2) := by
      simp only [saveEach, hpresent, if_true, hbase, cellItems]
    rw [hsave]
    refine ⟨hwalk.1, fun S rest hfits => ?_⟩
    obtain ⟨hcells, hitems⟩ := fits_append.mp hfits
    obtain ⟨hwire, hmoved⟩ := cellItems_puts_nothing (m := m) l base
    have hknown := fits_cells hcells
    -- the receiver finds the same size and number of elements
    have hload : loadEach l load fieldVersion versionId (base + δ) (transfer ρ S m m') =
        loadElems l load (base + l.offset + δ) (l.elemSize m base)
          (List.range (l.nElems m base).toNat) (transfer ρ S m m') := by
      rw [loadEach, hl.loads_eq m, if_pos hpresent, hbase, elemSize_of_cells hknown,
        nElems_of_cells hknown, BitVec.add_assoc base, BitVec.add_comm δ, ← BitVec.add_assoc]
    rw [hmoved, List.append_nil] at hitems
    rw [hload, wire_append, hwire, List.nil_append, moved_append, hmoved, List.nil_append]
    exact hwalk.2 S rest hitems
  · have hsave : saveEach l save versionId base m = (m, []) := by
      rw [saveEach, if_neg hpresent]
    have hload : loadEach l load fieldVersion versionId (base + δ) = fun mem => pure (0, mem) := by
      funext mem
      rw [loadEach, hl.loads_eq m mem base, if_neg hpresent]
    rw [hsave, hload]
    exact .nil

end Walk

/-! ## Subsections -/

/-- A name that tells whose subsection it is, and a version that fits into eight bits. -/
structure SubsectionOf (h sub : VMStateHeader) : Prop where
  name : h.name.bytes <+: sub.name.bytes
  longer : h.name.bytes.length < sub.name.bytes.length
  short : sub.name.bytes.length < 256
  nonneg : 0 ≤ sub.versionId
  small : sub.versionId < 256

theorem putBytes_subsectionHeader {h : VMStateHeader} (hshort : h.name.bytes.length < 256) :
    putBytes (subsectionHeader h) =
      qemuVmSubsection :: BitVec.ofNat 8 h.name.bytes.length ::
        (h.name.bytes ++ toBe 4 (BitVec.ofInt 32 h.versionId).toNat) := by
  have hlen : (BitVec.ofNat 8 h.name.bytes.length).toNat = h.name.bytes.length := by
    rw [BitVec.toNat_ofNat]
    omega
  have hversion := putBytes_putBe 4 (BitVec.ofInt 32 h.versionId).toNat
  rw [putBytes] at hversion ⊢
  simp only [subsectionHeader, List.flatMap_cons, PutCall.data, List.singleton_append, hlen,
    List.take_length, qemuPutBe32, hversion]

theorem skip_sound {f : GetFile} (hf : f.Sound) {n : Nat} (hfit : f.bufIndex + n ≤ f.buf.length) :
    (qemuFileSkip n f).Sound ∧ (qemuFileSkip n f).content = f.content.drop n ∧
      (qemuFileSkip n f).bufIndex = f.bufIndex + n ∧ (qemuFileSkip n f).buf = f.buf := by
  refine ⟨⟨(onward_qemuFileSkip f n).valid hf.valid, ?_⟩, content_qemuFileSkip hfit, ?_, ?_⟩ <;>
    rw [qemuFileSkip_eq hfit]
  exact hf.noError

/-- After a look at the whole header, the three calls of `qemu_file_skip` pass it. -/
theorem skipHeader_sound {f : GetFile} (hf : f.Sound) {n : Nat}
    (hfit : f.bufIndex + (2 + n) ≤ f.buf.length) :
    (qemuFileSkip n (qemuFileSkip 1 (qemuFileSkip 1 f))).Sound ∧
      (qemuFileSkip n (qemuFileSkip 1 (qemuFileSkip 1 f))).content = f.content.drop (2 + n) := by
  obtain ⟨hf₁, hcontent₁, hindex₁, hbuf₁⟩ := skip_sound hf (show f.bufIndex + 1 ≤ _ by omega)
  obtain ⟨hf₂, hcontent₂, hindex₂, hbuf₂⟩ := skip_sound hf₁
    (show (qemuFileSkip 1 f).bufIndex + 1 ≤ _ by rw [hindex₁, hbuf₁]; omega)
  obtain ⟨hf₃, hcontent₃, -, -⟩ := skip_sound hf₂
    (show (qemuFileSkip 1 (qemuFileSkip 1 f)).bufIndex + n ≤ _ by
      rw [hindex₂, hbuf₂, hindex₁, hbuf₁]; omega)
  refine ⟨hf₃, ?_⟩
  rw [hcontent₃, hcontent₂, hcontent₁, List.drop_drop, List.drop_drop, ← Nat.add_assoc]

section Rounds

variable {ops : GetOps} (hops : ops.Prompt 257) {name : CString}
  {table : List (CString × (U64 → Int → Loader))} {base : U64} {mem : Memory} {rest : List U8}

include hops

theorem subsectionRound_stops (h : stops name rest) :
    Gets (subsectionRound ops name table base mem) [] rest (.done (0, mem)) := by
  intro f hf hcontent
  rw [List.nil_append] at hcontent
  obtain ⟨hne, hcase⟩ := h
  have hk : 257 ≤ ioBufSize := by decide
  obtain ⟨f₀, hpeek₀, hf₀, hcontent₀, -⟩ := qemuPeekByte_ahead hops hk hf (show 0 < 257 by decide)
    (by rw [hcontent]; exact List.length_pos_of_ne_nil hne)
  rw [hcontent] at hpeek₀ hcontent₀
  by_cases hmark : rest.getD 0 0 = qemuVmSubsection
  · obtain ⟨hlen, hcase⟩ := hcase.resolve_left fun h => h hmark
    obtain ⟨f₁, hpeek₁, hf₁, hcontent₁, -⟩ := qemuPeekByte_ahead hops hk hf₀
      (show 1 < 257 by decide) (by rw [hcontent₀]; omega)
    rw [hcontent₀] at hpeek₁ hcontent₁
    by_cases hshort : (rest.getD 1 0).toNat < name.bytes.length + 1
    · refine ⟨f₁, ?_, hf₁, hcontent₁⟩
      simp only [subsectionRound, hpeek₀, hmark, ne_eq, not_true_eq_false, if_false, hpeek₁,
        if_pos hshort]
    · obtain ⟨hwhole, hother⟩ := hcase.resolve_left hshort
      have hbyte := (rest.getD 1 0).isLt
      obtain ⟨f₂, hpeek₂, hf₂, hcontent₂, -⟩ := qemuPeekBuffer_ahead hops hk hf₁
        (show 2 + (rest.getD 1 0).toNat ≤ 257 by omega) (by rw [hcontent₁]; exact hwhole)
      rw [hcontent₁] at hpeek₂ hcontent₂
      refine ⟨f₂, ?_, hf₂, hcontent₂⟩
      simp only [subsectionRound, hpeek₀, hmark, ne_eq, not_true_eq_false, if_false, hpeek₁,
        if_neg hshort, hpeek₂, hother, if_true, ite_self]
  · refine ⟨f₀, ?_, hf₀, hcontent₀⟩
    simp only [subsectionRound, hpeek₀, ne_eq, hmark, not_false_eq_true, if_true]

theorem subsectionRound_next {h sub : VMStateHeader} (hsub : SubsectionOf h sub)
    {load : U64 → Int → Loader} (hfind : vmstateGetSubsection table sub.name.bytes = some load)
    {body : List U8} {mem' : Memory}
    (hload : Gets (load base sub.versionId mem) body rest (0, mem')) :
    Gets (subsectionRound ops h.name table base mem) (putBytes (subsectionHeader sub) ++ body)
      rest (.next mem') := by
  intro f hf hcontent
  have hk : 257 ≤ ioBufSize := by decide
  have hshort := hsub.short
  have hlonger := hsub.longer
  have hlen : (BitVec.ofNat 8 sub.name.bytes.length).toNat = sub.name.bytes.length := by
    rw [BitVec.toNat_ofNat]
    omega
  -- the stream from the header on
  obtain ⟨stream, hstream⟩ : ∃ stream, stream =
      qemuVmSubsection :: BitVec.ofNat 8 sub.name.bytes.length :: (sub.name.bytes ++
        (toBe 4 (BitVec.ofInt 32 sub.versionId).toNat ++ (body ++ rest))) := ⟨_, rfl⟩
  have hcontent : f.content = stream := by
    rw [hcontent, hstream, putBytes_subsectionHeader hshort]
    simp only [List.cons_append, List.append_assoc]
  have hlength : 2 + sub.name.bytes.length ≤ stream.length := by
    simp only [hstream, List.length_cons, List.length_append]
    omega
  have hbyte₀ : stream.getD 0 0 = qemuVmSubsection := by rw [hstream]; rfl
  have hbyte₁ : stream.getD 1 0 = BitVec.ofNat 8 sub.name.bytes.length := by rw [hstream]; rfl
  have hidstr : (stream.drop 2).take sub.name.bytes.length = sub.name.bytes := by
    rw [hstream]
    exact List.take_left
  have hrest : stream.drop (2 + sub.name.bytes.length) =
      toBe 4 (BitVec.ofInt 32 sub.versionId).toNat ++ (body ++ rest) := by
    rw [← List.drop_drop, hstream]
    exact List.drop_left
  obtain ⟨f₀, hpeek₀, hf₀, hcontent₀, -⟩ := qemuPeekByte_ahead hops hk hf (show 0 < 257 by decide)
    (by rw [hcontent]; omega)
  rw [hcontent, hbyte₀] at hpeek₀
  obtain ⟨f₁, hpeek₁, hf₁, hcontent₁, -⟩ := qemuPeekByte_ahead hops hk hf₀
    (show 1 < 257 by decide) (by rw [hcontent₀, hcontent]; omega)
  rw [hcontent₀, hcontent, hbyte₁] at hpeek₁
  obtain ⟨f₂, hpeek₂, hf₂, hcontent₂, hfit⟩ := qemuPeekBuffer_ahead hops hk hf₁
    (show 2 + sub.name.bytes.length ≤ 257 by omega)
    (by rw [hcontent₁, hcontent₀, hcontent]; exact hlength)
  rw [hcontent₁, hcontent₀, hcontent, hidstr] at hpeek₂
  obtain ⟨hf₃, hcontent₃⟩ := skipHeader_sound hf₂ hfit
  rw [hcontent₂, hcontent₁, hcontent₀, hcontent, hrest] at hcontent₃
  obtain ⟨f₄, hversion, hf₄, hcontent₄⟩ := gets_be hops.steady 4 _ _ _ hf₃ hcontent₃
  have hversion : qemuGetBe32 ops (qemuFileSkip sub.name.bytes.length
      (qemuFileSkip 1 (qemuFileSkip 1 f₂))) = (_, f₄) := Run.ok.inj hversion
  have hvalue : (((BitVec.ofInt 32 sub.versionId).toNat % 256 ^ 4 % 256 : Nat) : Int) =
      sub.versionId := by
    have hnonneg := hsub.nonneg
    have hsmall := hsub.small
    rw [BitVec.toNat_ofInt]
    omega
  obtain ⟨f₅, hbody, hf₅, hcontent₅⟩ := hload f₄ hf₄ hcontent₄
  have hlong : ¬ sub.name.bytes.length < h.name.bytes.length + 1 := by omega
  have hbegins : h.name.begins sub.name.bytes = true := by
    rw [CString.begins, CString.cstr_bytes, decide_eq_true_eq]
    exact (List.prefix_iff_eq_take.mp hsub.name).symm
  refine ⟨f₅, ?_, hf₅, hcontent₅⟩
  simp only [subsectionRound, hpeek₀, hpeek₁, hlen, ne_eq, not_true_eq_false, if_false,
    if_neg hlong, hpeek₂, hbegins, Bool.true_eq_false, hfind, hversion, hvalue, hbody]
  rfl

end Rounds

theorem vmstateGetSubsection_table (ops : GetOps) {subs : List VMStateSubsection}
    (hnames : (subs.map fun s => s.vmsd.header.name).Nodup) {s : VMStateSubsection}
    (hs : s ∈ subs) :
    vmstateGetSubsection (subsectionTable ops subs) s.vmsd.header.name.bytes =
      some (vmstateLoadState ops s.vmsd) := by
  induction subs with
  | nil => cases hs
  | cons t subs ih =>
      obtain ⟨d, needed⟩ := t
      rw [List.map_cons, List.nodup_cons] at hnames
      rw [vmstateGetSubsection, subsectionTable, List.find?_cons, CString.cstr_bytes]
      rcases List.mem_cons.mp hs with rfl | hs
      · have hsame : decide (d.header.name.bytes =
            (VMStateSubsection.mk d needed).vmsd.header.name.bytes) = true := decide_eq_true rfl
        rw [hsame]
        rfl
      · have hother : decide (d.header.name.bytes = s.vmsd.header.name.bytes) = false := by
          refine decide_eq_false fun h => hnames.1 ?_
          have heq : d.header.name = s.vmsd.header.name := by
            cases hd : d.header.name
            cases hs : s.vmsd.header.name
            simpa only [CString.mk.injEq, hd, hs] using h
          exact heq ▸ List.mem_map_of_mem hs
        rw [hother, ← ih hnames.2 hs, vmstateGetSubsection, CString.cstr_bytes]

/-! ## Whole states -/

/-- A description without hooks, at any depth, whose own version can be loaded. -/
inductive WellFormed : VMStateDescription → Prop
  | intro {d : VMStateDescription} (preSave : d.header.preSave = none)
      (preLoad : d.header.preLoad = none) (postLoad : d.header.postLoad = none)
      (minimum : d.header.minimumVersionId ≤ d.header.versionId)
      (minimumOld : d.header.minimumVersionIdOld ≤ d.header.versionId)
      (fields : ∀ f ∈ d.fields, Settled f.layout f.versionId d.header.versionId)
      (nested : ∀ f ∈ d.fields, ∀ sub, f.what = .inr sub → WellFormed sub)
      (names : (d.subsections.map fun s => s.vmsd.header.name).Nodup)
      (subsections : ∀ s ∈ d.subsections, SubsectionOf d.header s.vmsd.header)
      (below : ∀ s ∈ d.subsections, WellFormed s.vmsd) : WellFormed d

section States

variable {ρ : Relocation} {δ : U64} {m m' : Memory} {ops : GetOps} (hops : ops.Prompt 257)

include hops

theorem gets_subsections {h : VMStateHeader} {table : List (CString × (U64 → Int → Loader))}
    {base : U64} {subs : List VMStateSubsection}
    (hsubs : ∀ s ∈ subs, SubsectionOf h s.vmsd.header ∧
      vmstateGetSubsection table s.vmsd.header.name.bytes = some (vmstateLoadState ops s.vmsd) ∧
      Carried ρ δ m m' (vmstateSaveState s.vmsd base m)
        (vmstateLoadState ops s.vmsd (base + δ) s.vmsd.header.versionId)) :
    (vmstateSubsectionSave subs base m).1 = m ∧ ∀ S rest fuel,
      Fits ρ δ m m' ((vmstateSubsectionSave subs base m).2 ++ [.finish h.name]) S rest →
      (wire (vmstateSubsectionSave subs base m).2).length < fuel →
      Gets (readLoop (subsectionRound ops h.name table (base + δ)) fuel (transfer ρ S m m'))
        (wire (vmstateSubsectionSave subs base m).2) rest
        (0, transfer ρ (S ++ moved m (vmstateSubsectionSave subs base m).2) m m') := by
  induction subs with
  | nil =>
      refine ⟨rfl, fun S rest fuel hfits hfuel => ?_⟩
      obtain ⟨fuel, rfl⟩ := Nat.exists_eq_succ_of_ne_zero (Nat.ne_zero_of_lt hfuel)
      rw [vmstateSubsectionSave, moved, List.flatMap_nil, List.append_nil]
      exact .loop_done (subsectionRound_stops hops hfits.1) fuel
  | cons s subs ih =>
      obtain ⟨d, needed⟩ := s
      obtain ⟨⟨hsub, hfind, hcarried⟩, hsubs⟩ := List.forall_mem_cons.mp hsubs
      dsimp only [VMStateSubsection.vmsd] at hsub hfind hcarried
      obtain ⟨hsame, hrest⟩ := ih hsubs
      by_cases hneeded : needed m base
      · have hsave : vmstateSubsectionSave (⟨d, needed⟩ :: subs) base m =
            ((vmstateSubsectionSave subs base m).1,
              .header (subsectionHeader d.header) :: (vmstateSaveState d base m).2 ++
                (vmstateSubsectionSave subs base m).2) := by
          simp only [vmstateSubsectionSave, hneeded, if_true, hcarried.1]
        rw [hsave]
        refine ⟨hsame, fun S rest fuel hfits hfuel => ?_⟩
        dsimp only at hfits hfuel ⊢
        rw [List.cons_append, List.cons_append, Fits, List.append_assoc] at hfits
        obtain ⟨hfits, hfits'⟩ := fits_append.mp hfits
        have hwire : wire (.header (subsectionHeader d.header) :: (vmstateSaveState d base m).2 ++
            (vmstateSubsectionSave subs base m).2) =
            putBytes (subsectionHeader d.header) ++ wire (vmstateSaveState d base m).2 ++
              wire (vmstateSubsectionSave subs base m).2 := by
          rw [List.cons_append, wire_cons, wire_append, List.append_assoc]
          rfl
        have hmoved : moved m (.header (subsectionHeader d.header) ::
            (vmstateSaveState d base m).2 ++ (vmstateSubsectionSave subs base m).2) =
            moved m (vmstateSaveState d base m).2 ++
              moved m (vmstateSubsectionSave subs base m).2 :=
          moved_append m (_ :: _) _
        rw [hwire, putBytes_subsectionHeader hsub.short, List.length_append, List.length_append,
          List.length_cons] at hfuel
        obtain ⟨fuel, rfl⟩ := Nat.exists_eq_succ_of_ne_zero (Nat.ne_zero_of_lt hfuel)
        rw [wire_append, show wire [Item.finish h.name] = [] from rfl, List.append_nil] at hfits
        rw [hwire, hmoved, ← List.append_assoc S]
        exact .loop_next (subsectionRound_next hops hsub hfind (hcarried.2 S _ hfits))
          (hrest _ rest fuel hfits' (by omega))
      · have hsave : vmstateSubsectionSave (⟨d, needed⟩ :: subs) base m =
            vmstateSubsectionSave subs base m := by
          rw [vmstateSubsectionSave, if_neg hneeded]
        rw [hsave]
        exact ⟨hsame, hrest⟩

omit hops in
theorem carried_fields {versionId : Int} {base : U64} {fs : List VMStateField}
    (h : ∀ f ∈ fs, Carried ρ δ m m' (saveField f versionId base m)
      (loadField ops f versionId (base + δ))) :
    Carried ρ δ m m' (saveFields fs versionId base m)
      (loadFields ops fs versionId (base + δ)) := by
  induction fs with
  | nil => exact .nil
  | cons f fs ih =>
      obtain ⟨hf, hfs⟩ := List.forall_mem_cons.mp h
      have hsave : saveFields (f :: fs) versionId base m =
          ((saveFields fs versionId base m).1,
            (saveField f versionId base m).2 ++ (saveFields fs versionId base m).2) := by
        simp only [saveFields, hf.1]
      rw [hsave]
      exact hf.andThen (ih hfs)

theorem carried_tail {h : VMStateHeader} (hpost : h.postLoad = none)
    {table : List (CString × (U64 → Int → Loader))} {base : U64} (versionId : Int)
    {subs : List VMStateSubsection}
    (hsubs : ∀ s ∈ subs, SubsectionOf h s.vmsd.header ∧
      vmstateGetSubsection table s.vmsd.header.name.bytes = some (vmstateLoadState ops s.vmsd) ∧
      Carried ρ δ m m' (vmstateSaveState s.vmsd base m)
        (vmstateLoadState ops s.vmsd (base + δ) s.vmsd.header.versionId)) :
    Carried ρ δ m m'
      ((vmstateSubsectionSave subs base m).1,
        (vmstateSubsectionSave subs base m).2 ++ [.finish h.name])
      (loadTail ops h table (base + δ) versionId) := by
  obtain ⟨hsame, hgets⟩ := gets_subsections hops hsubs
  refine ⟨hsame, fun S rest hfits => ?_⟩
  have hwire : wire ((vmstateSubsectionSave subs base m).2 ++ [.finish h.name]) =
      wire (vmstateSubsectionSave subs base m).2 := by
    rw [wire_append]
    exact List.append_nil _
  have hmoved : moved m ((vmstateSubsectionSave subs base m).2 ++ [.finish h.name]) =
      moved m (vmstateSubsectionSave subs base m).2 := by
    rw [moved_append]
    exact List.append_nil _
  dsimp only
  rw [hwire, hmoved]
  intro f hf hcontent
  obtain ⟨f', hrun, hf', hcontent'⟩ := hgets S rest (f.content.length + 1) hfits
    (by rw [hcontent, List.length_append]; omega) f hf hcontent
  refine ⟨f', ?_, hf', hcontent'⟩
  have hload : vmstateSubsectionLoad ops h.name table (base + δ) (transfer ρ S m m') f = _ := hrun
  simp only [loadTail, hpost]
  show (vmstateSubsectionLoad ops h.name table (base + δ) (transfer ρ S m m') f >>= _) = _
  rw [hload]
  rfl

omit hops in
theorem vmstateSaveState_eq {d : VMStateDescription} (hpre : d.header.preSave = none) {base : U64}
    (hfields : (saveFields d.fields d.header.versionId base m).1 = m) :
    vmstateSaveState d base m =
      ((vmstateSubsectionSave d.subsections base m).1,
        (saveFields d.fields d.header.versionId base m).2 ++
          ((vmstateSubsectionSave d.subsections base m).2 ++ [.finish d.header.name])) := by
  obtain ⟨header, fields, subs⟩ := d
  dsimp only [VMStateDescription.header, VMStateDescription.fields,
    VMStateDescription.subsections] at *
  simp only [vmstateSaveState, hpre, hfields, List.append_assoc]

omit hops in
theorem vmstateLoadState_eq {d : VMStateDescription} (hpre : d.header.preLoad = none)
    (hmin : d.header.minimumVersionId ≤ d.header.versionId)
    (hminOld : d.header.minimumVersionIdOld ≤ d.header.versionId) (base : U64) :
    vmstateLoadState ops d base d.header.versionId = fun mem =>
      andThen (loadFields ops d.fields d.header.versionId base mem)
        (loadTail ops d.header (subsectionTable ops d.subsections) base d.header.versionId) := by
  obtain ⟨header, fields, subs⟩ := d
  dsimp only [VMStateDescription.header, VMStateDescription.fields,
    VMStateDescription.subsections] at *
  funext mem
  simp only [vmstateLoadState, hpre, lt_irrefl, if_false, ne_eq, not_true_eq_false,
    Int.not_lt.mpr hmin, Int.not_lt.mpr hminOld]

/-- What `vmstate_save_state` has put, `vmstate_load_state` takes, field by field. -/
theorem carried_state {d : VMStateDescription} (hd : WellFormed d) (base : U64) :
    Carried ρ δ m m' (vmstateSaveState d base m)
      (vmstateLoadState ops d (base + δ) d.header.versionId) := by
  induction hd generalizing base with
  | @intro d preSave preLoad postLoad minimum minimumOld fields _ names subsections _ nested
      below =>
      have hfields : Carried ρ δ m m' (saveFields d.fields d.header.versionId base m)
          (loadFields ops d.fields d.header.versionId (base + δ)) := by
        refine carried_fields fun f hf => ?_
        have hsettled := fields f hf
        have hsub := nested f hf
        obtain ⟨l, v, info | sub⟩ := f
        · exact .each hsettled (fun a n => .leaf hops.steady info a n) base
        · exact .each hsettled (fun a _ => hsub sub rfl a) base
      have htail := carried_tail hops postLoad d.header.versionId
        fun s hs => ⟨subsections s hs, vmstateGetSubsection_table ops names hs, below s hs base⟩
      rw [vmstateSaveState_eq preSave hfields.1, vmstateLoadState_eq preLoad minimum minimumOld]
      exact hfields.andThen htail

end States

/--
A state that one machine has saved is loaded by another one: the call succeeds, takes
just the bytes of the state, and leaves the receiver's memory as it was, except that
what the sender has put is now in its place.
-/
theorem vmstateLoadState_saved (putOps : PutOps) (hput : putOps.Honest) (mem : Memory) (buf : U64)
    (close : Option Int) (ops : GetOps) (hops : ops.Prompt 257) (ρ : Relocation) (δ base : U64)
    (m m' : Memory) (d : VMStateDescription) (hd : WellFormed d) (S : List Block)
    (hagree : ∀ x y, ρ.origin y = some x → covers S x → m' y = m x) (more : List PutCall)
    (hfits : Fits ρ δ m m' (vmstateSaveState d base m).2 S (putBytes more)) :
    let items := (vmstateSaveState d base m).2
    let f := execAll putOps ((items.flatMap Item.calls ++ more).map PutCall.op)
      (qemuFopenOps mem buf)
    0 ≤ (qemuFclose putOps close f).1 →
      ∃ g, vmstateLoadState ops d (base + δ) d.header.versionId m'
          { source := (qemuFclose putOps close f).2.sent } =
            .ok ((0, transfer ρ (S ++ moved m items) m m'), g) ∧
        g.lastError = 0 ∧ g.content = putBytes more := by
  intro items f hclose
  obtain ⟨hallowed, hgiven⟩ := calls_spec putOps (items.flatMap Item.calls ++ more)
    (qemuFopenOps mem buf)
  have hsent := (sent_of_close hput hallowed hclose).1
  rw [hgiven, putBytes_append] at hsent
  obtain ⟨-, hload⟩ := carried_state hops hd base
  have hstart : GetFile.Sound { source := (qemuFclose putOps close f).2.sent } :=
    ⟨⟨le_rfl, show 0 ≤ ioBufSize by decide⟩, rfl⟩
  obtain ⟨g, hrun, hg, hcontent⟩ := hload S _ hfits _ hstart hsent
  rw [transfer_eq_self hagree] at hrun
  exact ⟨g, hrun, hg.noError, hcontent⟩

/-- A number, as many bytes, and a subsection with one more. -/
def countedState : VMStateDescription :=
  ⟨{ name := ⟨[0x63], by decide⟩, versionId := 1, minimumVersionId := 1, minimumVersionIdOld := 1 },
    [⟨{ offset := 0, size := 1 }, 0, .inl vmstateInfoUint8⟩,
      ⟨{ offset := 1, size := 1, flags := vmsVarrayUint8 }, 0, .inl vmstateInfoUint8⟩],
    [⟨⟨{ name := ⟨[0x63, 0x2f], by decide⟩, versionId := 1, minimumVersionId := 1,
          minimumVersionIdOld := 1 },
        [⟨{ offset := 8, size := 1 }, 0, .inl vmstateInfoUint8⟩], []⟩, fun _ _ => true⟩]⟩

theorem countedState_wellFormed : WellFormed countedState := by
  refine .intro rfl rfl rfl (by decide) (by decide) ?_ ?_ (by decide) ?_ ?_
  · intro f hf
    rcases List.mem_cons.mp hf with rfl | hf
    · exact settled_plain rfl rfl rfl (by decide)
    · rcases List.mem_singleton.mp hf with rfl
      exact settled_plain rfl rfl rfl (by decide)
  · intro f hf sub hsub
    rcases List.mem_cons.mp hf with rfl | hf
    · cases hsub
    · rcases List.mem_singleton.mp hf with rfl
      cases hsub
  · intro s hs
    rcases List.mem_singleton.mp hs with rfl
    exact ⟨by decide, by decide, by decide, by decide, by decide⟩
  · intro s hs
    rcases List.mem_singleton.mp hs with rfl
    refine .intro rfl rfl rfl (by decide) (by decide) ?_ ?_ (by decide) ?_ ?_
    · intro f hf
      rcases List.mem_singleton.mp hf with rfl
      exact settled_plain rfl rfl rfl (by decide)
    · intro f hf sub hsub
      rcases List.mem_singleton.mp hf with rfl
      cases hsub
    · intro s hs; cases hs
    · intro s hs; cases hs

def countedMemory : Memory := Memory.blank.write 0x1000 [2, 7, 8, 0, 0, 0, 0, 0, 9]

theorem countedState_fits : Fits (.shift 0x500) 0x500 countedMemory Memory.blank
    (vmstateSaveState countedState 0x1000 countedMemory).2 [] [0] := by
  have hplaces := Relocation.places_shift 0x500
  refine ⟨hplaces _ _, ⟨hplaces _ _, ?_⟩, hplaces _ _, hplaces _ _, hplaces _ _, ?_, ?_, trivial⟩
  · decide
  · decide
  · decide

/-- The receiver has the two bytes and the one of the subsection, `0x500` higher up. -/
theorem countedState_loaded :
    ∃ mem g, vmstateLoadState (fun _ => .bytes 300) countedState 0x1500 1 Memory.blank
      { source := [2, 7, 8, 5, 2, 0x63, 0x2f, 0, 0, 0, 1, 9, 0] } = .ok ((0, mem), g) ∧
      mem.read 0x1500 10 = [2, 7, 8, 0, 0, 0, 0, 0, 9, 0] ∧ g.content = [0] := by
  obtain ⟨g, hload, -, hcontent⟩ := vmstateLoadState_saved openBackend openBackend_honest
    Memory.blank 0x20000 (some 0) (fun _ => .bytes 300) (fun _ => ⟨300, rfl, by decide⟩)
    (.shift 0x500) 0x500 0x1000 countedMemory Memory.blank countedState countedState_wellFormed []
    (fun _ _ _ h => nomatch h) [.byte 0] countedState_fits (by decide)
  exact ⟨_, g, hload, by decide, hcontent⟩

end SE4VM.Savevm
