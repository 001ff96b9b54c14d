import SE4VM.Foundation.Memory
import SE4VM.Savevm.PutFile

/-!
# Reading a migration stream

The members of `QEMUFile` that are in use when reading.  A backend delivers the stream
in pieces of its own choice, into `buf`.  Reading in order gives the same bytes for
every choice; looking ahead does not, since `buf` is filled only once for it.
-/

namespace SE4VM.Savevm

open SE4VM.Foundation

def enoent : Int := 2
def eio : Int := 5
def eagain : Int := 11
def einval : Int := 22
def enotsup : Int := 95

/-- The answer of `get_buffer`: so many bytes and one more, as far as there are; or an error. -/
inductive Delivery where
  | bytes (n : Nat)
  | error (e : Int)

abbrev GetOps := Nat → Delivery

structure GetFile where
  /-- The valid part of `buf`, up to `buf_size`. -/
  buf : List U8 := []
  bufIndex : Nat := 0
  pos : Nat := 0
  lastError : Int := 0
  calls : Nat := 0
  /-- What the backend has still to deliver. -/
  source : List U8

namespace GetFile

def setError (f : GetFile) (ret : Int) : GetFile :=
  if f.lastError = 0 then { f with lastError := ret } else f

/-- All that can still be read. -/
def content (f : GetFile) : List U8 := f.buf.drop f.bufIndex ++ f.source

end GetFile

/-- What the backend puts behind the pending bytes when it is willing to give `n + 1`. -/
def delivered (n : Nat) (f : GetFile) : List U8 :=
  f.source.take (min (n + 1) (ioBufSize - (f.buf.length - f.bufIndex)))

def qemuFillBuffer (ops : GetOps) (f : GetFile) : GetFile :=
  let pending := f.buf.drop f.bufIndex
  let moved := { f with buf := pending, bufIndex := 0, calls := f.calls + 1 }
  match ops f.calls with
  | .bytes n =>
      let len := (delivered n f).length
      if 0 < len then { moved with
        buf := pending ++ delivered n f, source := f.source.drop len, pos := f.pos + len }
      else moved.setError (-eio)
  | .error e => if e = -eagain then moved else moved.setError e

def qemuFileSkip (size : Nat) (f : GetFile) : GetFile :=
  if f.bufIndex + size ≤ f.buf.length then { f with bufIndex := f.bufIndex + size } else f

/-- The statements that the two peeks have in common: `n` bytes are needed in `buf`. -/
def lookFor (ops : GetOps) (n : Nat) (f : GetFile) : GetFile :=
  if f.buf.length < f.bufIndex + n then qemuFillBuffer ops f else f

def qemuPeekBuffer (ops : GetOps) (size offset : Nat) (f : GetFile) : List U8 × GetFile :=
  let f := lookFor ops (offset + size) f
  ((f.buf.drop (f.bufIndex + offset)).take size, f)

/-- The loop of `qemu_get_buffer`; every round takes a byte at least, or is the last one. -/
def getRounds (ops : GetOps) : Nat → Nat → List U8 → GetFile → List U8 × GetFile
  | 0, _, done, f => (done, f)
  | rounds + 1, pending, done, f =>
      if pending = 0 then (done, f)
      else
        let (got, f) := qemuPeekBuffer ops pending 0 f
        if got.length = 0 then (done, f)
        else getRounds ops rounds (pending - got.length) (done ++ got) (qemuFileSkip got.length f)

def qemuGetBuffer (ops : GetOps) (size : Nat) (f : GetFile) : List U8 × GetFile :=
  getRounds ops size size [] f

def qemuPeekByte (ops : GetOps) (offset : Nat) (f : GetFile) : U8 × GetFile :=
  let f := lookFor ops (offset + 1) f
  (f.buf.getD (f.bufIndex + offset) 0, f)

def qemuGetByte (ops : GetOps) (f : GetFile) : U8 × GetFile :=
  let (result, f) := qemuPeekByte ops 0 f
  (result, qemuFileSkip 1 f)

/-- So many calls of `qemu_get_byte`. -/
def getBytes (ops : GetOps) : Nat → GetFile → List U8 × GetFile
  | 0, f => ([], f)
  | n + 1, f =>
      let (b, f) := qemuGetByte ops f
      let (bs, f) := getBytes ops n f
      (b :: bs, f)

/-- The first byte is the most significant one. -/
def getBe (ops : GetOps) (n : Nat) (f : GetFile) : Nat × GetFile :=
  let (bs, f) := getBytes ops n f
  (ofBe bs, f)

def qemuGetBe16 (ops : GetOps) : GetFile → Nat × GetFile := getBe ops 2
def qemuGetBe32 (ops : GetOps) : GetFile → Nat × GetFile := getBe ops 4
def qemuGetBe64 (ops : GetOps) : GetFile → Nat × GetFile := getBe ops 8

/-! ## Filling the buffer -/

structure GetFile.Valid (f : GetFile) : Prop where
  index : f.bufIndex ≤ f.buf.length
  size : f.buf.length ≤ ioBufSize

/-- No read fails before the end of the stream. -/
def GetOps.Steady (ops : GetOps) : Prop := ∀ n, ∃ k, ops n = .bytes k

/-- Every read delivers at least `k` bytes, or the rest of the stream. -/
def GetOps.Prompt (ops : GetOps) (k : Nat) : Prop := ∀ n, ∃ m, ops n = .bytes m ∧ k ≤ m + 1

theorem GetOps.Prompt.steady {ops : GetOps} {k : Nat} (h : ops.Prompt k) : ops.Steady :=
  fun n => (h n).imp fun _ hm => hm.1

section Fill

variable {ops : GetOps} {f : GetFile}

/-- The bytes that `qemu_fill_buffer` adds, and when it reports an error. -/
theorem qemuFillBuffer_spec (hf : f.Valid) {k : Nat} (hk : ops f.calls = .bytes k) :
    (qemuFillBuffer ops f).Valid ∧ (qemuFillBuffer ops f).bufIndex = 0 ∧
      (qemuFillBuffer ops f).buf = f.buf.drop f.bufIndex ++ delivered k f ∧
      (qemuFillBuffer ops f).content = f.content ∧
      (qemuFillBuffer ops f).lastError =
        if f.lastError = 0 ∧ delivered k f = [] then -eio else f.lastError := by
  have hindex := hf.index
  have hsize := hf.size
  have hgot : (delivered k f).length ≤ ioBufSize - (f.buf.length - f.bufIndex) := by
    rw [delivered, List.length_take]
    omega
  have hrest : delivered k f ++ f.source.drop (delivered k f).length = f.source :=
    List.prefix_iff_eq_append.mp <| List.take_prefix _ _
  by_cases hnone : delivered k f = []
  · have heq : qemuFillBuffer ops f = { f with
        buf := f.buf.drop f.bufIndex, bufIndex := 0, calls := f.calls + 1,
        lastError := if f.lastError = 0 then -eio else f.lastError } := by
      simp only [qemuFillBuffer, hk, hnone, List.length_nil, lt_irrefl, if_false,
        GetFile.setError]
      split_ifs <;> rfl
    rw [heq]
    refine ⟨⟨Nat.zero_le _, ?_⟩, rfl, by simp [hnone], rfl, by simp [hnone]⟩
    rw [List.length_drop]
    omega
  · have hpos := List.length_pos_of_ne_nil hnone
    have heq : qemuFillBuffer ops f = { f with
        buf := f.buf.drop f.bufIndex ++ delivered k f, bufIndex := 0, calls := f.calls + 1,
        source := f.source.drop (delivered k f).length,
        pos := f.pos + (delivered k f).length } := by
      simp only [qemuFillBuffer, hk, if_pos hpos]
    rw [heq]
    refine ⟨⟨Nat.zero_le _, ?_⟩, rfl, rfl, ?_, by simp [hnone]⟩
    · simp only [List.length_append, List.length_drop]
      omega
    · simp only [GetFile.content, List.drop_zero, List.append_assoc, hrest]

/-- `buf` is not full of bytes of which none has been taken. -/
def GetFile.Fresh (f : GetFile) : Prop := 0 < f.bufIndex ∨ f.buf.length < ioBufSize

theorem delivered_eq_nil_iff (hf : f.Valid) (hfresh : f.Fresh) (k : Nat) :
    delivered k f = [] ↔ f.source = [] := by
  have hindex := hf.index
  have hsize := hf.size
  rw [delivered, List.take_eq_nil_iff]
  refine ⟨fun h => h.resolve_left ?_, .inr⟩
  rcases hfresh with h | h <;> omega

theorem fresh_of_content (h : f.content = []) : f.Fresh := by
  have hlen := List.drop_eq_nil_iff.mp (List.append_eq_nil_iff.mp h).1
  by_cases h0 : f.bufIndex = 0
  · exact .inr (by simp only [ioBufSize]; omega)
  · exact .inl (by omega)

theorem length_content (hf : f.Valid) :
    f.bufIndex + f.content.length = f.buf.length + f.source.length := by
  have hindex := hf.index
  rw [GetFile.content, List.length_append, List.length_drop]
  omega

theorem qemuFileSkip_eq {n : Nat} (h : f.bufIndex + n ≤ f.buf.length) :
    qemuFileSkip n f = { f with bufIndex := f.bufIndex + n } := if_pos h

theorem content_qemuFileSkip {n : Nat} (h : f.bufIndex + n ≤ f.buf.length) :
    (qemuFileSkip n f).content = f.content.drop n := by
  rw [qemuFileSkip_eq h, GetFile.content, GetFile.content,
    List.drop_append_of_le_length (by rw [List.length_drop]; omega), List.drop_drop]

/-- The byte at `buf_index` is the next one, unless `buf` is used up before the end. -/
theorem takeByte_spec (hf : f.Valid) (hend : f.buf.length ≤ f.bufIndex → f.content = []) :
    f.buf.getD f.bufIndex 0 = f.content.headD 0 ∧ (qemuFileSkip 1 f).Valid ∧
      (qemuFileSkip 1 f).content = f.content.drop 1 ∧ (qemuFileSkip 1 f).Fresh ∧
      (qemuFileSkip 1 f).lastError = f.lastError := by
  have hhead : f.buf.getD f.bufIndex 0 = (f.buf.drop f.bufIndex).headD 0 := by
    rw [List.getD_eq_getElem?_getD, List.headD_eq_head?_getD, List.head?_drop]
  by_cases hfit : f.bufIndex + 1 ≤ f.buf.length
  · rw [content_qemuFileSkip hfit, qemuFileSkip_eq hfit]
    refine ⟨?_, ⟨hfit, hf.size⟩, rfl, .inl (Nat.succ_pos _), rfl⟩
    have hne : f.buf.drop f.bufIndex ≠ [] := by
      rw [ne_eq, List.drop_eq_nil_iff]
      omega
    rw [hhead, GetFile.content]
    cases hdrop : f.buf.drop f.bufIndex with
    | nil => exact absurd hdrop hne
    | cons b bs => rfl
  · have hempty := hend (by omega)
    have hskip : qemuFileSkip 1 f = f := if_neg hfit
    have hdrop : f.buf.drop f.bufIndex = [] := (List.append_eq_nil_iff.mp hempty).1
    rw [hskip, hhead, hdrop, hempty]
    exact ⟨rfl, hf, rfl, fresh_of_content hempty, rfl⟩

end Fill

/-! ## Whatever the backend does -/

/-- From `f` to `g` bytes have been read and none has come back. -/
structure Onward (f g : GetFile) : Prop where
  valid : f.Valid → g.Valid
  rest : g.content <:+ f.content

namespace Onward

theorem refl (f : GetFile) : Onward f f := ⟨id, List.suffix_refl _⟩

theorem trans {f g h : GetFile} (hfg : Onward f g) (hgh : Onward g h) : Onward f h :=
  ⟨fun hf => hgh.valid (hfg.valid hf), hgh.rest.trans hfg.rest⟩

theorem length_le {f g : GetFile} (h : Onward f g) : g.content.length ≤ f.content.length :=
  h.rest.length_le

end Onward

section Any

variable (ops : GetOps) (f : GetFile)

theorem qemuFillBuffer_content : (qemuFillBuffer ops f).content = f.content := by
  have hrest : ∀ n, delivered n f ++ f.source.drop (delivered n f).length = f.source :=
    fun n => List.prefix_iff_eq_append.mp <| List.take_prefix _ _
  simp only [qemuFillBuffer, GetFile.setError]
  split
  · split_ifs <;> simp only [GetFile.content, List.drop_zero, List.append_assoc, hrest]
  · split_ifs <;> rfl

theorem onward_qemuFillBuffer : Onward f (qemuFillBuffer ops f) := by
  refine ⟨fun hf => ?_, by rw [qemuFillBuffer_content]⟩
  cases hread : ops f.calls with
  | bytes n => exact (qemuFillBuffer_spec hf hread).1
  | error e =>
      have hsize := hf.size
      have hpending : (f.buf.drop f.bufIndex).length ≤ ioBufSize := by
        rw [List.length_drop]
        omega
      simp only [qemuFillBuffer, hread, GetFile.setError]
      split_ifs <;> exact ⟨Nat.zero_le _, hpending⟩

theorem onward_qemuFileSkip (size : Nat) : Onward f (qemuFileSkip size f) := by
  by_cases hfit : f.bufIndex + size ≤ f.buf.length
  · refine ⟨fun hf => ?_, ?_⟩
    · rw [qemuFileSkip_eq hfit]
      exact ⟨hfit, hf.size⟩
    · rw [content_qemuFileSkip hfit]
      exact List.drop_suffix _ _
  · rw [qemuFileSkip, if_neg hfit]
    exact .refl f

theorem onward_lookFor (n : Nat) : Onward f (lookFor ops n f) := by
  rw [lookFor]
  split_ifs
  · exact onward_qemuFillBuffer ops f
  · exact .refl f

theorem onward_qemuGetByte : Onward f (qemuGetByte ops f).2 :=
  (onward_lookFor ops f 1).trans (onward_qemuFileSkip _ 1)

theorem onward_getBytes (n : Nat) : Onward f (getBytes ops n f).2 := by
  induction n generalizing f with
  | zero => exact .refl f
  | succ n ih => exact (onward_qemuGetByte ops f).trans (ih _)

theorem onward_getRounds (rounds pending : Nat) (done : List U8) :
    Onward f (getRounds ops rounds pending done f).2 := by
  induction rounds generalizing pending done f with
  | zero => exact .refl f
  | succ rounds ih =>
      simp only [getRounds]
      split_ifs
      · exact .refl f
      · exact onward_lookFor ops f _
      · exact ((onward_lookFor ops f _).trans (onward_qemuFileSkip _ _)).trans (ih _ _ _)

theorem onward_getBe (n : Nat) : Onward f (getBe ops n f).2 := onward_getBytes ops f n

theorem onward_qemuGetBuffer (size : Nat) : Onward f (qemuGetBuffer ops size f).2 :=
  onward_getRounds ops f _ _ _

theorem length_getRounds (rounds pending : Nat) (done : List U8) :
    (getRounds ops rounds pending done f).1.length ≤ done.length + pending := by
  induction rounds generalizing pending done f with
  | zero => exact Nat.le_add_right _ _
  | succ rounds ih =>
      simp only [getRounds]
      split_ifs
      · exact Nat.le_add_right _ _
      · exact Nat.le_add_right _ _
      · have hgot : (qemuPeekBuffer ops pending 0 f).1.length ≤ pending := List.length_take_le _ _
        refine (ih _ _ _).trans ?_
        rw [List.length_append]
        omega

end Any

/-! ## Reading in order -/

section Order

variable {ops : GetOps} (hops : ops.Steady) {f : GetFile}

include hops

/-- Asking for the next bytes gives some of them, unless there are none. -/
theorem qemuPeekBuffer_next (hf : f.Valid) {size : Nat} (hsize : 0 < size) :
    let r := qemuPeekBuffer ops size 0 f
    r.2.Valid ∧ r.2.content = f.content ∧ r.1 <+: f.content ∧ r.1.length ≤ size ∧
      r.2.bufIndex + r.1.length ≤ r.2.buf.length ∧ (r.1 = [] → f.content = []) ∧
      (f.Fresh ∨ size ≤ ioBufSize → r.2.lastError = if f.lastError = 0 ∧
        f.buf.length < f.bufIndex + size ∧ f.source = [] then -eio else f.lastError) := by
  intro r
  have hindex := hf.index
  obtain ⟨k, hk⟩ := hops f.calls
  by_cases hfill : f.buf.length < f.bufIndex + size
  · obtain ⟨hvalid, hzero, hbuf, hcontent, herror⟩ := qemuFillBuffer_spec hf hk
    have hr : r = ((qemuFillBuffer ops f).buf.take size, qemuFillBuffer ops f) := by
      simp only [r, qemuPeekBuffer, lookFor, Nat.add_zero, Nat.zero_add, if_pos hfill, hzero,
        List.drop_zero]
    have hpre : (qemuFillBuffer ops f).buf <+: f.content := by
      rw [hbuf, GetFile.content]
      exact (List.prefix_append_right_inj _).mpr <| List.take_prefix _ _
    have htake : (qemuFillBuffer ops f).buf.take size <+: _ := List.take_prefix _ _
    rw [hr]
    refine ⟨hvalid, hcontent, htake.trans hpre, List.length_take_le _ _, ?_,
      fun hnone => ?_, fun hroom => ?_⟩
    · dsimp only
      rw [hzero, List.length_take]
      omega
    · have hempty : f.buf.drop f.bufIndex ++ delivered k f = [] := by
        rw [← hbuf]
        exact (List.take_eq_nil_iff.mp hnone).resolve_left hsize.ne'
      obtain ⟨hpending, hgot⟩ := List.append_eq_nil_iff.mp hempty
      have hroom : min (k + 1) (ioBufSize - (f.buf.length - f.bufIndex)) ≠ 0 := by
        have hlen := List.drop_eq_nil_iff.mp hpending
        simp only [ioBufSize]
        omega
      rw [GetFile.content, hpending, (List.take_eq_nil_iff.mp hgot).resolve_left hroom]
      rfl
    · have hfresh : f.Fresh := by
        rcases hroom with hfresh | hle
        · exact hfresh
        · by_cases h0 : f.bufIndex = 0
          · exact .inr (by omega)
          · exact .inl (by omega)
      dsimp only
      simp only [herror, delivered_eq_nil_iff hf hfresh k, hfill, true_and]
  · have hr : r = ((f.buf.drop f.bufIndex).take size, f) := by
      simp only [r, qemuPeekBuffer, lookFor, Nat.add_zero, Nat.zero_add, if_neg hfill]
    rw [hr]
    have hpre : f.buf.drop f.bufIndex <+: f.content := List.prefix_append _ _
    have htake : (f.buf.drop f.bufIndex).take size <+: _ := List.take_prefix _ _
    refine ⟨hf, rfl, htake.trans hpre, List.length_take_le _ _, ?_,
      fun hnone => ?_, fun _ => ?_⟩
    · dsimp only
      rw [List.length_take, List.length_drop]
      omega
    · have hlen := congrArg List.length hnone
      rw [List.length_take, List.length_drop, List.length_nil] at hlen
      omega
    · dsimp only
      simp only [hfill, false_and, and_false, if_false]

/-- The bytes come out whole, and an error is reported just in case there are too few. -/
theorem getRounds_spec {rounds pending : Nat} (done : List U8) (hf : f.Valid)
    (hrounds : pending ≤ rounds) :
    let r := getRounds ops rounds pending done f
    r.1 = done ++ f.content.take pending ∧ r.2.Valid ∧ r.2.content = f.content.drop pending ∧
      (f.Fresh → r.2.Fresh) ∧ (f.Fresh ∨ pending ≤ ioBufSize → r.2.lastError =
        if f.lastError = 0 ∧ f.content.length < pending then -eio else f.lastError) := by
  induction rounds generalizing pending done f with
  | zero =>
      obtain rfl : pending = 0 := Nat.le_zero.mp hrounds
      simp [getRounds, hf]
  | succ rounds ih =>
      intro r
      by_cases hzero : pending = 0
      · have hr : r = (done, f) := by simp only [r, getRounds, if_pos hzero]
        rw [hr, hzero]
        simp [hf]
      · obtain ⟨hvalid, hcontent, hpre, hle, hfit, hnone, herror⟩ :=
          qemuPeekBuffer_next hops hf (Nat.pos_of_ne_zero hzero)
        have hr : r = if (qemuPeekBuffer ops pending 0 f).1.length = 0 then
            (done, (qemuPeekBuffer ops pending 0 f).2)
            else getRounds ops rounds (pending - (qemuPeekBuffer ops pending 0 f).1.length)
              (done ++ (qemuPeekBuffer ops pending 0 f).1)
              (qemuFileSkip (qemuPeekBuffer ops pending 0 f).1.length
                (qemuPeekBuffer ops pending 0 f).2) := by
          simp only [r, getRounds, if_neg hzero]
        rw [hr]
        generalize qemuPeekBuffer ops pending 0 f = p at *
        obtain ⟨got, g⟩ := p
        dsimp only at hvalid hcontent hpre hle hfit hnone herror ⊢
        have hlength := length_content hf
        by_cases hgot : got = []
        · have hempty := hnone hgot
          have hsource : f.source = [] := (List.append_eq_nil_iff.mp hempty).2
          have hshort : f.buf.length < f.bufIndex + pending := by
            rw [hempty, hsource] at hlength
            simp only [List.length_nil] at hlength
            omega
          have hpos : 0 < pending := Nat.pos_of_ne_zero hzero
          simp only [hgot, List.length_nil, if_true, hempty, List.take_nil, List.append_nil,
            List.drop_nil]
          refine ⟨trivial, hvalid, hcontent.trans hempty,
            fun _ => fresh_of_content (hcontent.trans hempty), fun hroom => ?_⟩
          simp only [herror hroom, hshort, hsource, hpos, and_true]
        · have hpos := List.length_pos_of_ne_nil hgot
          rw [if_neg hpos.ne']
          have hskip := content_qemuFileSkip hfit
          have hvalid' : (qemuFileSkip got.length g).Valid := by
            rw [qemuFileSkip_eq hfit]
            exact ⟨hfit, hvalid.size⟩
          have hfresh' : (qemuFileSkip got.length g).Fresh := by
            rw [qemuFileSkip_eq hfit]
            exact .inl (by dsimp only; omega)
          obtain ⟨hbytes, hvalid'', hrest, hfresh'', herror'⟩ := ih (done ++ got) hvalid'
            (show pending - got.length ≤ rounds by omega)
          rw [hskip, hcontent] at hbytes hrest
          have hgot' : f.content.take got.length = got := (List.prefix_iff_eq_take.mp hpre).symm
          have hsplit : f.content.take pending =
              got ++ (f.content.drop got.length).take (pending - got.length) := by
            rw [← Nat.add_sub_cancel' hle, List.take_add, hgot', Nat.add_sub_cancel' hle]
          refine ⟨by rw [hbytes, hsplit, List.append_assoc], hvalid'', ?_,
            fun _ => hfresh'' hfresh', fun hroom => ?_⟩
          · rw [hrest, List.drop_drop, Nat.add_sub_cancel' hle]
          · have hsame : (qemuFileSkip got.length g).lastError = g.lastError := by
              rw [qemuFileSkip_eq hfit]
            have hle' := hpre.length_le
            rw [herror' (.inl hfresh'), hsame, herror hroom, hskip, hcontent, List.length_drop]
            simp only [← List.length_eq_zero_iff, eio]
            split_ifs <;> omega

theorem qemuGetBuffer_spec (hf : f.Valid) (size : Nat) :
    (qemuGetBuffer ops size f).1 = f.content.take size ∧ (qemuGetBuffer ops size f).2.Valid ∧
      (qemuGetBuffer ops size f).2.content = f.content.drop size ∧
      (f.Fresh → (qemuGetBuffer ops size f).2.Fresh) ∧
      (f.Fresh ∨ size ≤ ioBufSize → (qemuGetBuffer ops size f).2.lastError =
        if f.lastError = 0 ∧ f.content.length < size then -eio else f.lastError) :=
  getRounds_spec hops [] hf le_rfl

theorem qemuGetByte_spec (hf : f.Valid) :
    (qemuGetByte ops f).1 = f.content.headD 0 ∧ (qemuGetByte ops f).2.Valid ∧
      (qemuGetByte ops f).2.content = f.content.drop 1 ∧ (qemuGetByte ops f).2.Fresh ∧
      (qemuGetByte ops f).2.lastError =
        if f.lastError = 0 ∧ f.content.length < 1 then -eio else f.lastError := by
  have hindex := hf.index
  have hlength := length_content hf
  obtain ⟨k, hk⟩ := hops f.calls
  by_cases hfill : f.buf.length < f.bufIndex + 1
  · obtain ⟨hvalid, hzero, hbuf, hcontent, herror⟩ := qemuFillBuffer_spec hf hk
    have hpending : f.buf.drop f.bufIndex = [] :=
      List.drop_eq_nil_iff.mpr (Nat.lt_succ_iff.mp hfill)
    have hsource : f.content = f.source := by rw [GetFile.content, hpending, List.nil_append]
    have hfresh : f.Fresh := by
      by_cases h0 : f.bufIndex = 0
      · exact .inr (by simp only [ioBufSize]; omega)
      · exact .inl (by omega)
    have hend : (qemuFillBuffer ops f).buf.length ≤ (qemuFillBuffer ops f).bufIndex →
        (qemuFillBuffer ops f).content = [] := by
      intro h
      rw [hzero, Nat.le_zero, List.length_eq_zero_iff, hbuf, List.append_eq_nil_iff] at h
      rw [hcontent, hsource, (delivered_eq_nil_iff hf hfresh k).mp h.2]
    obtain ⟨hbyte, hvalid', hcontent', hfresh', herror'⟩ := takeByte_spec hvalid hend
    rw [hcontent] at hbyte hcontent'
    have heq : qemuGetByte ops f =
        ((qemuFillBuffer ops f).buf.getD (qemuFillBuffer ops f).bufIndex 0,
          qemuFileSkip 1 (qemuFillBuffer ops f)) := by
      simp only [qemuGetByte, qemuPeekByte, lookFor, Nat.add_zero, Nat.zero_add, if_pos hfill]
    rw [heq]
    refine ⟨hbyte, hvalid', hcontent', hfresh', ?_⟩
    dsimp only
    simp only [herror', herror, delivered_eq_nil_iff hf hfresh k, hsource, Nat.lt_one_iff,
      List.length_eq_zero_iff]
  · obtain ⟨hbyte, hvalid, hcontent, hfresh, herror⟩ :=
      takeByte_spec hf fun hend => absurd (Nat.lt_succ_iff.mpr hend) hfill
    have hsome : ¬ f.content.length < 1 := by omega
    have heq : qemuGetByte ops f = (f.buf.getD f.bufIndex 0, qemuFileSkip 1 f) := by
      simp only [qemuGetByte, qemuPeekByte, lookFor, Nat.add_zero, Nat.zero_add, if_neg hfill]
    rw [heq]
    refine ⟨hbyte, hvalid, hcontent, hfresh, ?_⟩
    rw [if_neg fun h => hsome h.2]
    exact herror

end Order

/-! ## Reading what is known to be there -/

structure GetFile.Sound (f : GetFile) : Prop where
  valid : f.Valid
  noError : f.lastError = 0

def act {α : Type} (g : GetFile → α × GetFile) : StateT GetFile Run α := fun f => .ok (g f)

theorem act_bind {α β : Type} (g : GetFile → α × GetFile) (k : α → StateT GetFile Run β)
    (f : GetFile) : (act g >>= k) f = k (g f).1 (g f).2 := rfl

abbrev Gets {α : Type} (p : StateT GetFile Run α) (xs rest : List U8) (a : α) : Prop :=
  Reads GetFile.content GetFile.Sound p xs rest a

section Gets

variable {ops : GetOps} (hops : ops.Steady)

include hops

theorem gets_byte (b : U8) (rest : List U8) : Gets (act (qemuGetByte ops)) [b] rest b := by
  intro f hf hcontent
  obtain ⟨hbyte, hvalid, hrest, -, herror⟩ := qemuGetByte_spec hops hf.valid
  rw [hcontent] at hbyte hrest herror
  refine ⟨(qemuGetByte ops f).2, congrArg Run.ok (Prod.ext hbyte rfl), ⟨hvalid, ?_⟩, hrest⟩
  rw [herror, hf.noError, if_neg (by simp)]

theorem gets_bytes (xs rest : List U8) :
    Gets (act (getBytes ops xs.length)) xs rest xs := by
  induction xs with
  | nil => exact .pure rest []
  | cons b xs ih =>
      intro f hf hcontent
      obtain ⟨f₁, hbyte, hf₁, hcontent₁⟩ := gets_byte hops b (xs ++ rest) f hf hcontent
      obtain ⟨f₂, hbytes, hf₂, hcontent₂⟩ := ih f₁ hf₁ hcontent₁
      have hbyte : qemuGetByte ops f = (b, f₁) := Run.ok.inj hbyte
      have hbytes : getBytes ops xs.length f₁ = (xs, f₂) := Run.ok.inj hbytes
      refine ⟨f₂, congrArg Run.ok ?_, hf₂, hcontent₂⟩
      simp only [List.length_cons, getBytes, hbyte, hbytes]

theorem gets_be (n v : Nat) (rest : List U8) :
    Gets (act (getBe ops n)) (toBe n v) rest (v % 256 ^ n) := by
  intro f hf hcontent
  obtain ⟨f', hbytes, hf', hcontent'⟩ := gets_bytes hops (toBe n v) rest f hf hcontent
  have hbytes : getBytes ops n f = (toBe n v, f') := by
    rw [length_toBe] at hbytes
    exact Run.ok.inj hbytes
  refine ⟨f', congrArg Run.ok ?_, hf', hcontent'⟩
  simp only [getBe, hbytes, ofBe_toBe]

theorem gets_buffer {xs : List U8} (hsize : xs.length ≤ ioBufSize) (rest : List U8) :
    Gets (act (qemuGetBuffer ops xs.length)) xs rest xs := by
  intro f hf hcontent
  obtain ⟨hbytes, hvalid, hrest, -, herror⟩ := qemuGetBuffer_spec hops hf.valid xs.length
  rw [hcontent] at hbytes hrest herror
  rw [List.take_left] at hbytes
  rw [List.drop_left] at hrest
  refine ⟨(qemuGetBuffer ops xs.length f).2, congrArg Run.ok (Prod.ext hbytes rfl),
    ⟨hvalid, ?_⟩, hrest⟩
  rw [herror (.inr hsize), hf.noError, if_neg (by simp)]

end Gets

/-! ## Looking ahead -/

section Ahead

variable {ops : GetOps} {k : Nat} (hops : ops.Prompt k) (hk : k ≤ ioBufSize) {f : GetFile}

include hops hk

/-- One `qemu_fill_buffer` is enough for what the backend delivers at a time. -/
theorem lookFor_ahead (hf : f.Sound) {n : Nat} (hn : n ≤ k) (hlen : n ≤ f.content.length) :
    (lookFor ops n f).Sound ∧ (lookFor ops n f).content = f.content ∧
      (lookFor ops n f).bufIndex + n ≤ (lookFor ops n f).buf.length := by
  have hindex := hf.valid.index
  have hlength := length_content hf.valid
  by_cases hfill : f.buf.length < f.bufIndex + n
  · obtain ⟨m, hm, hprompt⟩ := hops f.calls
    obtain ⟨hvalid, hzero, hbuf, hcontent, herror⟩ := qemuFillBuffer_spec hf.valid hm
    have hlook : lookFor ops n f = qemuFillBuffer ops f := if_pos hfill
    have hgot : (delivered m f).length =
        min (min (m + 1) (ioBufSize - (f.buf.length - f.bufIndex))) f.source.length :=
      List.length_take
    have hsome : delivered m f ≠ [] := by
      rw [← List.length_pos_iff, hgot]
      omega
    rw [hlook]
    refine ⟨⟨hvalid, by rw [herror, if_neg fun h => hsome h.2, hf.noError]⟩, hcontent, ?_⟩
    rw [hzero, hbuf, List.length_append, List.length_drop, hgot]
    omega
  · have hlook : lookFor ops n f = f := if_neg hfill
    rw [hlook]
    exact ⟨hf, rfl, by omega⟩

theorem qemuPeekByte_ahead (hf : f.Sound) {offset : Nat} (hoffset : offset < k)
    (hlen : offset < f.content.length) :
    ∃ g, qemuPeekByte ops offset f = (f.content.getD offset 0, g) ∧ g.Sound ∧
      g.content = f.content ∧ g.bufIndex + (offset + 1) ≤ g.buf.length := by
  obtain ⟨hsound, hcontent, hfit⟩ := lookFor_ahead hops hk hf hoffset hlen
  refine ⟨lookFor ops (offset + 1) f, Prod.ext ?_ rfl, hsound, hcontent, hfit⟩
  show (lookFor ops (offset + 1) f).buf.getD ((lookFor ops (offset + 1) f).bufIndex + offset) 0 =
    f.content.getD offset 0
  rw [← hcontent, GetFile.content, List.getD_eq_getElem?_getD, List.getD_eq_getElem?_getD,
    List.getElem?_append_left (by rw [List.length_drop]; omega), List.getElem?_drop]

theorem qemuPeekBuffer_ahead (hf : f.Sound) {size offset : Nat} (hsize : offset + size ≤ k)
    (hlen : offset + size ≤ f.content.length) :
    ∃ g, qemuPeekBuffer ops size offset f = ((f.content.drop offset).take size, g) ∧ g.Sound ∧
      g.content = f.content ∧ g.bufIndex + (offset + size) ≤ g.buf.length := by
  obtain ⟨hsound, hcontent, hfit⟩ := lookFor_ahead hops hk hf hsize hlen
  refine ⟨lookFor ops (offset + size) f, Prod.ext ?_ rfl, hsound, hcontent, hfit⟩
  show ((lookFor ops (offset + size) f).buf.drop
    ((lookFor ops (offset + size) f).bufIndex + offset)).take size =
      (f.content.drop offset).take size
  rw [← hcontent, GetFile.content,
    List.drop_append_of_le_length (by rw [List.length_drop]; omega), List.drop_drop,
    List.take_append_of_le_length (by rw [List.length_drop]; omega)]

end Ahead

/-! ## Any order of reads -/

inductive GetOp where
  | byte
  | buffer (size : Nat)

namespace GetOp

/-- The bytes that a read returns. -/
def exec (ops : GetOps) : GetOp → GetFile → List U8 × GetFile
  | byte, f => ([(qemuGetByte ops f).1], (qemuGetByte ops f).2)
  | buffer size, f => qemuGetBuffer ops size f

def size : GetOp → Nat
  | byte => 1
  | buffer size => size

/-- The same read on the stream itself; a byte that is not there is zero. -/
def flat : GetOp → List U8 → List U8
  | byte, stream => [stream.headD 0]
  | buffer size, stream => stream.take size

end GetOp

def getAll (ops : GetOps) : List GetOp → GetFile → List (List U8) × GetFile
  | [], f => ([], f)
  | op :: run, f =>
      let (bytes, f) := op.exec ops f
      let (rest, f) := getAll ops run f
      (bytes :: rest, f)

def flatAll : List GetOp → List U8 → List (List U8)
  | [], _ => []
  | op :: run, stream => op.flat stream :: flatAll run (stream.drop op.size)

def demand (run : List GetOp) : Nat := (run.map GetOp.size).sum

theorem GetOp.exec_spec {ops : GetOps} (hops : ops.Steady) (op : GetOp) {f : GetFile}
    (hf : f.Valid) (hfresh : f.Fresh) :
    (op.exec ops f).1 = op.flat f.content ∧ (op.exec ops f).2.Valid ∧
      (op.exec ops f).2.content = f.content.drop op.size ∧ (op.exec ops f).2.Fresh ∧
      (op.exec ops f).2.lastError =
        if f.lastError = 0 ∧ f.content.length < op.size then -eio else f.lastError := by
  cases op with
  | byte =>
      obtain ⟨hbyte, hvalid, hcontent, hfresh', herror⟩ := qemuGetByte_spec hops hf
      exact ⟨congrArg (fun b => [b]) hbyte, hvalid, hcontent, hfresh', herror⟩
  | buffer size =>
      obtain ⟨hbytes, hvalid, hcontent, hfresh', herror⟩ := qemuGetBuffer_spec hops hf size
      exact ⟨hbytes, hvalid, hcontent, hfresh' hfresh, herror (.inl hfresh)⟩

theorem getAll_spec {ops : GetOps} (hops : ops.Steady) (run : List GetOp) {f : GetFile}
    (hf : f.Valid) (hfresh : f.Fresh) :
    (getAll ops run f).1 = flatAll run f.content ∧
      (getAll ops run f).2.content = f.content.drop (demand run) ∧
      (getAll ops run f).2.lastError =
        if f.lastError = 0 ∧ f.content.length < demand run then -eio else f.lastError := by
  induction run generalizing f with
  | nil => simp [getAll, flatAll, demand]
  | cons op run ih =>
      obtain ⟨hbytes, hvalid, hcontent, hfresh', herror⟩ := op.exec_spec hops hf hfresh
      obtain ⟨hrest, hlast, herror'⟩ := ih hvalid hfresh'
      have hdemand : demand (op :: run) = op.size + demand run := by simp [demand]
      simp only [getAll, flatAll, hdemand, hbytes, hrest, hlast, herror', hcontent, herror,
        List.drop_drop, List.length_drop, eio]
      refine ⟨trivial, trivial, ?_⟩
      split_ifs <;> omega

/--
However the backend cuts the stream, reading it in order gives its bytes, and the file
is in error afterwards just in case more was asked for than there is.
-/
theorem getAll_flat (ops : GetOps) (hops : ops.Steady) (stream : List U8) (run : List GetOp) :
    (getAll ops run { source := stream }).1 = flatAll run stream ∧
      (getAll ops run { source := stream }).2.content = stream.drop (demand run) ∧
      ((getAll ops run { source := stream }).2.lastError = 0 ↔ demand run ≤ stream.length) := by
  have hvalid : GetFile.Valid { source := stream } := ⟨le_rfl, show 0 ≤ ioBufSize by decide⟩
  have hfresh : GetFile.Fresh { source := stream } := .inr (show 0 < ioBufSize by decide)
  obtain ⟨hbytes, hcontent, herror⟩ := getAll_spec hops run hvalid hfresh
  have hstream : GetFile.content { source := stream } = stream := rfl
  rw [hstream] at hbytes hcontent herror
  refine ⟨hbytes, hcontent, ?_⟩
  rw [herror]
  by_cases hshort : stream.length < demand run
  · rw [if_pos ⟨rfl, hshort⟩]
    exact ⟨fun h => absurd h (by decide), fun h => absurd h (by omega)⟩
  · rw [if_neg fun h => hshort h.2]
    exact ⟨fun _ => Nat.not_lt.mp hshort, fun _ => rfl⟩

/-- One byte at a time. -/
theorem getAll_flat_slow :
    (getAll (fun _ => .bytes 0) [.byte, .buffer 2, .byte] { source := [1, 2, 3] }).1 =
      [[1], [2, 3], [0]] ∧
    (getAll (fun _ => .bytes 0) [.byte, .buffer 2, .byte] { source := [1, 2, 3] }).2.lastError ≠
      0 := by
  obtain ⟨hbytes, -, herror⟩ :=
    getAll_flat (fun _ => .bytes 0) (fun _ => ⟨0, rfl⟩) [1, 2, 3] [.byte, .buffer 2, .byte]
  exact ⟨hbytes.trans rfl, fun h => absurd (herror.mp h) (by decide)⟩

end SE4VM.Savevm
