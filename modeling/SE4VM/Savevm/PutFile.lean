import SE4VM.Foundation.Memory
import SE4VM.Foundation.Stream

/-!
# Writing a migration stream

The members of `QEMUFile` that are in use when writing.  Bytes go into `buf` and are
handed to the backend when it is full; a backend with `writev_buffer` gets a vector
of pieces instead, some of which may lie in the caller's memory.  Whatever the sizes
of the pieces, what the backend receives is what was put, in order.
-/

namespace SE4VM.Savevm

open SE4VM.Foundation

def ioBufSize : Nat := 32768

/-- `MIN(IOV_MAX, 64)` -/
def maxIovSize : Nat := 64

structure PutOps where
  /-- Whether `writev_buffer` is there; if not, `put_buffer` is. -/
  vectored : Bool
  /-- What a call returns, and how many of the bytes have got through. -/
  write : Nat → List U8 → Int × Nat

structure PutFile where
  mem : Memory
  buf : U64
  bufIndex : Nat := 0
  iov : List (U64 × Nat) := []
  pos : Nat := 0
  bytesXfer : Nat := 0
  lastError : Int := 0
  calls : Nat := 0
  sent : List U8 := []

namespace PutFile

def setError (f : PutFile) (ret : Int) : PutFile :=
  if f.lastError = 0 then { f with lastError := ret } else f

def tail (f : PutFile) : U64 := f.buf + BitVec.ofNat 64 f.bufIndex

end PutFile

def resolve (m : Memory) (iov : List (U64 × Nat)) : List U8 :=
  iov.flatMap fun e => m.read e.1 e.2

/-- What the next flush hands over. -/
def PutOps.pending (ops : PutOps) (f : PutFile) : List U8 :=
  if ops.vectored then resolve f.mem f.iov else f.mem.read f.buf f.bufIndex

def qemuFflush (ops : PutOps) (f : PutFile) : PutFile :=
  let busy : Bool := if ops.vectored then 0 < f.iov.length else 0 < f.bufIndex
  let (ret, kept) := if busy then ops.write f.calls (ops.pending f) else (0, 0)
  let f := { f with
    calls := if busy then f.calls + 1 else f.calls
    sent := f.sent ++ (ops.pending f).take kept
    pos := if 0 ≤ ret then f.pos + ret.toNat else f.pos
    bufIndex := 0
    iov := [] }
  if ret < 0 then f.setError ret else f

/-- Append a piece, or coalesce it with the last one if it is adjacent. -/
def coalesce : List (U64 × Nat) → U64 → Nat → List (U64 × Nat)
  | [], a, n => [(a, n)]
  | [(b, k)], a, n =>
      if a = b + BitVec.ofNat 64 k then [(b, k + n)] else [(b, k), (a, n)]
  | e :: e' :: iov, a, n => e :: coalesce (e' :: iov) a n

def addToIovec (ops : PutOps) (a : U64) (n : Nat) (f : PutFile) : PutFile :=
  let f := { f with iov := coalesce f.iov a n }
  if maxIovSize ≤ f.iov.length then qemuFflush ops f else f

/-- The last statement of a put: a full `buf` is flushed at once. -/
def settle (ops : PutOps) (f : PutFile) : PutFile :=
  if f.bufIndex = ioBufSize then qemuFflush ops f else f

/--
The statements that `qemu_put_byte` and one round of `qemu_put_buffer` have in common;
`counted` is what they add to `bytes_xfer`.
-/
def stash (ops : PutOps) (chunk : List U8) (counted : Nat) (f : PutFile) : PutFile :=
  let a := f.tail
  let f := { f with mem := f.mem.write a chunk, bytesXfer := f.bytesXfer + counted }
  let f := if ops.vectored then addToIovec ops a chunk.length f else f
  settle ops { f with bufIndex := f.bufIndex + chunk.length }

def qemuPutByte (ops : PutOps) (v : U8) (f : PutFile) : PutFile :=
  if f.lastError ≠ 0 then f else stash ops [v] 1 f

/-- The loop of `qemu_put_buffer`; with room in `buf`, every round takes a byte at least. -/
def putRounds (ops : PutOps) : Nat → List U8 → PutFile → PutFile
  | 0, _, f => f
  | rounds + 1, bytes, f =>
      if bytes = [] then f
      else
        let l := min (ioBufSize - f.bufIndex) bytes.length
        let f := stash ops (bytes.take l) bytes.length f
        if f.lastError ≠ 0 then f else putRounds ops rounds (bytes.drop l) f

def qemuPutBuffer (ops : PutOps) (bytes : List U8) (f : PutFile) : PutFile :=
  if f.lastError ≠ 0 then f else putRounds ops bytes.length bytes f

def qemuPutBufferAsync (ops : PutOps) (a : U64) (n : Nat) (f : PutFile) : PutFile :=
  if !ops.vectored then qemuPutBuffer ops (f.mem.read a n) f
  else if f.lastError ≠ 0 then f
  else addToIovec ops a n { f with bytesXfer := f.bytesXfer + n }

def qemuFtell (ops : PutOps) (f : PutFile) : Nat × PutFile :=
  let f := qemuFflush ops f
  (f.pos, f)

/-- `close` is what the backend returns when it is closed. -/
def qemuFclose (ops : PutOps) (close : Option Int) (f : PutFile) : Int × PutFile :=
  let f := qemuFflush ops f
  let ret := f.lastError
  let ret := match close with
    | some ret2 => if 0 ≤ ret then ret2 else ret
    | none => ret
  (if f.lastError ≠ 0 then f.lastError else ret, f)

/-! ## Pieces -/

theorem resolve_coalesce (m : Memory) (iov : List (U64 × Nat)) (a : U64) (n : Nat) :
    resolve m (coalesce iov a n) = resolve m iov ++ m.read a n := by
  induction iov with
  | nil => simp [coalesce, resolve]
  | cons e iov ih =>
      cases iov with
      | nil =>
          obtain ⟨b, k⟩ := e
          simp only [coalesce]
          split_ifs with hadj
          · subst hadj
            simp [resolve, Memory.read_add]
          · simp [resolve]
      | cons e' iov =>
          simp only [coalesce, resolve, List.flatMap_cons, List.append_assoc] at ih ⊢
          rw [ih]

theorem disjoint_add {a b : U64} {k n r : Nat} (h : Memory.Disjoint a k b r)
    (h' : Memory.Disjoint (a + BitVec.ofNat 64 k) n b r) : Memory.Disjoint a (k + n) b r := by
  intro i hi
  rcases Nat.lt_or_ge i k with hlt | hge
  · exact h i hlt
  · obtain ⟨j, rfl⟩ := Nat.exists_eq_add_of_le hge
    rw [← Memory.add_ofNat_add]
    exact h' j (by omega)

theorem coalesce_avoids {iov : List (U64 × Nat)} {a b : U64} {n r : Nat}
    (h : ∀ e ∈ iov, Memory.Disjoint e.1 e.2 b r) (ha : Memory.Disjoint a n b r) :
    ∀ e ∈ coalesce iov a n, Memory.Disjoint e.1 e.2 b r := by
  induction iov with
  | nil =>
      intro e he
      obtain rfl := List.mem_singleton.mp he
      exact ha
  | cons e₀ iov ih =>
      obtain ⟨h₀, hrest⟩ := List.forall_mem_cons.mp h
      cases iov with
      | nil =>
          obtain ⟨c, k⟩ := e₀
          simp only [coalesce]
          split_ifs with hadj
          · subst hadj
            simpa using disjoint_add h₀ ha
          · simpa using ⟨h₀, ha⟩
      | cons e₁ iov =>
          simp only [coalesce]
          exact List.forall_mem_cons.mpr ⟨h₀, ih hrest⟩

theorem disjoint_behind {a : U64} {n r : Nat} (h : n + r ≤ 2 ^ 64) :
    Memory.Disjoint a n (a + BitVec.ofNat 64 n) r := by
  intro i hi
  rw [Memory.offset_add, Memory.offset_self_add]
  omega

theorem resolve_write {m : Memory} {iov : List (U64 × Nat)} {b : U64} {bs : List U8}
    (h : ∀ e ∈ iov, Memory.Disjoint e.1 e.2 b bs.length) :
    resolve (m.write b bs) iov = resolve m iov := by
  simp only [resolve]
  refine List.flatMap_congr fun e he => ?_
  exact Memory.read_write_of_disjoint m (h e he)

/-! ## One call -/

def PutOps.total (ops : PutOps) (f : PutFile) : List U8 := f.sent ++ ops.pending f

/-- What a backend does not refuse it takes whole. -/
def PutOps.Honest (ops : PutOps) : Prop :=
  ∀ n bs, (0 ≤ (ops.write n bs).1 → (ops.write n bs).1 = bs.length ∧
    bs.length ≤ (ops.write n bs).2)

def Broken (f : PutFile) : Prop := f.lastError ≠ 0

/-- Between two calls there is room in both arrays, and the free part of `buf` is not pending. -/
structure Ready (f : PutFile) : Prop where
  index : f.bufIndex < ioBufSize
  slots : f.iov.length < maxIovSize
  free : ∀ e ∈ f.iov, Memory.Disjoint e.1 e.2 f.tail (ioBufSize - f.bufIndex)
  error : f.lastError ≤ 0
  pos : f.lastError = 0 → f.pos = f.sent.length

section Calls

variable {ops : PutOps} (hops : ops.Honest)

theorem pending_of_empty {f : PutFile} (hindex : f.bufIndex = 0) (hiov : f.iov = []) :
    ops.pending f = [] := by
  simp [PutOps.pending, hindex, hiov, resolve, Memory.read]

theorem qemuFflush_cases (ops : PutOps) (f : PutFile) :
    (ops.pending f = [] ∧ qemuFflush ops f = { f with bufIndex := 0, iov := [] }) ∨
    ∃ ret kept, ops.write f.calls (ops.pending f) = (ret, kept) ∧
      ((0 ≤ ret ∧ qemuFflush ops f = { f with
          calls := f.calls + 1, sent := f.sent ++ (ops.pending f).take kept,
          pos := f.pos + ret.toNat, bufIndex := 0, iov := [] }) ∨
        (ret < 0 ∧ qemuFflush ops f = { f with
          calls := f.calls + 1, sent := f.sent ++ (ops.pending f).take kept,
          bufIndex := 0, iov := [],
          lastError := if f.lastError = 0 then ret else f.lastError })) := by
  cases hbusy : (if ops.vectored then decide (0 < f.iov.length) else decide (0 < f.bufIndex)) with
  | false =>
      have hempty : ops.pending f = [] := by
        rw [PutOps.pending]
        split_ifs at hbusy ⊢
        · have hiov : f.iov = [] := by simpa using hbusy
          simp [hiov, resolve]
        · have hindex : f.bufIndex = 0 := by simpa using hbusy
          simp [hindex, Memory.read]
      left
      simp [qemuFflush, hbusy, hempty]
  | true =>
      right
      obtain ⟨ret, kept, hwrite⟩ : ∃ ret kept, ops.write f.calls (ops.pending f) = (ret, kept) :=
        ⟨_, _, rfl⟩
      refine ⟨ret, kept, hwrite, ?_⟩
      rcases Int.lt_or_le ret 0 with hneg | hok
      · right
        have hnot : ¬ 0 ≤ ret := by omega
        refine ⟨hneg, ?_⟩
        simp only [qemuFflush, hbusy, hwrite, if_true, if_pos hneg, if_neg hnot,
          PutFile.setError]
        split_ifs <;> rfl
      · left
        have hnot : ¬ ret < 0 := by omega
        refine ⟨hok, ?_⟩
        simp only [qemuFflush, hbusy, hwrite, if_true, if_pos hok, if_neg hnot]

theorem qemuFflush_empty (ops : PutOps) (f : PutFile) :
    (qemuFflush ops f).iov = [] ∧ (qemuFflush ops f).bufIndex = 0 := by
  rcases qemuFflush_cases ops f with ⟨-, heq⟩ | ⟨ret, kept, -, ⟨-, heq⟩ | ⟨-, heq⟩⟩ <;>
    rw [heq] <;> exact ⟨rfl, rfl⟩

include hops

theorem qemuFflush_spec {f : PutFile} (herror : f.lastError ≤ 0)
    (hpos : f.lastError = 0 → f.pos = f.sent.length) :
    Appends ops.total Broken [] f (qemuFflush ops f) ∧ Ready (qemuFflush ops f) := by
  have hroom : 0 < ioBufSize := by decide
  have hslots : ([] : List (U64 × Nat)).length < maxIovSize := by decide
  have hnone : ∀ g : PutFile, g.bufIndex = 0 → g.iov = [] → ops.total g = g.sent := by
    intro g hindex hiov
    rw [PutOps.total, pending_of_empty hindex hiov, List.append_nil]
  rcases qemuFflush_cases ops f with ⟨hempty, heq⟩ | ⟨ret, kept, hwrite, h⟩
  · rw [heq]
    refine ⟨.of_same id ?_, hroom, hslots, by simp, herror, hpos⟩
    rw [hnone _ rfl rfl, PutOps.total, hempty, List.append_nil]
  · have hhonest := hops f.calls (ops.pending f)
    rw [hwrite] at hhonest
    rcases h with ⟨hok, heq⟩ | ⟨hneg, heq⟩
    · obtain ⟨hret, hkept⟩ := hhonest hok
      dsimp only at hret hkept
      rw [heq, List.take_of_length_le hkept]
      refine ⟨.of_same id (hnone _ rfl rfl), hroom, hslots, by simp, herror, fun h => ?_⟩
      simp [hpos h, hret]
    · rw [heq]
      have hbroken : (if f.lastError = 0 then ret else f.lastError) ≠ 0 := by
        split_ifs <;> omega
      refine ⟨.of_broken hbroken ?_, hroom, hslots, by simp, ?_, fun h => absurd h hbroken⟩
      · rw [hnone _ rfl rfl, PutOps.total]
        exact (List.prefix_append_right_inj _).mpr <| List.take_prefix _ _
      · dsimp only
        split_ifs <;> omega

theorem settle_spec {f : PutFile} (hindex : f.bufIndex ≤ ioBufSize)
    (hslots : f.iov.length < maxIovSize)
    (hfree : ∀ e ∈ f.iov, Memory.Disjoint e.1 e.2 f.tail (ioBufSize - f.bufIndex))
    (herror : f.lastError ≤ 0) (hpos : f.lastError = 0 → f.pos = f.sent.length) :
    Appends ops.total Broken [] f (settle ops f) ∧ Ready (settle ops f) := by
  rw [settle]
  split_ifs with hfull
  · exact qemuFflush_spec hops herror hpos
  · exact ⟨.refl f, by omega, hslots, hfree, herror, hpos⟩

theorem addToIovec_spec (hv : ops.vectored = true) {f : PutFile} (hok : f.lastError = 0)
    (hpos : f.pos = f.sent.length) (a : U64) (n : Nat) :
    Appends ops.total Broken (f.mem.read a n) f (addToIovec ops a n f) ∧
      (addToIovec ops a n f = { f with iov := coalesce f.iov a n } ∧
          (coalesce f.iov a n).length < maxIovSize ∨
        Ready (addToIovec ops a n f) ∧ (addToIovec ops a n f).iov = [] ∧
          (addToIovec ops a n f).bufIndex = 0) := by
  have happend : Appends ops.total Broken (f.mem.read a n) f
      { f with iov := coalesce f.iov a n } := by
    refine .of_eq (not_not_intro hok) ?_
    simp only [PutOps.total, PutOps.pending, hv, if_true, resolve_coalesce, List.append_assoc]
  simp only [addToIovec]
  split_ifs with hfull
  · obtain ⟨hflush, hready⟩ := qemuFflush_spec hops
      (f := { f with iov := coalesce f.iov a n }) hok.le (fun _ => hpos)
    have hboth := happend.trans hflush
    rw [List.append_nil] at hboth
    exact ⟨hboth, .inr ⟨hready, qemuFflush_empty ops _⟩⟩
  · exact ⟨happend, .inl ⟨rfl, Nat.lt_of_not_le hfull⟩⟩

theorem stash_spec {f : PutFile} (hf : Ready f) (hok : f.lastError = 0) (chunk : List U8)
    (hfit : f.bufIndex + chunk.length ≤ ioBufSize) (counted : Nat) :
    Appends ops.total Broken chunk f (stash ops chunk counted f) ∧
      Ready (stash ops chunk counted f) := by
  have hbuf : ioBufSize ≤ 2 ^ 64 := by decide
  have hrest : chunk.length + (ioBufSize - (f.bufIndex + chunk.length)) =
      ioBufSize - f.bufIndex := by omega
  have hnext : f.buf + BitVec.ofNat 64 (f.bufIndex + chunk.length) =
      f.tail + BitVec.ofNat 64 chunk.length := (Memory.add_ofNat_add _ _ _).symm
  have hread : (f.mem.write f.tail chunk).read f.tail chunk.length = chunk :=
    Memory.read_write_self _ _ _ (by omega)
  have hfree : ∀ e ∈ f.iov, Memory.Disjoint e.1 e.2 (f.tail + BitVec.ofNat 64 chunk.length)
      (ioBufSize - (f.bufIndex + chunk.length)) := fun e he =>
    Memory.Disjoint.add_right (by rw [hrest]; exact hf.free e he) (by omega)
  simp only [stash]
  cases hv : ops.vectored with
  | true =>
      have hkept : resolve (f.mem.write f.tail chunk) f.iov = resolve f.mem f.iov :=
        resolve_write fun e he => (hf.free e he).mono (by omega)
      have hstart : Appends ops.total Broken [] f { f with
          mem := f.mem.write f.tail chunk, bytesXfer := f.bytesXfer + counted } :=
        .of_same id (by simp only [PutOps.total, PutOps.pending, hv, if_true, hkept])
      obtain ⟨hadd, hcases⟩ := addToIovec_spec hops hv (f := { f with
        mem := f.mem.write f.tail chunk, bytesXfer := f.bytesXfer + counted }) hok
        (hf.pos hok) f.tail chunk.length
      have hput := hstart.trans hadd
      dsimp only at hput
      rw [List.nil_append, hread] at hput
      have hmove : ∀ (g : PutFile) (k : Nat), Appends ops.total Broken [] g
          { g with bufIndex := k } := fun g k =>
        .of_same id (by simp only [PutOps.total, PutOps.pending, hv, if_true])
      simp only [if_true]
      generalize addToIovec ops f.tail chunk.length { f with
        mem := f.mem.write f.tail chunk, bytesXfer := f.bytesXfer + counted } = g at *
      have hboth := hput.trans (hmove g (g.bufIndex + chunk.length))
      rw [List.append_nil] at hboth
      have hlast : Appends ops.total Broken [] { g with bufIndex := g.bufIndex + chunk.length }
          (settle ops { g with bufIndex := g.bufIndex + chunk.length }) ∧
          Ready (settle ops { g with bufIndex := g.bufIndex + chunk.length }) := by
        rcases hcases with ⟨rfl, hslots⟩ | ⟨hready, hiov, hindex⟩
        · refine settle_spec hops hfit hslots ?_ hf.error hf.pos
          simp only [PutFile.tail, hnext]
          exact coalesce_avoids hfree (disjoint_behind (by omega))
        · refine settle_spec hops (by simp only [hindex]; omega) hready.slots ?_ hready.error
            hready.pos
          simp [hiov]
      have hall := hboth.trans hlast.1
      rw [List.append_nil] at hall
      exact ⟨hall, hlast.2⟩
  | false =>
      have hput : Appends ops.total Broken chunk f { f with
          mem := f.mem.write f.tail chunk, bytesXfer := f.bytesXfer + counted,
          bufIndex := f.bufIndex + chunk.length } := by
        refine .of_eq (not_not_intro hok) ?_
        have hfront : (f.mem.write f.tail chunk).read f.buf f.bufIndex =
            f.mem.read f.buf f.bufIndex :=
          Memory.read_write_of_disjoint _ (disjoint_behind (by have := hf.index; omega))
        have htail : f.buf + BitVec.ofNat 64 f.bufIndex = f.tail := rfl
        simp only [PutOps.total, PutOps.pending, hv, Bool.false_eq_true, if_false,
          Memory.read_add, htail, hfront, hread, List.append_assoc]
      simp only [Bool.false_eq_true, if_false]
      obtain ⟨hlast, hready⟩ := settle_spec hops (f := { f with
        mem := f.mem.write f.tail chunk, bytesXfer := f.bytesXfer + counted,
        bufIndex := f.bufIndex + chunk.length }) hfit hf.slots
        (by simpa only [PutFile.tail, hnext] using hfree) hf.error hf.pos
      have hall := hput.trans hlast
      rw [List.append_nil] at hall
      exact ⟨hall, hready⟩

theorem qemuPutByte_spec {f : PutFile} (hf : Ready f) (v : U8) :
    Appends ops.total Broken [v] f (qemuPutByte ops v f) ∧ Ready (qemuPutByte ops v f) := by
  rw [qemuPutByte]
  split_ifs with hok
  · exact ⟨.of_broken hok (List.prefix_refl _), hf⟩
  · exact stash_spec hops hf (not_not.mp hok) [v] hf.index 1

theorem putRounds_spec {rounds : Nat} (bytes : List U8) {f : PutFile} (hf : Ready f)
    (hok : f.lastError = 0) (hrounds : bytes.length ≤ rounds) :
    Appends ops.total Broken bytes f (putRounds ops rounds bytes f) ∧
      Ready (putRounds ops rounds bytes f) := by
  induction rounds generalizing bytes f with
  | zero =>
      obtain rfl : bytes = [] := List.eq_nil_of_length_eq_zero (Nat.le_zero.mp hrounds)
      exact ⟨.refl f, hf⟩
  | succ rounds ih =>
      simp only [putRounds]
      by_cases hempty : bytes = []
      · rw [if_pos hempty, hempty]
        exact ⟨.refl f, hf⟩
      · rw [if_neg hempty]
        have hpos := List.length_pos_of_ne_nil hempty
        have hroom := hf.index
        generalize hl : min (ioBufSize - f.bufIndex) bytes.length = l
        have htake : (bytes.take l).length = l := List.length_take_of_le (by omega)
        obtain ⟨hput, hready⟩ := stash_spec hops hf hok (bytes.take l)
          (by omega) bytes.length
        split_ifs with hnext
        · refine ⟨⟨fun h => absurd hnext h, ?_, fun h => absurd hok h⟩, hready⟩
          exact hput.cut.trans <| (List.prefix_append_right_inj _).mpr <| List.take_prefix _ _
        · obtain ⟨hrest, hlast⟩ := ih (bytes.drop l) hready (not_not.mp hnext)
            (by rw [List.length_drop]; omega)
          have hall := hput.trans hrest
          rw [List.take_append_drop] at hall
          exact ⟨hall, hlast⟩

theorem qemuPutBuffer_spec {f : PutFile} (hf : Ready f) (bytes : List U8) :
    Appends ops.total Broken bytes f (qemuPutBuffer ops bytes f) ∧
      Ready (qemuPutBuffer ops bytes f) := by
  rw [qemuPutBuffer]
  split_ifs with hok
  · exact ⟨.of_broken hok (List.prefix_refl _), hf⟩
  · exact putRounds_spec hops bytes hf (not_not.mp hok) le_rfl

theorem qemuPutBufferAsync_spec {f : PutFile} (hf : Ready f) {a : U64} {n : Nat}
    (hapart : Memory.Disjoint a n f.buf ioBufSize) :
    Appends ops.total Broken (f.mem.read a n) f (qemuPutBufferAsync ops a n f) ∧
      Ready (qemuPutBufferAsync ops a n f) := by
  rw [qemuPutBufferAsync]
  cases hv : ops.vectored with
  | false => exact qemuPutBuffer_spec hops hf _
  | true =>
      simp only [Bool.not_true, Bool.false_eq_true, if_false]
      split_ifs with hok
      · exact ⟨.of_broken hok (List.prefix_refl _), hf⟩
      · have hgood : f.lastError = 0 := not_not.mp hok
        have hcount : Appends ops.total Broken [] f { f with bytesXfer := f.bytesXfer + n } :=
          .of_same id rfl
        obtain ⟨hadd, hcases⟩ := addToIovec_spec hops hv
          (f := { f with bytesXfer := f.bytesXfer + n }) hgood (hf.pos hgood) a n
        refine ⟨hcount.trans hadd, ?_⟩
        rcases hcases with ⟨heq, hslots⟩ | ⟨hready, -⟩
        · have hindex := hf.index
          have hfree : Memory.Disjoint a n f.tail (ioBufSize - f.bufIndex) := by
            refine Memory.Disjoint.add_right ?_ ?_
            · rwa [Nat.add_sub_cancel' hindex.le]
            · rw [Nat.add_sub_cancel' hindex.le]
              decide
          rw [heq]
          exact ⟨hindex, hslots, coalesce_avoids hf.free hfree, hf.error, hf.pos⟩
        · exact hready

end Calls

/-! ## Runs -/

inductive PutOp where
  | byte (v : U8)
  | buffer (bytes : List U8)
  | async (a : U64) (n : Nat)
  | flush
  | setError (ret : Int)
  | store (a : U64) (bytes : List U8)

namespace PutOp

def exec (ops : PutOps) : PutOp → PutFile → PutFile
  | byte v, f => qemuPutByte ops v f
  | buffer bytes, f => qemuPutBuffer ops bytes f
  | async a n, f => qemuPutBufferAsync ops a n f
  | flush, f => qemuFflush ops f
  | setError ret, f => f.setError ret
  | store a bytes, f => { f with mem := f.mem.write a bytes }

/-- What is put; for an asynchronous put, as it is at the time of the call. -/
def given : PutOp → PutFile → List U8
  | byte v, _ => [v]
  | buffer bytes, _ => bytes
  | async a n, f => f.mem.read a n
  | flush, _ => []
  | setError _, _ => []
  | store _ _, _ => []

/-- Callers stay out of `buf`, and leave alone what they have handed over until it is flushed. -/
def Allowed : PutOp → PutFile → Prop
  | async a n, f => Memory.Disjoint a n f.buf ioBufSize
  | setError ret, _ => ret < 0
  | store a bytes, f => Memory.Disjoint f.buf ioBufSize a bytes.length ∧
      ∀ e ∈ f.iov, Memory.Disjoint e.1 e.2 a bytes.length
  | _, _ => True

theorem exec_spec {ops : PutOps} (hops : ops.Honest) {op : PutOp} {f : PutFile} (hf : Ready f)
    (hop : op.Allowed f) :
    Appends ops.total Broken (op.given f) f (op.exec ops f) ∧ Ready (op.exec ops f) := by
  cases op with
  | byte v => exact qemuPutByte_spec hops hf v
  | buffer bytes => exact qemuPutBuffer_spec hops hf bytes
  | async a n => exact qemuPutBufferAsync_spec hops hf hop
  | flush => exact qemuFflush_spec hops hf.error hf.pos
  | setError ret =>
      have hneg : ret < 0 := hop
      simp only [exec, given, PutFile.setError]
      split_ifs with hok
      · refine ⟨.of_broken (by simp only [Broken]; omega) (List.prefix_refl _), hf.index,
          hf.slots, hf.free, hneg.le, fun h => ?_⟩
        exact absurd h (by simp only; omega)
      · exact ⟨.refl f, hf⟩
  | store a bytes =>
      obtain ⟨hbuf, hiov⟩ := hop
      refine ⟨.of_same id ?_, hf.index, hf.slots, hf.free, hf.error, hf.pos⟩
      simp only [exec, PutOps.total, PutOps.pending, resolve_write hiov,
        Memory.read_write_of_disjoint f.mem (hbuf.mono_left hf.index.le)]

end PutOp

def execAll (ops : PutOps) (run : List PutOp) (f : PutFile) : PutFile :=
  run.foldl (fun f op => op.exec ops f) f

def allGiven (ops : PutOps) : List PutOp → PutFile → List U8
  | [], _ => []
  | op :: run, f => op.given f ++ allGiven ops run (op.exec ops f)

def AllAllowed (ops : PutOps) : List PutOp → PutFile → Prop
  | [], _ => True
  | op :: run, f => op.Allowed f ∧ AllAllowed ops run (op.exec ops f)

theorem execAll_spec {ops : PutOps} (hops : ops.Honest) {run : List PutOp} {f : PutFile}
    (hf : Ready f) (hrun : AllAllowed ops run f) :
    Appends ops.total Broken (allGiven ops run f) f (execAll ops run f) ∧
      Ready (execAll ops run f) := by
  induction run generalizing f with
  | nil => exact ⟨.refl f, hf⟩
  | cons op run ih =>
      obtain ⟨hop, hrest⟩ := hrun
      obtain ⟨hfirst, hready⟩ := op.exec_spec hops hf hop
      obtain ⟨hlast, hready'⟩ := ih hready hrest
      exact ⟨hfirst.trans hlast, hready'⟩

/-- `qemu_fopen_ops`, with `buf` somewhere in memory. -/
def qemuFopenOps (mem : Memory) (buf : U64) : PutFile := { mem := mem, buf := buf }

theorem qemuFopenOps_ready (mem : Memory) (buf : U64) : Ready (qemuFopenOps mem buf) :=
  ⟨show 0 < ioBufSize by decide, show 0 < maxIovSize by decide, by simp [qemuFopenOps], le_rfl,
    fun _ => rfl⟩

section Close

variable {ops : PutOps} (hops : ops.Honest) {mem : Memory} {buf : U64} {run : List PutOp}
  (hrun : AllAllowed ops run (qemuFopenOps mem buf))

include hops hrun

theorem flush_spec :
    Appends ops.total Broken (allGiven ops run (qemuFopenOps mem buf)) (qemuFopenOps mem buf)
        (qemuFflush ops (execAll ops run (qemuFopenOps mem buf))) ∧
      Ready (qemuFflush ops (execAll ops run (qemuFopenOps mem buf))) := by
  obtain ⟨hput, hready⟩ := execAll_spec hops (qemuFopenOps_ready mem buf) hrun
  obtain ⟨hflush, hready'⟩ := qemuFflush_spec hops hready.error hready.pos
  have hall := hput.trans hflush
  rw [List.append_nil] at hall
  exact ⟨hall, hready'⟩

omit hops hrun in
theorem total_start : ops.total (qemuFopenOps mem buf) = [] := by
  rw [PutOps.total, pending_of_empty rfl rfl]
  rfl

omit hops hrun in
theorem total_qemuFflush (f : PutFile) :
    ops.total (qemuFflush ops f) = (qemuFflush ops f).sent := by
  obtain ⟨hiov, hindex⟩ := qemuFflush_empty ops f
  rw [PutOps.total, pending_of_empty hindex hiov, List.append_nil]

omit hrun in
theorem total_of_close {close : Option Int} {f : PutFile} (hf : Ready f)
    (hret : 0 ≤ (qemuFclose ops close f).1) :
    ¬ Broken f ∧ (qemuFclose ops close f).2.sent = ops.total f ∧
      (qemuFflush ops f).lastError = 0 := by
  obtain ⟨hflush, hready⟩ := qemuFflush_spec hops hf.error hf.pos
  have hgood : (qemuFflush ops f).lastError = 0 := by
    by_contra hbad
    have hneg := hready.error
    simp only [qemuFclose, if_pos hbad] at hret
    omega
  obtain ⟨hwhole, htotal⟩ := hflush.whole (not_not_intro hgood)
  rw [List.append_nil, total_qemuFflush] at htotal
  exact ⟨hwhole, htotal, hgood⟩

theorem sent_of_close {close : Option Int}
    (hret : 0 ≤ (qemuFclose ops close (execAll ops run (qemuFopenOps mem buf))).1) :
    (qemuFclose ops close (execAll ops run (qemuFopenOps mem buf))).2.sent =
        allGiven ops run (qemuFopenOps mem buf) ∧
      (qemuFflush ops (execAll ops run (qemuFopenOps mem buf))).lastError = 0 := by
  obtain ⟨hput, hready⟩ := execAll_spec hops (qemuFopenOps_ready mem buf) hrun
  obtain ⟨hwhole, hsent, hgood⟩ := total_of_close hops hready hret
  rw [(hput.whole hwhole).2, total_start, List.nil_append] at hsent
  exact ⟨hsent, hgood⟩

end Close

/--
What reaches the backend is always the beginning of what was put, and all of it if
closing the file reports no error; neither array is ever overrun on the way.
-/
theorem qemuFclose_complete (ops : PutOps) (hops : ops.Honest) (mem : Memory) (buf : U64)
    (run : List PutOp) (hrun : AllAllowed ops run (qemuFopenOps mem buf)) (close : Option Int) :
    let f := execAll ops run (qemuFopenOps mem buf)
    let given := allGiven ops run (qemuFopenOps mem buf)
    f.bufIndex < ioBufSize ∧ f.iov.length < maxIovSize ∧
      (qemuFclose ops close f).2.sent <+: given ∧
      (0 ≤ (qemuFclose ops close f).1 → (qemuFclose ops close f).2.sent = given ∧
        (qemuFtell ops f).1 = given.length) := by
  intro f given
  obtain ⟨-, hready⟩ := execAll_spec hops (qemuFopenOps_ready mem buf) hrun
  obtain ⟨hall, hready'⟩ := flush_spec hops hrun
  refine ⟨hready.index, hready.slots, ?_, fun hret => ?_⟩
  · have hcut := hall.cut
    rwa [total_start, List.nil_append, total_qemuFflush] at hcut
  · obtain ⟨hsent, hgood⟩ := sent_of_close hops hrun hret
    exact ⟨hsent, (hready'.pos hgood).trans (congrArg List.length hsent)⟩

def openBackend : PutOps where
  vectored := true
  write := fun _ bytes => (bytes.length, bytes.length)

theorem openBackend_honest : openBackend.Honest := fun _ _ _ => ⟨rfl, le_rfl⟩

def shortRun : List PutOp := [.byte 1, .buffer [2, 3], .async 0x10000 2, .store 0 [7], .byte 4]

theorem shortRun_allowed :
    AllAllowed openBackend shortRun (qemuFopenOps Memory.blank 0x20000) := by
  refine ⟨trivial, trivial, ?_, ⟨?_, by decide⟩, trivial, trivial⟩ <;>
    exact Memory.disjoint_of_le (by decide) (by decide) (by decide)

theorem qemuFclose_complete_short :
    (qemuFclose openBackend (some 0) (execAll openBackend shortRun
      (qemuFopenOps Memory.blank 0x20000))).2.sent = [1, 2, 3, 0, 0, 4] :=
  ((qemuFclose_complete openBackend openBackend_honest _ _ shortRun shortRun_allowed
    (some 0)).2.2.2 (by decide)).1.trans (by decide)

/-! ## The count of bytes -/

section Count

variable (ops : PutOps)

theorem bytesXfer_qemuFflush (f : PutFile) : (qemuFflush ops f).bytesXfer = f.bytesXfer := by
  rcases qemuFflush_cases ops f with ⟨-, heq⟩ | ⟨ret, kept, -, ⟨-, heq⟩ | ⟨-, heq⟩⟩ <;> rw [heq]

theorem bytesXfer_addToIovec (a : U64) (n : Nat) (f : PutFile) :
    (addToIovec ops a n f).bytesXfer = f.bytesXfer := by
  simp only [addToIovec]
  split_ifs
  · rw [bytesXfer_qemuFflush]
  · rfl

theorem bytesXfer_stash (chunk : List U8) (counted : Nat) (f : PutFile) :
    (stash ops chunk counted f).bytesXfer = f.bytesXfer + counted := by
  simp only [stash, settle]
  split_ifs <;> simp only [bytesXfer_qemuFflush, bytesXfer_addToIovec]

theorem bufIndex_settle {f : PutFile} (h : f.bufIndex ≤ ioBufSize) :
    (settle ops f).bufIndex < ioBufSize := by
  rw [settle]
  split_ifs with hfull
  · rw [(qemuFflush_empty ops f).2]
    decide
  · omega

theorem bufIndex_addToIovec_le (a : U64) (n : Nat) (f : PutFile) :
    (addToIovec ops a n f).bufIndex ≤ f.bufIndex := by
  simp only [addToIovec]
  split_ifs
  · rw [(qemuFflush_empty ops _).2]
    exact Nat.zero_le _
  · exact le_rfl

theorem bufIndex_stash (chunk : List U8) (counted : Nat) (f : PutFile)
    (h : f.bufIndex + chunk.length ≤ ioBufSize) :
    (stash ops chunk counted f).bufIndex < ioBufSize := by
  simp only [stash]
  apply bufIndex_settle
  dsimp only
  split_ifs
  · exact le_trans (Nat.add_le_add_right (bufIndex_addToIovec_le ops _ _ _) _) h
  · exact h

theorem bufIndex_putRounds {rounds : Nat} {bytes : List U8} {f : PutFile}
    (h : f.bufIndex < ioBufSize) : (putRounds ops rounds bytes f).bufIndex < ioBufSize := by
  induction rounds generalizing bytes f with
  | zero => exact h
  | succ rounds ih =>
      have hstash := bufIndex_stash ops (bytes.take (min (ioBufSize - f.bufIndex) bytes.length))
        bytes.length f (by rw [List.length_take]; omega)
      simp only [putRounds]
      split_ifs
      · exact h
      · exact hstash
      · exact ih hstash

theorem bufIndex_qemuPutBuffer {bytes : List U8} {f : PutFile} (h : f.bufIndex < ioBufSize) :
    (qemuPutBuffer ops bytes f).bufIndex < ioBufSize := by
  rw [qemuPutBuffer]
  split_ifs
  · exact h
  · exact bufIndex_putRounds ops h

theorem bufIndex_exec {op : PutOp} {f : PutFile} (h : f.bufIndex < ioBufSize) :
    (op.exec ops f).bufIndex < ioBufSize := by
  cases op with
  | byte v =>
      simp only [PutOp.exec, qemuPutByte]
      split_ifs
      · exact h
      · exact bufIndex_stash ops [v] 1 f h
  | buffer bytes => exact bufIndex_qemuPutBuffer ops h
  | async a n =>
      simp only [PutOp.exec, qemuPutBufferAsync]
      split_ifs
      · exact bufIndex_qemuPutBuffer ops h
      · exact h
      · exact (bufIndex_addToIovec_le ops _ _ _).trans_lt h
  | flush =>
      simp only [PutOp.exec]
      rw [(qemuFflush_empty ops f).2]
      decide
  | setError ret =>
      simp only [PutOp.exec, PutFile.setError]
      split_ifs <;> exact h
  | store a bytes => exact h

theorem bytesXfer_putRounds_le (rounds : Nat) (bytes : List U8) (f : PutFile) :
    f.bytesXfer ≤ (putRounds ops rounds bytes f).bytesXfer := by
  induction rounds generalizing bytes f with
  | zero => exact le_rfl
  | succ rounds ih =>
      simp only [putRounds]
      split_ifs
      · exact le_rfl
      · rw [bytesXfer_stash]
        exact Nat.le_add_right _ _
      · refine le_trans ?_ (ih _ _)
        rw [bytesXfer_stash]
        exact Nat.le_add_right _ _

theorem bytesXfer_putRounds_ge {rounds : Nat} (bytes : List U8) (hrounds : bytes.length ≤ rounds)
    (f : PutFile) :
    f.bytesXfer + bytes.length ≤ (putRounds ops rounds bytes f).bytesXfer := by
  cases rounds with
  | zero => simpa [putRounds] using hrounds
  | succ rounds =>
      simp only [putRounds]
      split_ifs with hempty
      · simp [hempty]
      · rw [bytesXfer_stash]
      · exact le_of_eq_of_le (bytesXfer_stash ops _ _ _).symm (bytesXfer_putRounds_le ops _ _ _)

variable {ops}

/-- What does not fit into `buf` is counted once more in the next round. -/
theorem bytesXfer_qemuPutBuffer {bytes : List U8} {f : PutFile} (hindex : f.bufIndex < ioBufSize)
    (hok : f.lastError = 0) (hgood : (qemuPutBuffer ops bytes f).lastError = 0) :
    f.bytesXfer + bytes.length ≤ (qemuPutBuffer ops bytes f).bytesXfer ∧
      ((qemuPutBuffer ops bytes f).bytesXfer = f.bytesXfer + bytes.length ↔
        f.bufIndex + bytes.length ≤ ioBufSize) := by
  simp only [qemuPutBuffer, hok, ne_eq, not_true, if_false] at hgood ⊢
  refine ⟨bytesXfer_putRounds_ge ops bytes le_rfl f, ?_⟩
  cases hlen : bytes.length with
  | zero =>
      simp only [putRounds, Nat.add_zero]
      exact iff_of_true trivial hindex.le
  | succ n =>
      have hempty : bytes ≠ [] := by
        rintro rfl
        cases hlen
      simp only [hlen, putRounds, if_neg hempty] at hgood ⊢
      generalize hl : min (ioBufSize - f.bufIndex) (n + 1) = l at hgood ⊢
      have hcount := bytesXfer_stash ops (bytes.take l) (n + 1) f
      generalize stash ops (bytes.take l) (n + 1) f = g at hcount hgood ⊢
      by_cases hfit : f.bufIndex + (n + 1) ≤ ioBufSize
      · have hrest : bytes.drop l = [] := List.drop_eq_nil_of_le (by omega)
        refine iff_of_true ?_ hfit
        rw [hrest, ← hcount]
        split_ifs
        · rfl
        · cases n <;> rfl
      · refine iff_of_false ?_ hfit
        by_cases hnext : g.lastError = 0
        · have hleft : (bytes.drop l).length ≤ n := by
            rw [List.length_drop]
            omega
          have hmore := bytesXfer_putRounds_ge ops (bytes.drop l) hleft g
          rw [List.length_drop] at hmore
          rw [if_neg (not_not_intro hnext)]
          omega
        · rw [if_pos hnext] at hgood
          exact absurd hgood hnext

theorem broken_exec {op : PutOp} {f : PutFile} (h : f.lastError ≠ 0) :
    (op.exec ops f).lastError ≠ 0 := by
  cases op with
  | byte v => simp [PutOp.exec, qemuPutByte, h]
  | buffer bytes => simp [PutOp.exec, qemuPutBuffer, h]
  | async a n => simp [PutOp.exec, qemuPutBufferAsync, qemuPutBuffer, h]
  | flush =>
      simp only [PutOp.exec]
      rcases qemuFflush_cases ops f with ⟨-, heq⟩ | ⟨ret, kept, -, ⟨-, heq⟩ | ⟨-, heq⟩⟩ <;>
        rw [heq] <;> simp [h]
  | setError ret => simp [PutOp.exec, PutFile.setError, h]
  | store a bytes => exact h

theorem broken_execAll {run : List PutOp} {f : PutFile} (h : f.lastError ≠ 0) :
    (execAll ops run f).lastError ≠ 0 := by
  induction run generalizing f with
  | nil => exact h
  | cons op run ih => exact ih (broken_exec h)

def PutOp.Fits (ops : PutOps) : PutOp → PutFile → Prop
  | buffer bytes, f => f.bufIndex + bytes.length ≤ ioBufSize
  | async _ n, f => ops.vectored = true ∨ f.bufIndex + n ≤ ioBufSize
  | _, _ => True

def AllFit (ops : PutOps) : List PutOp → PutFile → Prop
  | [], _ => True
  | op :: run, f => op.Fits ops f ∧ AllFit ops run (op.exec ops f)

theorem bytesXfer_exec {op : PutOp} {f : PutFile} (hindex : f.bufIndex < ioBufSize)
    (hok : f.lastError = 0) (hgood : (op.exec ops f).lastError = 0) :
    f.bytesXfer + (op.given f).length ≤ (op.exec ops f).bytesXfer ∧
      ((op.exec ops f).bytesXfer = f.bytesXfer + (op.given f).length ↔ op.Fits ops f) := by
  cases op with
  | byte v =>
      have hcount : (qemuPutByte ops v f).bytesXfer = f.bytesXfer + 1 := by
        rw [qemuPutByte, if_neg (not_not_intro hok), bytesXfer_stash]
      exact ⟨hcount.ge, iff_of_true hcount trivial⟩
  | buffer bytes => exact bytesXfer_qemuPutBuffer hindex hok hgood
  | async a n =>
      simp only [PutOp.exec, PutOp.given, PutOp.Fits, qemuPutBufferAsync] at hgood ⊢
      cases hv : ops.vectored with
      | true =>
          simp [hok, bytesXfer_addToIovec]
      | false =>
          simp only [hv, Bool.not_false, if_true, Bool.false_eq_true, false_or] at hgood ⊢
          simpa using bytesXfer_qemuPutBuffer hindex hok hgood
  | flush =>
      have hcount := bytesXfer_qemuFflush ops f
      exact ⟨hcount.ge, iff_of_true hcount trivial⟩
  | setError ret =>
      have hcount : (f.setError ret).bytesXfer = f.bytesXfer := by
        rw [PutFile.setError, if_pos hok]
      exact ⟨hcount.ge, iff_of_true hcount trivial⟩
  | store a bytes => exact ⟨le_rfl, iff_of_true rfl trivial⟩

theorem bytesXfer_execAll {run : List PutOp} {f : PutFile} (hindex : f.bufIndex < ioBufSize)
    (hgood : (execAll ops run f).lastError = 0) :
    f.bytesXfer + (allGiven ops run f).length ≤ (execAll ops run f).bytesXfer ∧
      ((execAll ops run f).bytesXfer = f.bytesXfer + (allGiven ops run f).length ↔
        AllFit ops run f) := by
  induction run generalizing f with
  | nil => exact ⟨le_rfl, iff_of_true rfl trivial⟩
  | cons op run ih =>
      have hmid : (op.exec ops f).lastError = 0 := by
        by_contra hbad
        exact broken_execAll hbad hgood
      have hok : f.lastError = 0 := by
        by_contra hbad
        exact broken_exec hbad hmid
      obtain ⟨hle, hiff⟩ := bytesXfer_exec hindex hok hmid
      obtain ⟨hle', hiff'⟩ := ih (bufIndex_exec ops hindex) hgood
      simp only [allGiven, List.length_append, AllFit, execAll, List.foldl_cons] at hle' hiff' ⊢
      rw [← hiff, ← hiff']
      omega

end Count

/--
`bytes_xfer`, by which the transfer is limited, is never less than what was put, and
equal to it just in case no put had to be split at the end of `buf`.
-/
theorem bytesXfer_exact_iff (ops : PutOps) (mem : Memory) (buf : U64) (run : List PutOp)
    (hgood : (execAll ops run (qemuFopenOps mem buf)).lastError = 0) :
    (allGiven ops run (qemuFopenOps mem buf)).length ≤
        (execAll ops run (qemuFopenOps mem buf)).bytesXfer ∧
      ((execAll ops run (qemuFopenOps mem buf)).bytesXfer =
          (allGiven ops run (qemuFopenOps mem buf)).length ↔
        AllFit ops run (qemuFopenOps mem buf)) := by
  have h := bytesXfer_execAll (qemuFopenOps_ready mem buf).index hgood
  rwa [show (qemuFopenOps mem buf).bytesXfer = 0 from rfl, Nat.zero_add] at h

theorem bytesXfer_exact_iff_short :
    (allGiven openBackend shortRun (qemuFopenOps Memory.blank 0x20000)).length ≤
        (execAll openBackend shortRun (qemuFopenOps Memory.blank 0x20000)).bytesXfer :=
  (bytesXfer_exact_iff openBackend _ _ shortRun (by decide)).1

end SE4VM.Savevm
