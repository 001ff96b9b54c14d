import SE4VM.Foundation.Relocate
import SE4VM.Savevm.GetFile

/-!
# Handlers of fields

A `VMStateInfo` is the pair of handlers that put one kind of field on a stream and get it
back.  Numbers change their byte order on the way, some are only compared, and space
that has gone out of use is sent as zeros.
-/

namespace SE4VM.Savevm

open SE4VM.Foundation

/-! ## Contracts -/

abbrev Loader := Memory → StateT GetFile Run (Int × Memory)

/-- The calls that handlers make. -/
inductive PutCall where
  | byte (v : U8)
  | buffer (bytes : List U8)

namespace PutCall

def data : PutCall → List U8
  | byte v => [v]
  | buffer bytes => bytes

def op : PutCall → PutOp
  | byte v => .byte v
  | buffer bytes => .buffer bytes

end PutCall

def putBytes (calls : List PutCall) : List U8 := calls.flatMap PutCall.data

@[simp] theorem putBytes_append (xs ys : List PutCall) :
    putBytes (xs ++ ys) = putBytes xs ++ putBytes ys :=
  List.flatMap_append

@[simp] theorem putBytes_byte (v : U8) : putBytes [.byte v] = [v] := rfl

@[simp] theorem putBytes_buffer (bytes : List U8) : putBytes [.buffer bytes] = bytes :=
  List.append_nil bytes

theorem calls_spec (ops : PutOps) (calls : List PutCall) (f : PutFile) :
    AllAllowed ops (calls.map PutCall.op) f ∧
      allGiven ops (calls.map PutCall.op) f = putBytes calls := by
  induction calls generalizing f with
  | nil => exact ⟨trivial, rfl⟩
  | cons c calls ih =>
      obtain ⟨hallowed, hgiven⟩ := ih (c.op.exec ops f)
      cases c with
      | byte v => exact ⟨⟨trivial, hallowed⟩, congrArg ([v] ++ ·) hgiven⟩
      | buffer bytes => exact ⟨⟨trivial, hallowed⟩, congrArg (bytes ++ ·) hgiven⟩

/-- The most significant byte first. -/
def putBe (n v : Nat) : List PutCall := (toBe n v).map .byte

def qemuPutBe16 : Nat → List PutCall := putBe 2
def qemuPutBe32 : Nat → List PutCall := putBe 4
def qemuPutBe64 : Nat → List PutCall := putBe 8

@[simp] theorem putBytes_putBe (n v : Nat) : putBytes (putBe n v) = toBe n v := by
  rw [putBytes, putBe, List.flatMap_map]
  exact List.flatMap_singleton' _

/--
A pair of handlers with its contract.  On the stream that `put` makes of a field, `get`
moves the blocks `foot` to their places, if the receiver is `ready` for it; on any
stream at all it ends and writes to the blocks `reach` only.
-/
structure VMStateInfo where
  get : GetOps → U64 → Nat → Loader
  put : Memory → U64 → Nat → List PutCall
  foot : Memory → U64 → Nat → List Block
  ready : Relocation → List Block → Memory → Memory → U64 → U64 → Nat → Prop
  reach : Memory → U64 → Nat → List Block
  carries : ∀ {ops : GetOps}, ops.Steady → ∀ {ρ : Relocation} {S : List Block} {m m' : Memory}
    {a a' : U64} {n : Nat}, ready ρ S m m' a a' n → ∀ rest : List U8,
    Gets (get ops a' n (transfer ρ S m m')) (putBytes (put m a n)) rest
      (0, transfer ρ (S ++ foot m a n) m m')
  confined : ∀ (ops : GetOps) (a : U64) (n : Nat) (m : Memory) (f : GetFile),
    ∃ ret m' f', get ops a n m f = .ok ((ret, m'), f') ∧ Onward f f' ∧
      ∀ x, covers (reach m a n) x = false → m' x = m x

theorem write_outside {m : Memory} {a x : U64} {bs : List U8} {n : Nat} (hbs : bs.length ≤ n)
    (hx : covers [(a, n)] x = false) : m.write a bs x = m x := by
  rw [covers_singleton, decide_eq_false_iff_not] at hx
  exact Memory.write_apply_of_le m (by omega)

/-! ## Words -/

def putWord (w : Nat) (m : Memory) (a : U64) : List PutCall := putBe w (m.readWord a w)

theorem toLe_readWord (m : Memory) (a : U64) (w : Nat) : toLe w (m.readWord a w) = m.read a w := by
  have h := toLe_ofLe (m.read a w)
  rwa [Memory.length_read] at h

/-- A number of `w` bytes, little-endian in memory and big-endian on the stream. -/
def wordInfo (w : Nat) (hw : w ≤ 8) : VMStateInfo where
  get ops a _ m := do
    let v ← act (getBe ops w)
    pure (0, m.write a (toLe w v))
  put m a _ := putWord w m a
  foot _ a _ := [(a, w)]
  ready ρ _ _ _ a a' _ := ρ.Places a a' w
  reach _ a _ := [(a, w)]
  carries := by
    intro ops hops ρ S m m' a a' n hplaces rest
    have hword : toLe w (m.readWord a w % 256 ^ w) = m.read a w := by
      rw [toLe_mod, toLe_readWord]
    rw [putWord, putBytes_putBe, ← List.append_nil (toBe w (m.readWord a w)),
      ← write_transfer hplaces (by omega), ← hword]
    exact (gets_be hops w _ ([] ++ rest)).bind (.pure rest _)
  confined := by
    intro ops a n m f
    refine ⟨0, m.write a (toLe w (getBe ops w f).1), _, rfl, onward_getBytes ops f w, ?_⟩
    exact fun x hx => write_outside (length_toLe w _).le hx

def vmstateInfoInt8 : VMStateInfo := wordInfo 1 (by decide)
def vmstateInfoInt16 : VMStateInfo := wordInfo 2 (by decide)
def vmstateInfoInt32 : VMStateInfo := wordInfo 4 (by decide)
def vmstateInfoInt64 : VMStateInfo := wordInfo 8 (by decide)
def vmstateInfoUint8 : VMStateInfo := wordInfo 1 (by decide)
def vmstateInfoUint16 : VMStateInfo := wordInfo 2 (by decide)
def vmstateInfoUint32 : VMStateInfo := wordInfo 4 (by decide)
def vmstateInfoUint64 : VMStateInfo := wordInfo 8 (by decide)
def vmstateInfoFloat64 : VMStateInfo := wordInfo 8 (by decide)

/-- A `bool` that holds anything but 0 and 1 would not come back as it was. -/
def vmstateInfoBool : VMStateInfo where
  get ops a _ m := do
    let b ← act (qemuGetByte ops)
    pure (0, m.write a [if b = 0 then 0 else 1])
  put m a _ := [.byte (m a)]
  foot _ a _ := [(a, 1)]
  ready ρ _ m _ a a' _ := ρ.Places a a' 1 ∧ (m a = 0 ∨ m a = 1)
  reach _ a _ := [(a, 1)]
  carries := by
    intro ops hops ρ S m m' a a' n ⟨hplaces, hbool⟩ rest
    have hbyte : [if m a = 0 then 0 else 1] = m.read a 1 := by
      have hread : m.read a 1 = [m a] := by simp [Memory.read]
      rcases hbool with h | h <;> rw [hread, h] <;> rfl
    rw [← write_transfer hplaces (by decide), ← hbyte]
    exact (gets_byte hops (m a) ([] ++ rest)).bind (.pure rest _)
  confined := by
    intro ops a n m f
    refine ⟨0, m.write a [if (qemuGetByte ops f).1 = 0 then 0 else 1], _, rfl,
      onward_qemuGetByte ops f, ?_⟩
    exact fun x hx => write_outside le_rfl hx

/-- The number is not stored, only compared with what the receiver has. -/
def checkInfo (w : Nat) (accept : Nat → Nat → Bool) (haccept : ∀ v, accept v v = true) :
    VMStateInfo where
  get ops a _ m := do
    let v2 ← act (getBe ops w)
    pure (if accept (m.readWord a w) v2 then 0 else -einval, m)
  put m a _ := putWord w m a
  foot _ _ _ := []
  ready ρ S _ _ a a' _ := ρ.Places a a' w ∧ holds S a w
  reach _ _ _ := []
  carries := by
    intro ops hops ρ S m m' a a' n ⟨hplaces, hholds⟩ rest
    have hsame : (transfer ρ S m m').readWord a' w = m.readWord a w := by
      rw [Memory.readWord, Memory.readWord, read_transfer hplaces hholds]
    have hlt : m.readWord a w % 256 ^ w = m.readWord a w := by
      rw [← ofLe_toLe, toLe_readWord, Memory.readWord]
    rw [putWord, putBytes_putBe, ← List.append_nil (toBe w (m.readWord a w)), List.append_nil S]
    refine (gets_be hops w _ ([] ++ rest)).bind ?_
    rw [hlt, hsame, haccept]
    exact .pure rest _
  confined := by
    intro ops a n m f
    exact ⟨_, m, _, rfl, onward_getBytes ops f w, fun x _ => rfl⟩

def equalInfo (w : Nat) : VMStateInfo :=
  checkInfo w (fun v v2 => v = v2) fun _ => decide_eq_true rfl

def vmstateInfoUint8Equal : VMStateInfo := equalInfo 1
def vmstateInfoUint16Equal : VMStateInfo := equalInfo 2
def vmstateInfoInt32Equal : VMStateInfo := equalInfo 4
def vmstateInfoUint32Equal : VMStateInfo := equalInfo 4
def vmstateInfoUint64Equal : VMStateInfo := equalInfo 8

/-- `*old <= new`: it is the value received that must not be the smaller one. -/
def vmstateInfoInt32Le : VMStateInfo :=
  checkInfo 4 (fun old new => (BitVec.ofNat 32 old).toInt ≤ (BitVec.ofNat 32 new).toInt)
    fun _ => decide_eq_true le_rfl

/-! ## Buffers -/

def vmstateInfoBuffer : VMStateInfo where
  get ops a n m := do
    let bs ← act (qemuGetBuffer ops n)
    pure (0, m.write a bs)
  put m a n := [.buffer (m.read a n)]
  foot _ a n := [(a, n)]
  ready ρ _ _ _ a a' n := ρ.Places a a' n ∧ n ≤ ioBufSize
  reach _ a n := [(a, n)]
  carries := by
    intro ops hops ρ S m m' a a' n ⟨hplaces, hsize⟩ rest
    have hbuffer := gets_buffer hops (show (m.read a n).length ≤ ioBufSize by simpa) ([] ++ rest)
    rw [Memory.length_read] at hbuffer
    rw [← write_transfer hplaces (hsize.trans (by decide))]
    exact hbuffer.bind (.pure rest _)
  confined := by
    intro ops a n m f
    refine ⟨0, m.write a (qemuGetBuffer ops n f).1, _, rfl, onward_getRounds ops f n n [], ?_⟩
    intro x hx
    refine write_outside ?_ hx
    have hle := length_getRounds ops f n n []
    rwa [List.length_nil, Nat.zero_add] at hle

/-- The blocks in which `size` bytes without a use are put and got. -/
def unusedBlocks : Nat → Nat → List Nat
  | 0, _ => []
  | rounds + 1, size =>
      if size = 0 then []
      else min 1024 size :: unusedBlocks rounds (size - min 1024 size)

def getUnused (ops : GetOps) : List Nat → StateT GetFile Run Unit
  | [] => pure ()
  | n :: ns => do
      let _ ← act (qemuGetBuffer ops n)
      getUnused ops ns

theorem unusedBlocks_le {rounds size n : Nat} (h : n ∈ unusedBlocks rounds size) : n ≤ 1024 := by
  induction rounds generalizing size with
  | zero => cases h
  | succ rounds ih =>
      rw [unusedBlocks] at h
      split_ifs at h with hsize
      · cases h
      · rcases List.mem_cons.mp h with rfl | h
        · exact min_le_left _ _
        · exact ih h

theorem gets_unused {ops : GetOps} (hops : ops.Steady) (ns : List Nat) (hns : ∀ n ∈ ns, n ≤ 1024)
    (rest : List U8) :
    Gets (getUnused ops ns) (putBytes (ns.map fun n => .buffer (List.replicate n 0))) rest () := by
  induction ns with
  | nil => exact .pure rest ()
  | cons n ns ih =>
      obtain ⟨hn, hns⟩ := List.forall_mem_cons.mp hns
      have hsize : (List.replicate n (0 : U8)).length ≤ ioBufSize := by
        rw [List.length_replicate]
        exact hn.trans (by decide)
      have hbuffer := gets_buffer hops hsize
        (putBytes (ns.map fun n => .buffer (List.replicate n 0)) ++ rest)
      rw [List.length_replicate] at hbuffer
      exact hbuffer.bind (ih hns)

theorem onward_getUnused (ops : GetOps) (ns : List Nat) (f : GetFile) :
    ∃ f', getUnused ops ns f = .ok ((), f') ∧ Onward f f' := by
  induction ns generalizing f with
  | nil => exact ⟨f, rfl, .refl f⟩
  | cons n ns ih =>
      obtain ⟨f', hrun, hon⟩ := ih (qemuGetBuffer ops n f).2
      exact ⟨f', hrun, (onward_getRounds ops f n n []).trans hon⟩

def vmstateInfoUnusedBuffer : VMStateInfo where
  get ops _ n m := do
    getUnused ops (unusedBlocks n n)
    pure (0, m)
  put _ _ n := (unusedBlocks n n).map fun n => .buffer (List.replicate n 0)
  foot _ _ _ := []
  ready _ _ _ _ _ _ _ := True
  reach _ _ _ := []
  carries := by
    intro ops hops ρ S m m' a a' n _ rest
    have hunused := gets_unused hops (unusedBlocks n n) (fun _ => unusedBlocks_le) ([] ++ rest)
    rw [List.append_nil S, ← List.append_nil (putBytes _)]
    exact hunused.bind (.pure rest _)
  confined := by
    intro ops a n m f
    obtain ⟨f', hrun, hon⟩ := onward_getUnused ops (unusedBlocks n n) f
    refine ⟨0, m, f', ?_, hon, fun x _ => rfl⟩
    show (getUnused ops (unusedBlocks n n) f >>= fun r => .ok ((0, m), r.2)) = _
    rw [hrun]
    rfl

/-! ## Bitmaps -/

def bitsToU64s (nr : Nat) : Nat := (nr + 63) / 64

def wordBlocks : Nat → U64 → List Block
  | 0, _ => []
  | k + 1, a => (a, 8) :: wordBlocks k (a + 8)

def putWords (m : Memory) : Nat → U64 → List PutCall
  | 0, _ => []
  | k + 1, a => qemuPutBe64 (m.readWord a 8) ++ putWords m k (a + 8)

def getWords (ops : GetOps) : Nat → U64 → Loader
  | 0, _, m => pure (0, m)
  | k + 1, a, m => do
      let w ← act (qemuGetBe64 ops)
      getWords ops k (a + 8) (m.write a (toLe 8 w))

theorem gets_words {ops : GetOps} (hops : ops.Steady) {ρ : Relocation} {m m' : Memory} (k : Nat)
    {S : List Block} {a a' : U64} (hplaces : ∀ b ∈ wordBlocks k a, ρ.Places b.1 (b.1 - a + a') b.2)
    (rest : List U8) :
    Gets (getWords ops k a' (transfer ρ S m m')) (putBytes (putWords m k a)) rest
      (0, transfer ρ (S ++ wordBlocks k a) m m') := by
  induction k generalizing S a a' with
  | zero =>
      rw [wordBlocks, List.append_nil]
      exact .pure rest _
  | succ k ih =>
      obtain ⟨hfirst, hnext⟩ := List.forall_mem_cons.mp hplaces
      rw [BitVec.sub_self, BitVec.zero_add] at hfirst
      have hword : toLe 8 (m.readWord a 8 % 256 ^ 8) = m.read a 8 := by
        rw [toLe_mod, toLe_readWord]
      have hstep : ∀ b : Block, b.1 - (a + 8) + (a' + 8) = b.1 - a + a' := by
        intro b
        rw [Memory.sub_add_eq, BitVec.add_comm a', ← BitVec.add_assoc, BitVec.sub_add_cancel]
      rw [putWords, putBytes_append, qemuPutBe64, putBytes_putBe, wordBlocks, List.append_cons]
      refine (gets_be hops 8 _ _).bind ?_
      rw [hword, write_transfer hfirst (show 8 ≤ 2 ^ 64 by decide)]
      exact ih fun b hb => by
        rw [hstep]
        exact hnext b hb

theorem getWords_confined (ops : GetOps) (k : Nat) (a : U64) (m : Memory) (f : GetFile) :
    ∃ m' f', getWords ops k a m f = .ok ((0, m'), f') ∧ Onward f f' ∧
      ∀ x, covers (wordBlocks k a) x = false → m' x = m x := by
  induction k generalizing a m f with
  | zero => exact ⟨m, f, rfl, .refl f, fun _ _ => rfl⟩
  | succ k ih =>
      have hstep : getWords ops (k + 1) a m f = getWords ops k (a + 8)
          (m.write a (toLe 8 (qemuGetBe64 ops f).1)) (qemuGetBe64 ops f).2 := by
        rw [getWords, act_bind]
      obtain ⟨m', f', hrun, hon, hout⟩ :=
        ih (a + 8) (m.write a (toLe 8 (qemuGetBe64 ops f).1)) (qemuGetBe64 ops f).2
      refine ⟨m', f', hstep.trans hrun, (onward_getBytes ops f 8).trans hon, fun x hx => ?_⟩
      rw [wordBlocks, ← List.singleton_append, covers_append, Bool.or_eq_false_iff] at hx
      rw [hout x hx.2, write_outside (length_toLe 8 _).le hx.1]

/-- `size` is in bits, and `unsigned long` has 64 of them. -/
def vmstateInfoBitmap : VMStateInfo where
  get ops a n := getWords ops (bitsToU64s n) a
  put m a n := putWords m (bitsToU64s n) a
  foot _ a n := wordBlocks (bitsToU64s n) a
  ready ρ _ _ _ a a' n := ∀ b ∈ wordBlocks (bitsToU64s n) a, ρ.Places b.1 (b.1 - a + a') b.2
  reach _ a n := wordBlocks (bitsToU64s n) a
  carries hops _ _ _ _ _ _ n hplaces rest := gets_words hops (bitsToU64s n) hplaces rest
  confined ops a n m f := by
    obtain ⟨m', f', h⟩ := getWords_confined ops (bitsToU64s n) a m f
    exact ⟨0, m', f', h⟩

end SE4VM.Savevm
