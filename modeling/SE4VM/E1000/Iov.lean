import SE4VM.Foundation.Run
import SE4VM.Foundation.Memory

/-!
# Scatter/gather fragments

The fragment helpers of `util/iov.c`.  A failed assertion is a fault.  Each
helper is characterised by what it does to the bytes of the packet, whichever
way these are cut into fragments.
-/

namespace SE4VM.E1000

open SE4VM.Foundation

abbrev Iov := List (List U8)

def iovSize : Iov → Nat
  | [] => 0
  | frag :: rest => frag.length + iovSize rest

/--
The loop of `iov_to_buf`: the bytes gathered so far have length `done`.
Returns the gathered bytes and the offset still to be skipped.
-/
def iovToBufFrom (bytes : Nat) : Iov → Nat → List U8 → Nat × List U8
  | [], offset, got => (offset, got)
  | frag :: rest, offset, got =>
      if offset ≠ 0 ∨ got.length < bytes then
        if offset < frag.length then
          let len := min (frag.length - offset) (bytes - got.length)
          iovToBufFrom bytes rest 0 (got ++ (frag.drop offset).take len)
        else iovToBufFrom bytes rest (offset - frag.length) got
      else (offset, got)

def iovToBuf (iov : Iov) (offset bytes : Nat) : Run (List U8) :=
  match iovToBufFrom bytes iov offset [] with
  | (0, got) => .ok got
  | _ => .fault

def iovFromBufFrom (buf : List U8) (bytes : Nat) : Iov → Nat → Nat → Nat × Iov × Nat
  | [], offset, done => (offset, [], done)
  | frag :: rest, offset, done =>
      if offset ≠ 0 ∨ done < bytes then
        if offset < frag.length then
          let len := min (frag.length - offset) (bytes - done)
          let frag' :=
            frag.take offset ++ (buf.drop done).take len ++
              frag.drop (offset + len)
          let (offset', rest', done') :=
            iovFromBufFrom buf bytes rest 0 (done + len)
          (offset', frag' :: rest', done')
        else
          let (offset', rest', done') :=
            iovFromBufFrom buf bytes rest (offset - frag.length) done
          (offset', frag :: rest', done')
      else (offset, frag :: rest, done)

def iovFromBuf (iov : Iov) (offset : Nat) (buf : List U8) (bytes : Nat) :
    Run (Iov × Nat) :=
  match iovFromBufFrom buf bytes iov offset 0 with
  | (0, iov', done) => .ok (iov', done)
  | _ => .fault

/-- `while (iov->iov_len <= iov_ofs) { iov_ofs -= iov->iov_len; iov++; }` -/
def iovSkip : Iov → Nat → Run (Iov × Nat)
  | [], _ => .fault
  | frag :: rest, ofs =>
      if frag.length ≤ ofs then iovSkip rest (ofs - frag.length)
      else .ok (frag :: rest, ofs)

/-! ## The packet behind the fragments -/

theorem iovSize_eq (iov : Iov) : iovSize iov = iov.flatten.length := by
  induction iov with
  | nil => rfl
  | cons frag rest ih => simp [iovSize, ih]

/-- The loop skips and copies at once: what is left to skip lies within what is left. -/
theorem iovToBufFrom_spec (bytes : Nat) (iov : Iov) {offset : Nat} {got : List U8}
    (hgot : got.length ≤ bytes) (h : offset ≤ iov.flatten.length) :
    iovToBufFrom bytes iov offset got =
      (0, got ++ (iov.flatten.drop offset).take (bytes - got.length)) := by
  induction iov generalizing offset got with
  | nil =>
      obtain rfl : offset = 0 := Nat.le_zero.mp h
      simp [iovToBufFrom]
  | cons frag rest ih =>
      rw [List.flatten_cons, List.length_append] at h
      simp only [iovToBufFrom, List.flatten_cons]
      split_ifs with hgo hfrag
      · have hlen : (got ++ (frag.drop offset).take
            (min (frag.length - offset) (bytes - got.length))).length ≤ bytes := by
          simp only [List.length_append, List.length_take, List.length_drop]
          omega
        rw [ih hlen (Nat.zero_le _), List.drop_append_of_le_length hfrag.le, List.take_append,
          List.append_assoc, List.drop_zero]
        simp only [List.length_append, List.length_take, List.length_drop]
        congr 3
        · rw [List.take_eq_take_iff, List.length_drop]
          omega
        · congr 1
          omega
      · rw [ih hgot (by omega), List.drop_append,
          List.drop_eq_nil_of_le (Nat.le_of_not_lt hfrag), List.nil_append]
      · rw [show bytes - got.length = 0 by omega, List.take_zero, List.append_nil,
          show offset = 0 by omega]

/-- Behind the end nothing is copied, and the rest of the offset is left over. -/
theorem iovToBufFrom_beyond (bytes : Nat) (iov : Iov) {offset : Nat} (got : List U8)
    (h : iov.flatten.length < offset) :
    iovToBufFrom bytes iov offset got = (offset - iov.flatten.length, got) := by
  induction iov generalizing offset with
  | nil => simp [iovToBufFrom]
  | cons frag rest ih =>
      rw [List.flatten_cons, List.length_append] at h
      rw [iovToBufFrom, if_pos (.inl (by omega)), if_neg (by omega), ih (by omega),
        List.flatten_cons, List.length_append, Nat.sub_sub]

theorem iovToBuf_eq (iov : Iov) {offset : Nat} (bytes : Nat)
    (h : offset ≤ iov.flatten.length) :
    iovToBuf iov offset bytes = .ok ((iov.flatten.drop offset).take bytes) := by
  rw [iovToBuf, iovToBufFrom_spec bytes iov (Nat.zero_le _) h]
  simp

theorem iovToBuf_zero (iov : Iov) (bytes : Nat) :
    iovToBuf iov 0 bytes = .ok (iov.flatten.take bytes) :=
  iovToBuf_eq iov bytes (Nat.zero_le _)

/-- A position in a fragment list: an offset into its first fragment. -/
def CursorOk : Iov → Nat → Prop
  | [], ofs => ofs = 0
  | frag :: _, ofs => ofs ≤ frag.length

theorem iovSkip_spec (iov : Iov) (ofs : Nat) (h : ofs < iov.flatten.length) :
    ∃ iov' ofs', iovSkip iov ofs = .ok (iov', ofs') ∧ CursorOk iov' ofs' ∧
      iov'.flatten.drop ofs' = iov.flatten.drop ofs := by
  induction iov generalizing ofs with
  | nil => simp at h
  | cons frag rest ih =>
      simp only [iovSkip]
      split_ifs with hfrag
      · rw [List.flatten_cons, List.length_append] at h
        obtain ⟨iov', ofs', hskip, hok, hdrop⟩ := ih (ofs - frag.length) (by omega)
        refine ⟨iov', ofs', hskip, hok, ?_⟩
        rw [hdrop, List.flatten_cons, List.drop_append, List.drop_eq_nil_of_le hfrag,
          List.nil_append]
      · exact ⟨_, _, rfl, by simp only [CursorOk]; omega, rfl⟩

def overwrite (bytes : List U8) (offset : Nat) (src : List U8) : List U8 :=
  bytes.take offset ++ src ++ bytes.drop (offset + src.length)

theorem overwrite_append_of_le {frag rest src : List U8} {offset : Nat}
    (h : frag.length ≤ offset) :
    overwrite (frag ++ rest) offset src =
      frag ++ overwrite rest (offset - frag.length) src := by
  simp only [overwrite, List.take_append, List.drop_append, List.take_of_length_le h,
    List.drop_eq_nil_of_le (show frag.length ≤ offset + src.length by omega),
    List.nil_append, List.append_assoc]
  rw [show offset + src.length - frag.length = offset - frag.length + src.length by omega]

theorem overwrite_append_of_lt {frag rest src : List U8} {offset len : Nat}
    (h : offset < frag.length) (hlen : len = min (frag.length - offset) src.length) :
    overwrite (frag ++ rest) offset src =
      overwrite frag offset (src.take len) ++ overwrite rest 0 (src.drop len) := by
  have htake : (src.take len).length = len := by
    rw [List.length_take]
    omega
  simp only [overwrite, htake, List.length_drop, Nat.zero_add, List.take_zero,
    List.nil_append, List.append_assoc]
  rw [List.take_append_of_le_length (by omega), List.drop_append]
  rcases Nat.lt_or_ge (frag.length - offset) src.length with hover | hfit
  · rw [show offset + len = frag.length by omega, List.drop_length,
      List.drop_eq_nil_of_le (show frag.length ≤ offset + src.length by omega),
      show offset + src.length - frag.length = src.length - len by omega]
    simp only [List.nil_append]
    rw [← List.append_assoc (src.take len), List.take_append_drop]
  · rw [show len = src.length by omega, List.take_length, List.drop_length,
      show offset + src.length - frag.length = 0 by omega]
    simp

theorem length_overwrite {bytes src : List U8} {offset : Nat}
    (h : offset + src.length ≤ bytes.length) :
    (overwrite bytes offset src).length = bytes.length := by
  simp only [overwrite, List.length_append, List.length_take, List.length_drop]
  omega

theorem take_drop_overwrite {bytes : List U8} (src : List U8) {offset : Nat}
    (h : offset ≤ bytes.length) :
    ((overwrite bytes offset src).drop offset).take src.length = src := by
  have hhead : (bytes.take offset).length = offset := List.length_take_of_le h
  rw [overwrite, List.append_assoc, List.drop_left' hhead, List.take_left]

theorem iovFromBufFrom_spec (buf : List U8) {bytes : Nat} (hbuf : bytes ≤ buf.length)
    (iov : Iov) {offset done : Nat} (hdone : done ≤ bytes) (h : offset ≤ iov.flatten.length) :
    ∃ iov', iovFromBufFrom buf bytes iov offset done =
        (0, iov', done + min (bytes - done) (iov.flatten.length - offset)) ∧
      iov'.flatten = overwrite iov.flatten offset
        ((buf.drop done).take (min (bytes - done) (iov.flatten.length - offset))) := by
  induction iov generalizing offset done with
  | nil =>
      obtain rfl : offset = 0 := Nat.le_zero.mp h
      exact ⟨[], by simp [iovFromBufFrom], by simp [overwrite]⟩
  | cons frag rest ih =>
      rw [List.flatten_cons, List.length_append] at h
      simp only [iovFromBufFrom, List.flatten_cons, List.length_append]
      split_ifs with hgo hfrag
      · -- `len` of the `total` bytes still to copy fit into this fragment; the rest starts at 0
        generalize htotal : min (bytes - done) (frag.length + rest.flatten.length - offset) = total
        generalize hlen : min (frag.length - offset) (bytes - done) = len
        have hread : ∀ n ≤ bytes - done, ((buf.drop done).take n).length = n := by
          intro n hn
          rw [List.length_take, List.length_drop]
          omega
        have hpart : len = min (frag.length - offset) ((buf.drop done).take total).length := by
          rw [hread total (by omega)]
          omega
        have hmore : done + len ≤ bytes := by omega
        have hleft : min (bytes - (done + len)) (rest.flatten.length - 0) = total - len := by
          omega
        obtain ⟨rest', hrest, hflat⟩ := ih hmore (Nat.zero_le rest.flatten.length)
        rw [hleft] at hrest hflat
        have hcount : done + len + (total - len) = done + total := by omega
        refine ⟨_ :: rest', by rw [hrest, hcount], ?_⟩
        rw [List.flatten_cons, hflat, overwrite_append_of_lt hfrag hpart, List.take_take,
          List.drop_take, List.drop_drop, Nat.min_eq_left (by omega : len ≤ total)]
        congr 1
        rw [overwrite, hread len (by omega)]
      · have hskip : offset - frag.length ≤ rest.flatten.length := by omega
        obtain ⟨rest', hrest, hflat⟩ := ih hdone hskip
        have hroom : rest.flatten.length - (offset - frag.length) =
            frag.length + rest.flatten.length - offset := by omega
        rw [hroom] at hrest hflat
        refine ⟨frag :: rest', by rw [hrest], ?_⟩
        rw [List.flatten_cons, hflat, overwrite_append_of_le (Nat.le_of_not_lt hfrag)]
      · have hz : bytes - done = 0 := by omega
        exact ⟨frag :: rest, by simp [hz, show offset = 0 by omega],
          by simp [overwrite, hz, show offset = 0 by omega]⟩

theorem length_iovFromBufFrom (buf : List U8) {bytes : Nat} (hbuf : bytes ≤ buf.length)
    (iov : Iov) (offset done : Nat) :
    (iovFromBufFrom buf bytes iov offset done).2.1.map List.length = iov.map List.length := by
  induction iov generalizing offset done with
  | nil => rfl
  | cons frag rest ih =>
      simp only [iovFromBufFrom]
      split_ifs with hgo hfrag
      · simp only [List.map_cons, ih, List.length_append, List.length_take, List.length_drop]
        congr 1
        omega
      · simp only [List.map_cons, ih]
      · rfl

theorem iovFromBufFrom_beyond (buf : List U8) (bytes : Nat) (iov : Iov) {offset : Nat}
    (done : Nat) (h : iov.flatten.length < offset) :
    iovFromBufFrom buf bytes iov offset done = (offset - iov.flatten.length, iov, done) := by
  induction iov generalizing offset with
  | nil => simp [iovFromBufFrom]
  | cons frag rest ih =>
      rw [List.flatten_cons, List.length_append] at h
      rw [iovFromBufFrom, if_pos (.inl (by omega)), if_neg (by omega), ih (by omega),
        List.flatten_cons, List.length_append, Nat.sub_sub]

theorem iovFromBuf_eq (iov : Iov) {offset : Nat} {buf : List U8} {bytes : Nat}
    (hbuf : bytes ≤ buf.length) (h : offset ≤ iov.flatten.length) :
    ∃ iov', iovFromBuf iov offset buf bytes =
        .ok (iov', min bytes (iov.flatten.length - offset)) ∧
      iov'.flatten = overwrite iov.flatten offset
        (buf.take (min bytes (iov.flatten.length - offset))) ∧
      iov'.map List.length = iov.map List.length := by
  obtain ⟨iov', hfrom, hflat⟩ := iovFromBufFrom_spec buf hbuf iov (Nat.zero_le bytes) h
  have hlengths := length_iovFromBufFrom buf hbuf iov offset 0
  rw [Nat.sub_zero, Nat.zero_add] at hfrom
  rw [Nat.sub_zero, List.drop_zero] at hflat
  rw [hfrom] at hlengths
  exact ⟨iov', by simp only [iovFromBuf, hfrom], hflat, hlengths⟩

theorem iovToBuf_beyond (iov : Iov) {offset : Nat} (bytes : Nat)
    (h : iov.flatten.length < offset) : iovToBuf iov offset bytes = .fault := by
  obtain ⟨left, hleft⟩ : ∃ left, offset - iov.flatten.length = left + 1 :=
    ⟨offset - iov.flatten.length - 1, by omega⟩
  simp only [iovToBuf, iovToBufFrom_beyond bytes iov [] h, hleft]

theorem iovFromBuf_beyond (iov : Iov) {offset : Nat} (buf : List U8) (bytes : Nat)
    (h : iov.flatten.length < offset) : iovFromBuf iov offset buf bytes = .fault := by
  obtain ⟨left, hleft⟩ : ∃ left, offset - iov.flatten.length = left + 1 :=
    ⟨offset - iov.flatten.length - 1, by omega⟩
  simp only [iovFromBuf, iovFromBufFrom_beyond buf bytes iov 0 h, hleft]

/-! ## Flat copies -/

/-- What `iov_to_buf` is for, on one piece of memory. -/
def flatToBuf (mem : List U8) (offset bytes : Nat) : Run (List U8) :=
  if offset ≤ mem.length then
    .ok ((mem.drop offset).take (min bytes (mem.length - offset)))
  else .fault

/-- What `iov_from_buf` is for, on one piece of memory. -/
def flatFromBuf (mem : List U8) (offset : Nat) (buf : List U8) : Run (List U8 × Nat) :=
  if offset ≤ mem.length then
    let done := min buf.length (mem.length - offset)
    .ok (overwrite mem offset (buf.take done), done)
  else .fault

theorem iovToBuf_eq_flat (iov : Iov) (offset bytes : Nat) :
    iovToBuf iov offset bytes = flatToBuf iov.flatten offset bytes := by
  rcases Nat.lt_or_ge iov.flatten.length offset with hbeyond | h
  · rw [iovToBuf_beyond iov bytes hbeyond, flatToBuf, if_neg (Nat.not_le_of_lt hbeyond)]
  · rw [iovToBuf_eq iov bytes h, flatToBuf, if_pos h, Run.ok.injEq, List.take_eq_take_iff,
      List.length_drop]
    omega

/-- The fragments hold the flat bytes, cut as before. -/
def CutLike (iov : Iov) (r : Iov × Nat) (flat : List U8 × Nat) : Prop :=
  r.1.flatten = flat.1 ∧ r.1.map List.length = iov.map List.length ∧ r.2 = flat.2

theorem iovFromBuf_refines_flat (iov : Iov) (offset : Nat) (buf : List U8) :
    Run.Rel (CutLike iov) (iovFromBuf iov offset buf buf.length)
      (flatFromBuf iov.flatten offset buf) := by
  rcases Nat.lt_or_ge iov.flatten.length offset with hbeyond | h
  · rw [iovFromBuf_beyond iov buf buf.length hbeyond, flatFromBuf,
      if_neg (Nat.not_le_of_lt hbeyond)]
    exact .fault
  · obtain ⟨iov', hfrom, hflat, hlengths⟩ := iovFromBuf_eq iov (Nat.le_refl buf.length) h
    rw [hfrom, flatFromBuf, if_pos h]
    exact .ok ⟨hflat, hlengths, rfl⟩

/-- What was written can be read back. -/
theorem flatToBuf_flatFromBuf {mem mem' buf : List U8} {offset done : Nat}
    (h : flatFromBuf mem offset buf = .ok (mem', done)) :
    flatToBuf mem' offset buf.length = .ok (buf.take done) := by
  simp only [flatFromBuf] at h
  split_ifs at h with hle
  cases h
  have hsrc : (buf.take (min buf.length (mem.length - offset))).length =
      min buf.length (mem.length - offset) := List.length_take_of_le (Nat.min_le_left _ _)
  have hlen : (overwrite mem offset (buf.take (min buf.length (mem.length - offset)))).length =
      mem.length := length_overwrite (by rw [hsrc]; omega)
  have hback := take_drop_overwrite (buf.take (min buf.length (mem.length - offset))) hle
  rw [hsrc] at hback
  rw [flatToBuf, hlen, if_pos hle, hback]

/--
However a packet is cut, the helpers work on its bytes: they copy what fits behind
the offset, fail for an offset behind the end, and read back what was written.
-/
theorem iov_refines_flat (iov : Iov) (offset : Nat) (buf : List U8) :
    iovSize iov = iov.flatten.length ∧
    Run.Rel (CutLike iov) (iovFromBuf iov offset buf buf.length)
      (flatFromBuf iov.flatten offset buf) ∧
    (∀ bytes, iovToBuf iov offset bytes = flatToBuf iov.flatten offset bytes) ∧
    ∀ iov' done, iovFromBuf iov offset buf buf.length = .ok (iov', done) →
      iovToBuf iov' offset buf.length = .ok (buf.take done) := by
  refine ⟨iovSize_eq iov, iovFromBuf_refines_flat iov offset buf, iovToBuf_eq_flat iov offset,
    fun iov' done h => ?_⟩
  obtain ⟨⟨mem', done'⟩, hwrite, hcut⟩ := (iovFromBuf_refines_flat iov offset buf).ok_left h
  obtain ⟨hbytes, -, hdone⟩ := hcut
  dsimp only at hbytes hdone
  subst hbytes hdone
  rw [iovToBuf_eq_flat, flatToBuf_flatFromBuf hwrite]

-- The offset is a boundary with an empty fragment behind it, and the buffer is too long.
example : iovFromBuf [[1], [], [2, 3]] 1 [7, 8, 9] 3 = .ok ([[1], [], [7, 8]], 2) := by decide

end SE4VM.E1000
