import SE4VM.Foundation.Run
import SE4VM.Foundation.ZeroByte

/-!
# The encoding of a page by what has changed in it

`xbzrle.c` describes a page by runs against its previous contents: the length of a run
of unchanged bytes, the length of a run of changed ones, and these.  The runs are looked
for a `long` at a time.  The loops are followed on the bytes of both buffers from `i` on;
a read or a write past the end of a buffer is a fault.
-/

namespace SE4VM.Ram

open Foundation

/-! ## Numbers of up to fourteen bits -/

def uleb128EncodeSmall (n : Nat) : Run (List U8) :=
  -- `g_assert(n <= 0x3fff)`
  if 0x3fff < n then .fault
  else if n < 0x80 then .ok [BitVec.ofNat 8 n]
  else .ok [BitVec.ofNat 8 (n &&& 0x7f ||| 0x80), BitVec.ofNat 8 (n >>> 7)]

/-- The number and what follows it, or `none` if it goes on beyond fourteen bits. -/
def uleb128DecodeSmall : List U8 → Run (Option (Nat × List U8))
  | [] => .fault
  | b :: rest =>
      if b &&& 0x80 = 0 then .ok (some (b.toNat, rest))
      else
        match rest with
        | [] => .fault
        | c :: rest =>
            if c &&& 0x80 ≠ 0 then .ok none
            else .ok (some ((b &&& 0x7f).toNat ||| c.toNat <<< 7, rest))

theorem uleb_low : ∀ r < 128, (BitVec.ofNat 8 (r ||| 0x80) &&& 0x80 ≠ 0) ∧
    (BitVec.ofNat 8 (r ||| 0x80) &&& 0x7f).toNat = r := by
  decide +kernel

theorem uleb_plain : ∀ r < 128, BitVec.ofNat 8 r &&& 0x80 = 0 := by
  decide +kernel

theorem uleb_spec {n : Nat} (h : n ≤ 0x3fff) :
    ∃ bytes, uleb128EncodeSmall n = .ok bytes ∧
      (bytes.length = 1 ∨ bytes.length = 2 ∧ 128 ≤ n) ∧
      ∀ rest, uleb128DecodeSmall (bytes ++ rest) = .ok (some (n, rest)) := by
  by_cases hsmall : n < 0x80
  · refine ⟨[BitVec.ofNat 8 n], ?_, .inl rfl, fun rest => ?_⟩
    · rw [uleb128EncodeSmall, if_neg (by omega), if_pos hsmall]
    · have hnat : (BitVec.ofNat 8 n).toNat = n := by
        rw [BitVec.toNat_ofNat]
        omega
      simp only [List.singleton_append, uleb128DecodeSmall]
      rw [if_pos (uleb_plain n hsmall), hnat]
  · refine ⟨_, by rw [uleb128EncodeSmall, if_neg (by omega), if_neg hsmall], .inr ⟨rfl, by omega⟩,
      fun rest => ?_⟩
    have hlow : n &&& 0x7f = n % 128 := Nat.and_two_pow_sub_one_eq_mod n 7
    have hhigh : n >>> 7 = n / 128 := Nat.shiftRight_eq_div_pow n 7
    have hnat : (BitVec.ofNat 8 (n / 128)).toNat = n / 128 := by
      rw [BitVec.toNat_ofNat]
      omega
    have hjoin : n % 128 ||| (n / 128) <<< 7 = n := by
      rw [Nat.or_comm, ← Nat.shiftLeft_add_eq_or_of_lt (Nat.mod_lt n (by decide)),
        Nat.shiftLeft_eq]
      omega
    obtain ⟨hflag, hvalue⟩ := uleb_low (n % 128) (Nat.mod_lt n (by decide))
    rw [hlow, hhigh, List.cons_append, List.singleton_append]
    simp only [uleb128DecodeSmall]
    rw [if_neg hflag, if_neg (not_not.mpr (uleb_plain (n / 128) (by omega))), hvalue, hnat, hjoin]

/-! ## The encoder -/

/-- The old and the new bytes from `i` on. -/
abbrev Rest := List (U8 × U8)

def unchanged (x : U8 × U8) : Bool := x.1 == x.2

def changed (x : U8 × U8) : Bool := x.1 != x.2

/-- Up to `res` bytes, one by one: what is left of `res`, how many there were, and the rest. -/
def unaligned (p : U8 × U8 → Bool) : Nat → Nat → Rest → Run (Nat × Nat × Rest)
  | 0, len, rest => .ok (0, len, rest)
  | _ + 1, _, [] => .fault
  | res + 1, len, x :: rest =>
      if p x then unaligned p res (len + 1) rest else .ok (res + 1, len, x :: rest)

/-- `*(long *)buf` -/
def long (bytes : List U8) : U64 := BitVec.ofNat 64 (ofLe bytes)

def oldLong (word : Rest) : U64 := long (word.map Prod.fst)

def newLong (word : Rest) : U64 := long (word.map Prod.snd)

def zrunLongs : Nat → Rest → Run (Nat × Rest)
  | len, [] => .ok (len, [])
  | len, a :: b :: c :: d :: e :: f :: g :: h :: rest =>
      if oldLong [a, b, c, d, e, f, g, h] = newLong [a, b, c, d, e, f, g, h] then
        zrunLongs (len + 8) rest
      else .ok (len, a :: b :: c :: d :: e :: f :: g :: h :: rest)
  | _, _ => .fault

def zrunBytes : Nat → Rest → Nat × Rest
  | len, [] => (len, [])
  | len, x :: rest => if unchanged x then zrunBytes (len + 1) rest else (len, x :: rest)

def zrun (rest : Rest) : Run (Nat × Rest) := do
  let (res, len, rest) ← unaligned unchanged (rest.length % 8) 0 rest
  if res = 0 then
    let (len, rest) ← zrunLongs len rest
    .ok (zrunBytes len rest)
  else .ok (len, rest)

/-- The end of a run of changed bytes: nothing but an unchanged byte stops this loop. -/
def nzrunBytes : Nat → Rest → Run (Nat × Rest)
  | _, [] => .fault
  | len, x :: rest => if changed x then nzrunBytes (len + 1) rest else .ok (len, x :: rest)

def nzrunLongs : Nat → Rest → Run (Nat × Rest)
  | len, [] => .ok (len, [])
  | len, a :: b :: c :: d :: e :: f :: g :: h :: rest =>
      if hasZeroByte (oldLong [a, b, c, d, e, f, g, h] ^^^ newLong [a, b, c, d, e, f, g, h]) then
        nzrunBytes len (a :: b :: c :: d :: e :: f :: g :: h :: rest)
      else nzrunLongs (len + 8) rest
  | _, _ => .fault

def nzrun (rest : Rest) : Run (Nat × Rest) := do
  let (res, len, rest) ← unaligned changed (rest.length % 8) 0 rest
  if res = 0 then nzrunLongs len rest else .ok (len, rest)

/-- Of `dst` the first `d` bytes are kept. -/
structure Encoder where
  dst : List U8
  rest : Rest
  deriving DecidableEq, Repr

def append (dlen : Nat) (dst bytes : List U8) : Run (List U8) :=
  if dst.length + bytes.length ≤ dlen then .ok (dst ++ bytes) else .fault

def encodeRound (slen dlen : Nat) (s : Encoder) : Run (Step Encoder (Int × List U8)) :=
  if s.rest = [] then .ok (.done (s.dst.length, s.dst))
  else if dlen < s.dst.length + 2 then .ok (.done (-1, s.dst))
  else do
    let (zrunLen, nzrunStart) ← zrun s.rest
    if zrunLen = slen then .ok (.done (0, s.dst))
    else if nzrunStart = [] then .ok (.done (s.dst.length, s.dst))
    else
      let dst ← append dlen s.dst (← uleb128EncodeSmall zrunLen)
      if dlen < dst.length + 2 then .ok (.done (-1, dst))
      else
        let (nzrunLen, rest) ← nzrun nzrunStart
        let dst ← append dlen dst (← uleb128EncodeSmall nzrunLen)
        if dlen < dst.length + nzrunLen then .ok (.done (-1, dst))
        else
          let dst ← append dlen dst ((nzrunStart.take nzrunLen).map Prod.snd)
          .ok (.next { dst := dst, rest := rest })

/-- Every round takes a byte at least.  What is returned comes with the bytes left in `dst`. -/
def xbzrleEncodeBuffer (old new : List U8) (dlen : Nat) : Run (Int × List U8) :=
  if old.length % 8 ≠ 0 then .fault
  else loop (encodeRound old.length dlen) (old.length + 1) { dst := [], rest := old.zip new }

/-! ## The decoder -/

/-- `src` from `i` on, and the whole of `dst`. -/
structure Decoder where
  d : Nat
  src : List U8
  dst : List U8
  deriving DecidableEq, Repr

/-- `memcpy(dst + d, src, count)` -/
def copy (dst : List U8) (d : Nat) (src : List U8) (count : Nat) : Run (List U8) :=
  if d + count ≤ dst.length ∧ count ≤ src.length then
    .ok (dst.take d ++ src.take count ++ dst.drop (d + count))
  else .fault

def decodeRound (slen dlen : Nat) (s : Decoder) : Run (Step Decoder (Int × List U8)) :=
  if s.src = [] then .ok (.done (s.d, s.dst))
  else if s.src.length < 2 then .ok (.done (-1, s.dst))
  else do
    match ← uleb128DecodeSmall s.src with
    | none => .ok (.done (-1, s.dst))
    | some (zcount, src) =>
        -- only the first run of unchanged bytes may be empty
        if s.src.length < slen ∧ zcount = 0 then .ok (.done (-1, s.dst))
        else if dlen < s.d + zcount then .ok (.done (-1, s.dst))
        else if src.length < 2 then .ok (.done (-1, s.dst))
        else
          match ← uleb128DecodeSmall src with
          | none => .ok (.done (-1, s.dst))
          | some (count, src) =>
              if count = 0 then .ok (.done (-1, s.dst))
              else if dlen < s.d + zcount + count ∨ src.length < count then
                .ok (.done (-1, s.dst))
              else
                let dst ← copy s.dst (s.d + zcount) src count
                .ok (.next { d := s.d + zcount + count, src := src.drop count, dst := dst })

/-- `dst` are the bytes that are there, whatever `dlen` says. -/
def xbzrleDecodeBuffer (src dst : List U8) (dlen : Nat) : Run (Int × List U8) :=
  loop (decodeRound src.length dlen) (src.length + 1) { d := 0, src := src, dst := dst }

/-! ## The loops find whole runs -/

def Passed (p : U8 × U8 → Bool) (len len' : Nat) (rest rest' : Rest) : Prop :=
  ∃ run, rest = run ++ rest' ∧ len' = len + run.length ∧ ∀ x ∈ run, p x = true

def Halted (p : U8 × U8 → Bool) (rest : Rest) : Prop := ∀ x ∈ rest.head?, p x = false

namespace Passed

variable {p : U8 × U8 → Bool} {len len' len'' : Nat} {rest rest' rest'' : Rest}

theorem refl : Passed p len len rest rest := ⟨[], rfl, rfl, by simp⟩

theorem trans (h : Passed p len len' rest rest') (h' : Passed p len' len'' rest' rest'') :
    Passed p len len'' rest rest'' := by
  obtain ⟨run, rfl, rfl, hrun⟩ := h
  obtain ⟨run', rfl, rfl, hrun'⟩ := h'
  refine ⟨run ++ run', by rw [List.append_assoc], by rw [List.length_append, Nat.add_assoc], ?_⟩
  intro x hx
  rcases List.mem_append.mp hx with hx | hx
  · exact hrun x hx
  · exact hrun' x hx

theorem cons {x : U8 × U8} (hx : p x = true) (h : Passed p (len + 1) len' rest rest') :
    Passed p len len' (x :: rest) rest' :=
  trans ⟨[x], rfl, rfl, by simpa using hx⟩ h

end Passed

theorem unaligned_spec (p : U8 × U8 → Bool) {res : Nat} (len : Nat) {rest : Rest}
    (h : res ≤ rest.length) :
    ∃ res' len' rest', unaligned p res len rest = .ok (res', len', rest') ∧
      Passed p len len' rest rest' ∧
      (if res' = 0 then rest'.length = rest.length - res else Halted p rest') := by
  induction res generalizing len rest with
  | zero => exact ⟨0, len, rest, rfl, .refl, rfl⟩
  | succ res ih =>
      cases rest with
      | nil => cases h
      | cons x rest =>
          cases hx : p x with
          | true =>
              obtain ⟨res', len', rest', heq, hpassed, hrest⟩ :=
                ih (len + 1) (Nat.le_of_succ_le_succ h)
              refine ⟨res', len', rest', ?_, hpassed.cons hx, ?_⟩
              · rw [unaligned, if_pos hx, heq]
              · rw [List.length_cons, Nat.add_sub_add_right]
                exact hrest
          | false =>
              refine ⟨res + 1, len, x :: rest, ?_, .refl, ?_⟩
              · rw [unaligned, if_neg (by simp [hx])]
              · rw [if_neg (by omega)]
                intro y hy
                cases hy
                exact hx

theorem oldLong_eq_newLong {word : Rest} (h : word.length = 8) :
    oldLong word = newLong word ↔ ∀ x ∈ word, unchanged x = true := by
  constructor
  · intro heq
    have hnat := congrArg BitVec.toNat heq
    rw [oldLong, newLong, long, long, toNat_word (by simpa using h),
      toNat_word (by simpa using h)] at hnat
    have hbytes : word.map Prod.fst = word.map Prod.snd := by
      rw [← toLe_ofLe (word.map Prod.fst), hnat, List.length_map,
        ← List.length_map (f := Prod.snd), toLe_ofLe]
    intro x hx
    exact beq_iff_eq.mpr (List.map_inj_left.mp hbytes x hx)
  · intro hall
    have hbytes : word.map Prod.fst = word.map Prod.snd :=
      List.map_congr_left fun x hx => beq_iff_eq.mp (hall x hx)
    rw [oldLong, newLong, hbytes]

theorem hasZeroByte_xor {word : Rest} (h : word.length = 8) :
    hasZeroByte (oldLong word ^^^ newLong word) = true ↔ ∃ x ∈ word, unchanged x = true := by
  have hxor : oldLong word ^^^ newLong word =
      BitVec.ofNat 64 (ofLe (word.map fun x => x.1 ^^^ x.2)) := by
    rw [oldLong, newLong, long, long, ← BitVec.ofNat_xor, ofLe_xor (by simp), List.zipWith_map,
      List.zipWith_self]
  rw [hxor, hasZeroByte_ofLe (by simpa using h), List.mem_map]
  refine exists_congr fun x => and_congr_right fun _ => ?_
  rw [unchanged, beq_iff_eq]
  exact BitVec.xor_eq_zero_iff

theorem length_ne_longs {rest : Rest} (hnil : rest = [] → False)
    (hlong : ∀ a b c d e f g i rest',
      rest = a :: b :: c :: d :: e :: f :: g :: i :: rest' → False) :
    rest.length % 8 ≠ 0 := by
  rcases rest with _ | ⟨a, _ | ⟨b, _ | ⟨c, _ | ⟨d, _ | ⟨e, _ | ⟨f, _ | ⟨g, _ | ⟨i, rest'⟩⟩⟩⟩⟩⟩⟩⟩
  · exact (hnil rfl).elim
  on_goal 8 => exact (hlong a b c d e f g i rest' rfl).elim
  all_goals simp

theorem zrunLongs_spec (len : Nat) {rest : Rest} (h : rest.length % 8 = 0) :
    ∃ len' rest', zrunLongs len rest = .ok (len', rest') ∧
      Passed unchanged len len' rest rest' := by
  induction len, rest using zrunLongs.induct with
  | case1 len => exact ⟨len, [], rfl, .refl⟩
  | case2 len a b c d e f g i rest heq ih =>
      obtain ⟨len', rest', hloop, hpassed⟩ := ih (by simp only [List.length_cons] at h; omega)
      refine ⟨len', rest', ?_, ?_⟩
      · rw [zrunLongs, if_pos heq, hloop]
      · exact .trans ⟨[a, b, c, d, e, f, g, i], rfl, rfl, (oldLong_eq_newLong rfl).mp heq⟩ hpassed
  | case3 len a b c d e f g i rest hne =>
      exact ⟨len, _, by rw [zrunLongs, if_neg hne], .refl⟩
  | case4 len rest hnil hlong =>
      exact absurd h (length_ne_longs hnil hlong)

theorem zrunBytes_spec (len : Nat) (rest : Rest) :
    Passed unchanged len (zrunBytes len rest).1 rest (zrunBytes len rest).2 ∧
      Halted unchanged (zrunBytes len rest).2 := by
  induction rest generalizing len with
  | nil => exact ⟨.refl, by simp [zrunBytes, Halted]⟩
  | cons x rest ih =>
      cases hx : unchanged x with
      | true =>
          rw [zrunBytes, if_pos hx]
          exact ⟨(ih (len + 1)).1.cons hx, (ih (len + 1)).2⟩
      | false =>
          rw [zrunBytes, if_neg (by simp [hx])]
          exact ⟨.refl, by simpa [Halted] using hx⟩

theorem zrun_spec (rest : Rest) :
    ∃ len rest', zrun rest = .ok (len, rest') ∧ Passed unchanged 0 len rest rest' ∧
      Halted unchanged rest' := by
  have hle : rest.length % 8 ≤ rest.length := Nat.mod_le _ _
  obtain ⟨res, len, mid, hres, hpassed, hmid⟩ := unaligned_spec unchanged 0 hle
  by_cases hzero : res = 0
  · rw [if_pos hzero] at hmid
    have hmod : mid.length % 8 = 0 := by omega
    obtain ⟨len', mid', hlongs, hpassed'⟩ := zrunLongs_spec len hmod
    obtain ⟨hpassed'', hhalt⟩ := zrunBytes_spec len' mid'
    refine ⟨_, _, ?_, hpassed.trans (hpassed'.trans hpassed''), hhalt⟩
    simp only [zrun, hres, Run.ok_bind, if_pos hzero, hlongs]
  · rw [if_neg hzero] at hmid
    refine ⟨len, mid, ?_, hpassed, hmid⟩
    simp only [zrun, hres, Run.ok_bind, if_neg hzero]

theorem changed_eq_not (x : U8 × U8) : changed x = !unchanged x := rfl

theorem nzrunBytes_spec (len : Nat) {rest : Rest} (h : ∃ x ∈ rest, unchanged x = true) :
    ∃ len' rest', nzrunBytes len rest = .ok (len', rest') ∧ Passed changed len len' rest rest' ∧
      Halted changed rest' := by
  induction rest generalizing len with
  | nil =>
      obtain ⟨x, hx, _⟩ := h
      cases hx
  | cons x rest ih =>
      cases hx : changed x with
      | true =>
          have hlater : ∃ y ∈ rest, unchanged y = true := by
            obtain ⟨y, hy, hsame⟩ := h
            rcases List.mem_cons.mp hy with rfl | hy
            · rw [changed_eq_not, hsame] at hx
              cases hx
            · exact ⟨y, hy, hsame⟩
          obtain ⟨len', rest', hloop, hpassed, hhalt⟩ := ih (len + 1) hlater
          exact ⟨len', rest', by rw [nzrunBytes, if_pos hx, hloop], hpassed.cons hx, hhalt⟩
      | false =>
          exact ⟨len, x :: rest, by rw [nzrunBytes, if_neg (by simp [hx])], .refl,
            by simpa [Halted] using hx⟩

/-- A `long` with an unchanged byte ends the run, so that the loop over bytes stays within it. -/
theorem nzrunLongs_spec (len : Nat) {rest : Rest} (h : rest.length % 8 = 0) :
    ∃ len' rest', nzrunLongs len rest = .ok (len', rest') ∧ Passed changed len len' rest rest' ∧
      Halted changed rest' := by
  induction len, rest using nzrunLongs.induct with
  | case1 len => exact ⟨len, [], rfl, .refl, by simp [Halted]⟩
  | case2 len a b c d e f g i rest hzero =>
      obtain ⟨x, hx, hsame⟩ := (hasZeroByte_xor rfl).mp hzero
      obtain ⟨len', rest', hloop, hpassed, hhalt⟩ := nzrunBytes_spec len
        ⟨x, List.mem_append_left rest hx, hsame⟩
      exact ⟨len', rest', by rw [nzrunLongs, if_pos hzero]; exact hloop, hpassed, hhalt⟩
  | case3 len a b c d e f g i rest hzero ih =>
      obtain ⟨len', rest', hloop, hpassed, hhalt⟩ :=
        ih (by simp only [List.length_cons] at h; omega)
      have hword : ∀ x ∈ [a, b, c, d, e, f, g, i], changed x = true := by
        intro x hx
        rw [changed_eq_not, Bool.not_eq_true']
        exact Bool.eq_false_iff.mpr fun hsame => hzero ((hasZeroByte_xor rfl).mpr ⟨x, hx, hsame⟩)
      refine ⟨len', rest', by rw [nzrunLongs, if_neg hzero, hloop], ?_, hhalt⟩
      exact .trans ⟨[a, b, c, d, e, f, g, i], rfl, rfl, hword⟩ hpassed
  | case4 len rest hnil hlong => exact absurd h (length_ne_longs hnil hlong)

theorem nzrun_spec (rest : Rest) :
    ∃ len rest', nzrun rest = .ok (len, rest') ∧ Passed changed 0 len rest rest' ∧
      Halted changed rest' := by
  have hle : rest.length % 8 ≤ rest.length := Nat.mod_le _ _
  obtain ⟨res, len, mid, hres, hpassed, hmid⟩ := unaligned_spec changed 0 hle
  by_cases hzero : res = 0
  · rw [if_pos hzero] at hmid
    have hmod : mid.length % 8 = 0 := by omega
    obtain ⟨len', mid', hlongs, hpassed', hhalt⟩ := nzrunLongs_spec len hmod
    refine ⟨len', mid', ?_, hpassed.trans hpassed', hhalt⟩
    simp only [nzrun, hres, Run.ok_bind, if_pos hzero, hlongs]
  · rw [if_neg hzero] at hmid
    refine ⟨len, mid, ?_, hpassed, hmid⟩
    simp only [nzrun, hres, Run.ok_bind, if_neg hzero]

theorem Passed.pos {p : U8 × U8 → Bool} {len : Nat} {rest rest' : Rest}
    (h : Passed p 0 len rest rest') (hhalt : Halted p rest') (hne : rest ≠ [])
    (hstart : ∀ x ∈ rest.head?, p x = true) : 0 < len := by
  obtain ⟨run, rfl, rfl, hrun⟩ := h
  cases run with
  | nil =>
      obtain ⟨x, rest'', rfl⟩ := List.exists_cons_of_ne_nil hne
      have hx := hstart x rfl
      rw [hhalt x rfl] at hx
      cases hx
  | cons x run =>
      rw [List.length_cons]
      omega

/-! ## The text of a page -/

/--
The grammar of a page against its previous contents.  A run of unchanged bytes may be
empty only at the beginning, and at the end it is left out.
-/
inductive Encoded : Bool → Rest → List U8 → Prop
  | done {first rest} (hsame : ∀ x ∈ rest, unchanged x = true) : Encoded first rest []
  | runs {first zs ns rest zlen nlen text} (hsame : ∀ x ∈ zs, unchanged x = true)
      (hfirst : first = false → 0 < zs.length) (hdiff : ∀ x ∈ ns, changed x = true)
      (hns : 0 < ns.length) (hsize : zs.length + ns.length ≤ 0x3fff)
      (hzlen : uleb128EncodeSmall zs.length = .ok zlen)
      (hnlen : uleb128EncodeSmall ns.length = .ok nlen) (htext : Encoded false rest text) :
      Encoded first (zs ++ (ns ++ rest)) (zlen ++ (nlen ++ (ns.map Prod.snd ++ text)))

theorem map_snd_of_unchanged {rest : Rest} (h : ∀ x ∈ rest, unchanged x = true) :
    rest.map Prod.snd = rest.map Prod.fst :=
  List.map_congr_left fun x hx => (beq_iff_eq.mp (h x hx)).symm

theorem Encoded.eq_nil {first : Bool} {rest : Rest} {text : List U8} (h : Encoded first rest text)
    (hsame : ∀ x ∈ rest, unchanged x = true) : text = [] := by
  cases h with
  | done => rfl
  | @runs _ zs ns rest _ _ _ _ _ hdiff hns _ _ _ _ =>
      obtain ⟨x, hx⟩ := List.exists_mem_of_length_pos hns
      have hfalse := hdiff x hx
      rw [changed_eq_not, hsame x (by simp [hx])] at hfalse
      cases hfalse

theorem decodeRound_runs (slen dlen d : Nat) (dst bytes text : List U8) {zlen nlen : List U8}
    {z n : Nat}
    (hz : uleb128EncodeSmall z = .ok zlen) (hn : uleb128EncodeSmall n = .ok nlen)
    (hsize : z + n ≤ 0x3fff) (hpos : 0 < n) (hbytes : bytes.length = n)
    (hfirst : z = 0 → slen ≤ (zlen ++ (nlen ++ (bytes ++ text))).length)
    (hdlen : d + z + n ≤ dlen) (hdst : d + z + n ≤ dst.length) :
    decodeRound slen dlen { d := d, src := zlen ++ (nlen ++ (bytes ++ text)), dst := dst } =
      .ok (.next { d := d + z + n, src := text,
                   dst := dst.take (d + z) ++ bytes ++ dst.drop (d + z + n) }) := by
  obtain ⟨zlen', hz', hzsize, hzread⟩ := uleb_spec (n := z) (by omega)
  obtain ⟨nlen', hn', hnsize, hnread⟩ := uleb_spec (n := n) (by omega)
  obtain rfl : zlen' = zlen := by rw [hz] at hz'; cases hz'; rfl
  obtain rfl : nlen' = nlen := by rw [hn] at hn'; cases hn'; rfl
  have htake : (bytes ++ text).take n = bytes := by rw [← hbytes, List.take_left]
  have hdrop : (bytes ++ text).drop n = text := by rw [← hbytes, List.drop_left]
  have hcopy : copy dst (d + z) (bytes ++ text) n =
      .ok (dst.take (d + z) ++ bytes ++ dst.drop (d + z + n)) := by
    rw [copy, if_pos ⟨hdst, by rw [List.length_append]; omega⟩, htake]
  simp only [List.length_append] at hfirst
  rw [decodeRound, if_neg, if_neg]
  · simp only [hzread, hnread, Run.ok_bind, List.length_append]
    rw [if_neg (by omega), if_neg (by omega), if_neg (by omega), if_neg (by omega),
      if_neg (by omega), hcopy, Run.ok_bind, hdrop]
  · simp only [List.length_append]
    omega
  · intro hnil
    have hlen := congrArg List.length hnil
    simp only [List.length_append, List.length_nil] at hlen
    omega

theorem loop_decodeRound {first : Bool} {rest : Rest} {text : List U8} (h : Encoded first rest text)
    (slen : Nat) {dlen d fuel : Nat} (pre : List U8) (hfuel : text.length < fuel)
    (hd : pre.length = d) (hdlen : d + rest.length ≤ dlen)
    (hfirst : first = true → slen ≤ text.length) :
    ∃ d' ≤ d + rest.length, loop (decodeRound slen dlen) fuel
        { d := d, src := text, dst := pre ++ rest.map Prod.fst } =
      .ok ((d' : Int), pre ++ rest.map Prod.snd) := by
  induction h generalizing d fuel pre with
  | done hsame =>
      obtain ⟨fuel, rfl⟩ : ∃ k, fuel = k + 1 := ⟨fuel - 1, by omega⟩
      refine ⟨d, by omega, ?_⟩
      rw [map_snd_of_unchanged hsame]
      exact loop_done (by rw [decodeRound, if_pos rfl]) fuel
  | @runs first zs ns rest zlen nlen text hsame hzs _ hns hsize hzlen hnlen htext ih =>
      obtain ⟨fuel, rfl⟩ : ∃ k, fuel = k + 1 := ⟨fuel - 1, by omega⟩
      have hnat : (pre ++ zs.map Prod.fst).length = d + zs.length := by simp [hd]
      have htake : (pre ++ (zs ++ (ns ++ rest)).map Prod.fst).take (d + zs.length) =
          pre ++ zs.map Prod.fst := by
        rw [← hnat, List.map_append, ← List.append_assoc, List.take_left]
      have hdrop : (pre ++ (zs ++ (ns ++ rest)).map Prod.fst).drop (d + zs.length + ns.length) =
          rest.map Prod.fst := by
        rw [← List.drop_drop, ← hnat, List.map_append, ← List.append_assoc, List.drop_left,
          List.map_append, ← List.length_map (f := Prod.fst), List.drop_left]
      simp only [List.length_append] at hdlen
      have hround := decodeRound_runs slen dlen d (pre ++ (zs ++ (ns ++ rest)).map Prod.fst)
        (ns.map Prod.snd) text hzlen hnlen hsize hns (List.length_map _)
        (fun hzero => hfirst (by cases first <;> simp_all)) (by omega) (by simp; omega)
      rw [htake, hdrop] at hround
      obtain ⟨d', hd', hloop⟩ := @ih (d + zs.length + ns.length) fuel
        (pre ++ zs.map Prod.fst ++ ns.map Prod.snd)
        (by simp only [List.length_append, List.length_map] at hfuel; omega)
        (by simp only [List.length_append, List.length_map, hd]) (by omega) (by simp)
      refine ⟨d', by simp only [List.length_append]; omega, ?_⟩
      rw [loop_next hround, hloop, ← map_snd_of_unchanged hsame]
      simp only [List.map_append, List.append_assoc]

/-! ## What the encoder writes is such a text -/

theorem append_eq {dlen : Nat} {dst bytes : List U8} (h : dst.length + bytes.length ≤ dlen) :
    append dlen dst bytes = .ok (dst ++ bytes) := if_pos h

theorem encodeRound_cases {slen dlen : Nat} (hslen : slen ≤ 0x3fff) {dst : List U8} {rest : Rest}
    (hrest : rest.length ≤ slen) (hne : rest ≠ []) (hroom : dst.length + 2 ≤ dlen) :
    ((∀ x ∈ rest, unchanged x = true) ∧ encodeRound slen dlen { dst := dst, rest := rest } =
      .ok (.done (if rest.length = slen then 0 else dst.length, dst))) ∨
    ∃ zs ns rest' zlen nlen, rest = zs ++ (ns ++ rest') ∧ (∀ x ∈ zs, unchanged x = true) ∧
      (Halted changed rest → 0 < zs.length) ∧ (∀ x ∈ ns, changed x = true) ∧ 0 < ns.length ∧
      Halted changed rest' ∧
      uleb128EncodeSmall zs.length = .ok zlen ∧ uleb128EncodeSmall ns.length = .ok nlen ∧
      encodeRound slen dlen { dst := dst, rest := rest } =
        .ok (if dlen < dst.length + zlen.length + 2 then .done (-1, dst ++ zlen)
          else if dlen < dst.length + zlen.length + nlen.length + ns.length then
            .done (-1, dst ++ (zlen ++ nlen))
          else .next { dst := dst ++ (zlen ++ (nlen ++ ns.map Prod.snd)), rest := rest' }) := by
  obtain ⟨z, start, hzrun, hzpassed, hzhalt⟩ := zrun_spec rest
  obtain ⟨n, rest', hnzrun, hnpassed, hnhalt⟩ := nzrun_spec start
  have hstart : start ≠ [] → ∀ x ∈ start.head?, changed x = true := by
    intro _ x hx
    rw [changed_eq_not, hzhalt x hx]
    rfl
  have hzpos : Halted changed rest → 0 < z := by
    refine fun hhalt => hzpassed.pos hzhalt hne fun x hx => ?_
    have hfalse := hhalt x hx
    rwa [changed_eq_not, Bool.not_eq_false'] at hfalse
  have hnpos : start ≠ [] → 0 < n := fun h => hnpassed.pos hnhalt h (hstart h)
  obtain ⟨zs, hzs, hzlen, hsame⟩ := hzpassed
  obtain ⟨ns, hns, hnlen, hdiff⟩ := hnpassed
  rw [Nat.zero_add] at hzlen hnlen
  by_cases hend : start = []
  · left
    rw [hend, List.append_nil] at hzs
    subst hzs
    refine ⟨hsame, ?_⟩
    rw [encodeRound, if_neg hne, if_neg (by simpa using hroom)]
    simp only [hzrun, Run.ok_bind, if_pos hend, hzlen]
    split_ifs <;> rfl
  · right
    subst hzs hns hzlen hnlen
    have hpos := hnpos hend
    simp only [List.length_append] at hrest
    obtain ⟨zlen, hz, hzsize, -⟩ := uleb_spec (n := zs.length) (by omega)
    obtain ⟨nlen, hn, hnsize, -⟩ := uleb_spec (n := ns.length) (by omega)
    refine ⟨zs, ns, rest', zlen, nlen, rfl, hsame, hzpos, hdiff, hpos, hnhalt, hz, hn, ?_⟩
    rw [encodeRound, if_neg hne, if_neg (by simpa using hroom)]
    simp only [hzrun, hnzrun, hz, hn, Run.ok_bind, if_neg hend]
    rw [if_neg (by omega), append_eq (by omega), Run.ok_bind, List.length_append]
    by_cases hfull : dlen < dst.length + zlen.length + 2
    · rw [if_pos hfull, if_pos hfull]
    · rw [if_neg hfull, if_neg hfull, append_eq (by rw [List.length_append]; omega), Run.ok_bind,
        List.length_append, List.length_append, List.append_assoc]
      by_cases hshort : dlen < dst.length + zlen.length + nlen.length + ns.length
      · rw [if_pos hshort, if_pos hshort]
      · rw [if_neg hshort, if_neg hshort, List.take_left,
          append_eq (by simp only [List.length_append, List.length_map]; omega), Run.ok_bind]
        simp only [List.append_assoc]

theorem loop_encodeRound {slen : Nat} (hslen : slen ≤ 0x3fff) (dlen : Nat) (first : Bool)
    {fuel : Nat} (dst : List U8) {rest : Rest} (hfuel : rest.length < fuel)
    (hrest : rest.length ≤ slen) (hdst : dst.length ≤ dlen) (hstart : first = true → dst = [])
    (hlater : first = false → rest.length < slen ∧ Halted changed rest) :
    ∃ ret text, loop (encodeRound slen dlen) fuel { dst := dst, rest := rest } =
        .ok (ret, dst ++ text) ∧ (dst ++ text).length ≤ dlen ∧
      (ret = -1 ∧ 2 * dlen < 2 * dst.length + 3 * rest.length + (if first then 3 else 0) ∨
        ret = (dst ++ text).length ∧ Encoded first rest text) := by
  induction fuel generalizing first dst rest with
  | zero => omega
  | succ fuel ih =>
      by_cases hnil : rest = []
      · have hround : encodeRound slen dlen { dst := dst, rest := rest } =
            .ok (.done (dst.length, dst)) := if_pos hnil
        refine ⟨dst.length, [], ?_, by simpa using hdst, .inr ⟨by simp, .done (by simp [hnil])⟩⟩
        rw [loop_done hround, List.append_nil]
      have hpos : 0 < rest.length := List.length_pos_of_ne_nil hnil
      by_cases hroom : dlen < dst.length + 2
      · have hround : encodeRound slen dlen { dst := dst, rest := rest } =
            .ok (.done (-1, dst)) := by
          rw [encodeRound, if_neg hnil, if_pos hroom]
        refine ⟨-1, [], by rw [loop_done hround, List.append_nil], by simpa using hdst,
          .inl ⟨rfl, ?_⟩⟩
        omega
      rcases encodeRound_cases hslen hrest hnil (Nat.le_of_not_lt hroom) with
        ⟨hsame, hround⟩ |
        ⟨zs, ns, rest', zlen, nlen, rfl, hsame, hzpos, hdiff, hns, hhalt, hz, hn, hround⟩
      · refine ⟨_, [], by rw [loop_done hround, List.append_nil], by simpa using hdst,
          .inr ⟨?_, .done hsame⟩⟩
        split_ifs with hwhole
        · cases first with
          | true => simp [hstart rfl]
          | false => exact absurd hwhole (by have := (hlater rfl).1; omega)
        · simp
      · simp only [List.length_append] at hrest hfuel hlater
        obtain ⟨zlen', hz', hzsize, -⟩ := uleb_spec (n := zs.length) (by omega)
        obtain ⟨nlen', hn', hnsize, -⟩ := uleb_spec (n := ns.length) (by omega)
        obtain rfl : zlen' = zlen := by rw [hz] at hz'; cases hz'; rfl
        obtain rfl : nlen' = nlen := by rw [hn] at hn'; cases hn'; rfl
        have hfirst : first = false → 0 < zs.length := fun h => hzpos (hlater h).2
        have hcost : 2 * zlen'.length + 2 * nlen'.length + 2 * ns.length ≤
            3 * zs.length + 3 * ns.length + (if first then 3 else 0) := by
          cases first with
          | true => simp only [if_true]; omega
          | false => have := hfirst rfl; simp only [Bool.false_eq_true, if_false]; omega
        simp only [List.length_append]
        by_cases hfull : dlen < dst.length + zlen'.length + 2
        · rw [if_pos hfull] at hround
          refine ⟨-1, zlen', loop_done hround fuel, by omega, .inl ⟨rfl, by omega⟩⟩
        rw [if_neg hfull] at hround
        by_cases hshort : dlen < dst.length + zlen'.length + nlen'.length + ns.length
        · rw [if_pos hshort] at hround
          refine ⟨-1, zlen' ++ nlen', loop_done hround fuel, ?_, .inl ⟨rfl, by omega⟩⟩
          rw [List.length_append]
          omega
        rw [if_neg hshort] at hround
        obtain ⟨ret, text, hloop, hlen, hret⟩ := @ih false
          (dst ++ (zlen' ++ (nlen' ++ ns.map Prod.snd))) rest' (by omega)
          (by omega) (by simp only [List.length_append, List.length_map]; omega) (by simp)
          fun _ => ⟨by omega, hhalt⟩
        simp only [List.length_append, List.length_map, List.append_assoc] at hlen hret hloop
        refine ⟨ret, zlen' ++ (nlen' ++ (ns.map Prod.snd ++ text)), ?_, ?_, ?_⟩
        · rw [loop_next hround, hloop]
        · simp only [List.length_append, List.length_map]
          omega
        · simp only [List.length_append, List.length_map]
          rcases hret with ⟨hret, hlong⟩ | ⟨hret, htext⟩
          · simp only [Bool.false_eq_true, if_false] at hlong
            exact .inl ⟨hret, by omega⟩
          · refine .inr ⟨hret, ?_⟩
            exact .runs hsame hfirst hdiff hns (by omega) hz hn htext

def oldPage : List U8 := List.replicate 16 7

def newPage : List U8 := List.replicate 9 7 ++ [1, 2, 7, 7, 7, 7, 7]

example : xbzrleEncodeBuffer oldPage newPage 16 = .ok (4, [9, 2, 1, 2]) := by
  decide +kernel

/-! ## Texts from anywhere -/

theorem uleb128DecodeSmall_cases {src : List U8} (h : 2 ≤ src.length) :
    uleb128DecodeSmall src = .ok none ∨
      ∃ n src', uleb128DecodeSmall src = .ok (some (n, src')) ∧ src'.length < src.length := by
  obtain ⟨b, c, src, rfl⟩ : ∃ b c src', src = b :: c :: src' := by
    rcases src with _ | ⟨b, _ | ⟨c, src⟩⟩
    · cases h
    · exact absurd h (by simp)
    · exact ⟨b, c, src, rfl⟩
  simp only [uleb128DecodeSmall]
  split_ifs
  · exact .inr ⟨_, _, rfl, by simp⟩
  · exact .inl rfl
  · exact .inr ⟨_, _, rfl, by simp only [List.length_cons]; omega⟩

/-- A round gives up, or it copies the bytes of a run to where they belong; which of the two
does not depend on what is there. -/
theorem decodeRound_cases (slen dlen d : Nat) (src : List U8) :
    (src = [] ∧ ∀ dst, decodeRound slen dlen ⟨d, src, dst⟩ = .ok (.done (d, dst))) ∨
      (∀ dst, decodeRound slen dlen ⟨d, src, dst⟩ = .ok (.done (-1, dst))) ∨
      ∃ z n bytes src', d + z + n ≤ dlen ∧ 0 < n ∧ bytes.length = n ∧
        src'.length < src.length ∧
        ∀ dst, decodeRound slen dlen ⟨d, src, dst⟩ = if d + z + n ≤ dst.length then
          .ok (.next ⟨d + z + n, src', dst.take (d + z) ++ bytes ++ dst.drop (d + z + n)⟩)
          else .fault := by
  simp only [decodeRound]
  by_cases hnil : src = []
  · exact .inl ⟨hnil, fun _ => if_pos hnil⟩
  simp only [if_neg hnil]
  right
  by_cases hone : src.length < 2
  · exact .inl fun _ => if_pos hone
  simp only [if_neg hone]
  rcases uleb128DecodeSmall_cases (Nat.le_of_not_lt hone) with hz | ⟨z, mid, hz, hmid⟩
  · exact .inl fun _ => by rw [hz]; rfl
  simp only [hz, Run.ok_bind]
  by_cases hempty : src.length < slen ∧ z = 0
  · exact .inl fun _ => if_pos hempty
  simp only [if_neg hempty]
  by_cases hout : dlen < d + z
  · exact .inl fun _ => if_pos hout
  simp only [if_neg hout]
  by_cases hshort : mid.length < 2
  · exact .inl fun _ => if_pos hshort
  simp only [if_neg hshort]
  rcases uleb128DecodeSmall_cases (Nat.le_of_not_lt hshort) with hn | ⟨n, src', hn, hsrc⟩
  · exact .inl fun _ => by rw [hn]; rfl
  simp only [hn, Run.ok_bind]
  by_cases hzero : n = 0
  · exact .inl fun _ => if_pos hzero
  simp only [if_neg hzero]
  by_cases hover : dlen < d + z + n ∨ src'.length < n
  · exact .inl fun _ => if_pos hover
  simp only [if_neg hover, copy]
  refine .inr ⟨z, n, src'.take n, src'.drop n, by omega, Nat.pos_of_ne_zero hzero, ?_, ?_, ?_⟩
  · rw [List.length_take]
    omega
  · rw [List.length_drop]
    omega
  · intro dst
    by_cases hdst : d + z + n ≤ dst.length
    · rw [if_pos hdst, if_pos ⟨hdst, by omega⟩, Run.ok_bind]
    · rw [if_neg hdst, if_neg fun h => hdst h.1]
      rfl

/--
Whatever the text is, decoding it ends, reads nothing beyond it and writes nothing beyond the
page; unless it is rejected, the answer says how far the page may have changed.
-/
theorem xbzrleDecodeBuffer_within (text page : List U8) :
    ∃ (ret : Int) (page' : List U8),
      xbzrleDecodeBuffer text page page.length = .ok (ret, page') ∧
      page'.length = page.length ∧
      (ret = -1 ∨ ∃ d : Nat, ret = d ∧ d ≤ page.length ∧ page'.drop d = page.drop d) := by
  suffices hend : ∃ r, xbzrleDecodeBuffer text page page.length = .ok r ∧ r.2.length = page.length ∧
      (r.1 = -1 ∨ ∃ d : Nat, r.1 = d ∧ d ≤ page.length ∧ r.2.drop d = page.drop d) by
    obtain ⟨⟨ret, page'⟩, hloop, hpage⟩ := hend
    exact ⟨ret, page', hloop, hpage⟩
  refine loop_of_measure
    (fun s => s.dst.length = page.length ∧ s.d ≤ page.length ∧ s.dst.drop s.d = page.drop s.d) _
    (fun s => s.src.length) ?_ ⟨rfl, Nat.zero_le _, rfl⟩ (Nat.lt_succ_self text.length)
  rintro s ⟨hlen, hd, hdrop⟩
  rcases decodeRound_cases text.length page.length s.d s.src with ⟨-, hdone⟩ | hdone |
    ⟨z, n, bytes, src, hle, -, hbytes, hsrc, hnext⟩
  · exact .inl ⟨_, hdone s.dst, hlen, .inr ⟨s.d, rfl, hd, hdrop⟩⟩
  · exact .inl ⟨_, hdone s.dst, hlen, .inl rfl⟩
  · have hfront : (s.dst.take (s.d + z) ++ bytes).length = s.d + z + n := by
      rw [List.length_append, List.length_take, hbytes]
      omega
    refine .inr ⟨_, (hnext s.dst).trans (if_pos (hle.trans hlen.ge)), ⟨?_, hle, ?_⟩, hsrc⟩
    · rw [List.length_append, hfront, List.length_drop]
      omega
    · show (s.dst.take (s.d + z) ++ bytes ++ s.dst.drop (s.d + z + n)).drop (s.d + z + n) = _
      rw [← hfront, List.drop_left, hfront, Nat.add_assoc, ← List.drop_drop, hdrop, List.drop_drop]

theorem xbzrleDecodeBuffer_nowhere {text dst dst' : List U8} {dlen : Nat} {ret : Int}
    (htext : text ≠ []) (h : xbzrleDecodeBuffer text dst dlen = .ok (ret, dst'))
    (hret : ret ≠ -1) : xbzrleDecodeBuffer text [] dlen = .fault := by
  rw [xbzrleDecodeBuffer] at h ⊢
  rcases decodeRound_cases text.length dlen 0 text with ⟨hnil, -⟩ | hdone |
    ⟨z, n, bytes, src, -, hpos, -, -, hnext⟩
  · exact absurd hnil htext
  · rw [loop_done (hdone dst)] at h
    cases h
    exact absurd rfl hret
  · have hfault := (hnext []).trans (if_neg (by rw [List.length_nil]; omega))
    rw [loop, hfault]

end SE4VM.Ram
