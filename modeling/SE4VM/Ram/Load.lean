import Mathlib.Algebra.Order.BigOperators.Group.List
import SE4VM.Savevm.Sections
import SE4VM.Ram.Records

/-!
# Loading RAM

`ram_load` reads records until the end of a section.  The block that a record belongs to
is looked up by its name, and remembered for the records after it that continue in the same
block.  Nothing compares the offset of a record with the length of its block: an address beyond
the block can be formed, and what is written there is a fault.
-/

namespace SE4VM.Ram

open Foundation Savevm

variable {t : Target}

/-- `block` is the variable of `host_from_stream_offset` that keeps its value between the calls. -/
structure Receiver (t : Target) where
  ram : Nat → Page t
  block : Option RAMBlock
  decodedBuf : Page t

/-- `id` has 256 bytes, of which `junk` are those that nobody has written. -/
def getName (ops : GetOps) (junk : List U8) : StateT GetFile Run CString := do
  let len ← act (qemuGetByte ops)
  let got ← act (qemuGetBuffer ops len.toNat)
  pure (CString.ofBytes ((got ++ junk.drop got.length).take len.toNat))

def findBlock (blocks : List RAMBlock) (id : CString) : Option RAMBlock :=
  blocks.find? fun b => b.idstr = id

def streamBlock (ops : GetOps) (junk : List U8) (blocks : List RAMBlock) (flags : Nat)
    (r : Receiver t) : StateT GetFile Run (Option RAMBlock) :=
  if flags &&& ramSaveFlagContinue ≠ 0 then pure r.block
  else do pure (findBlock blocks (← getName ops junk))

/-- The address of a page, counted from the start of the block and perhaps beyond its end. -/
structure Host where
  block : RAMBlock
  page : Nat
  deriving DecidableEq

namespace Host

def number (host : Host) : Nat := host.block.offset + host.page

def Inside (host : Host) : Prop := host.page < host.block.length

instance (host : Host) : Decidable host.Inside := inferInstanceAs (Decidable (_ < _))

end Host

def Receiver.write (r : Receiver t) (host : Host) (bytes : List U8) : Run (Receiver t) :=
  if host.Inside then
    .ok { r with
      ram := Function.update r.ram host.number ((r.ram host.number).overwrite bytes) }
  else if bytes = [] then .ok r
  else .fault

/-- `xbzrle_decode_buffer` on the page at the host address; beyond the block no byte is there. -/
def Receiver.decode (r : Receiver t) (host : Host) (text : List U8) :
    Run (Int × Receiver t) :=
  if host.Inside then do
    let (ret, page) ← (r.ram host.number).decode text
    .ok (ret, { r with ram := Function.update r.ram host.number page })
  else do
    let (ret, _) ← xbzrleDecodeBuffer text [] t.pageSize
    .ok (ret, r)

def hostFromStreamOffset (ops : GetOps) (junk : List U8) (blocks : List RAMBlock) (offset : Nat)
    (flags : Nat) (r : Receiver t) : StateT GetFile Run (Option Host × Receiver t) := do
  let block ← streamBlock ops junk blocks flags r
  pure (block.map fun b => ⟨b, offset⟩, { r with block := block })

def syncRound (ops : GetOps) (junk : List U8) (t : Target) (blocks : List RAMBlock) (total : U64) :
    StateT GetFile Run (Step U64 Bool) := do
  if total = 0 then pure (.done true)
  else
    let id ← getName ops junk
    let length ← act (qemuGetBe64 ops)
    match findBlock blocks id with
    | none => pure (.done false)
    | some b =>
        if b.length * t.pageSize ≠ length then pure (.done false)
        else pure (.next (total - BitVec.ofNat 64 length))

/-- Every round reads a byte at least, unless the stream is at its end. -/
def syncBlocks (ops : GetOps) (junk : List U8) (t : Target) (blocks : List RAMBlock) (flags : Nat)
    (total : U64) : StateT GetFile Run Bool :=
  if flags &&& ramSaveFlagMemSize ≠ 0 then
    fun f => readLoop (syncRound ops junk t blocks) (f.content.length + 1) total f
  else pure true

def loadXbzrle (ops : GetOps) (host : Host) (r : Receiver t) :
    StateT GetFile Run (Int × Receiver t) := do
  let xhFlags ← act (qemuGetByte ops)
  let xhLen ← act (qemuGetBe16 ops)
  if xhFlags ≠ encodingFlagXbzrle then pure (-1, r)
  else if t.pageSize < xhLen then pure (-1, r)
  else
    let got ← act (qemuGetBuffer ops xhLen)
    let buf := r.decodedBuf.overwrite got
    let (ret, r) ← StateT.lift (r.decode host (buf.bytes.take xhLen))
    pure (if ret = -1 then -1 else 0, { r with decodedBuf := buf })

/-- What follows once the page is known; the three ways are looked for in this order. -/
def loadBody (ops : GetOps) (flags : Nat) (host : Host) (r : Receiver t) :
    StateT GetFile Run (Int × Receiver t) := do
  if flags &&& ramSaveFlagCompress ≠ 0 then
    let ch ← act (qemuGetByte ops)
    pure (0, ← StateT.lift (r.write host (Page.fill t ch).bytes))
  else if flags &&& ramSaveFlagPage ≠ 0 then
    let got ← act (qemuGetBuffer ops t.pageSize)
    pure (0, ← StateT.lift (r.write host got))
  else loadXbzrle ops host r

def endRound (flags : Nat) (r : Receiver t) :
    StateT GetFile Run (Step (Receiver t) (Int × Receiver t)) := do
  let error ← act fun f => (f.lastError, f)
  pure (if error ≠ 0 then .done (error, r)
    else if flags &&& ramSaveFlagEos ≠ 0 then .done (0, r) else .next r)

def ramLoadRound (ops : GetOps) (junk : List U8) (blocks : List RAMBlock) (r : Receiver t) :
    StateT GetFile Run (Step (Receiver t) (Int × Receiver t)) := do
  let addr ← act (qemuGetBe64 ops)
  -- `addr & ~TARGET_PAGE_MASK` and `addr & TARGET_PAGE_MASK`
  let flags := addr % t.pageSize
  let offset := addr / t.pageSize
  let same ← syncBlocks ops junk t blocks flags (BitVec.ofNat 64 (offset * t.pageSize))
  if same = false then pure (.done (-einval, r))
  else if flags &&& (ramSaveFlagCompress ||| ramSaveFlagPage ||| ramSaveFlagXbzrle) = 0 then
    endRound flags r
  else
    match ← hostFromStreamOffset ops junk blocks offset flags r with
    | (none, r) => pure (.done (-einval, r))
    | (some host, r) =>
        let (ret, r) ← loadBody ops flags host r
        if ret < 0 then pure (.done (-einval, r)) else endRound flags r

/-- Every round but the last one reads a byte at least, so that there are rounds enough. -/
def ramLoad (ops : GetOps) (junk : List U8) (blocks : List RAMBlock) (versionId : Int)
    (r : Receiver t) : StateT GetFile Run (Int × Receiver t) :=
  if versionId < 4 ∨ 4 < versionId then pure (-einval, r)
  else fun f => readLoop (ramLoadRound ops junk blocks) (f.content.length + 1) r f

def ramLoadAll (ops : GetOps) (junk : List U8) (blocks : List RAMBlock) :
    Nat → Receiver t → StateT GetFile Run (Int × Receiver t)
  | 0, r => pure (0, r)
  | sections + 1, r => do
      let (ret, r) ← ramLoad ops junk blocks 4 r
      if ret < 0 then pure (ret, r) else ramLoadAll ops junk blocks sections r

/-! ## Numbers with flags below -/

theorem page_flags {α : Type} (cont : Bool) (body : Body α) :
    contFlag cont ||| body.flag < 2 ^ 7 ∧
      (contFlag cont ||| body.flag) &&& ramSaveFlagMemSize = 0 ∧
      (contFlag cont ||| body.flag) &&& ramSaveFlagEos = 0 ∧
      (contFlag cont ||| body.flag) &&&
        (ramSaveFlagCompress ||| ramSaveFlagPage ||| ramSaveFlagXbzrle) ≠ 0 ∧
      ((contFlag cont ||| body.flag) &&& ramSaveFlagContinue ≠ 0 ↔ cont = true) := by
  have hflags : ∀ cont, ∀ flag ∈ [ramSaveFlagCompress, ramSaveFlagPage, ramSaveFlagXbzrle],
      contFlag cont ||| flag < 2 ^ 7 ∧ (contFlag cont ||| flag) &&& ramSaveFlagMemSize = 0 ∧
        (contFlag cont ||| flag) &&& ramSaveFlagEos = 0 ∧
        (contFlag cont ||| flag) &&&
          (ramSaveFlagCompress ||| ramSaveFlagPage ||| ramSaveFlagXbzrle) ≠ 0 ∧
        ((contFlag cont ||| flag) &&& ramSaveFlagContinue ≠ 0 ↔ cont = true) := by
    decide
  exact hflags cont _ (by cases body <;> simp [Body.flag])

theorem body_flags (cont : Bool) :
    (contFlag cont ||| ramSaveFlagCompress) &&& ramSaveFlagCompress ≠ 0 ∧
      (contFlag cont ||| ramSaveFlagPage) &&& ramSaveFlagCompress = 0 ∧
      (contFlag cont ||| ramSaveFlagPage) &&& ramSaveFlagPage ≠ 0 ∧
      (contFlag cont ||| ramSaveFlagXbzrle) &&& ramSaveFlagCompress = 0 ∧
      (contFlag cont ||| ramSaveFlagXbzrle) &&& ramSaveFlagPage = 0 := by
  revert cont
  decide

theorem offset_flags {offset flags : Nat} (hoffset : offset * t.pageSize < 2 ^ 64)
    (h : flags < 2 ^ 7) :
    (offset * t.pageSize ||| flags) % 256 ^ 8 % t.pageSize = flags ∧
      (offset * t.pageSize ||| flags) % 256 ^ 8 / t.pageSize = offset := by
  have hword : (offset * t.pageSize ||| flags) % 256 ^ 8 = offset * t.pageSize ||| flags :=
    Nat.mod_eq_of_lt (Nat.or_lt_two_pow hoffset (h.trans (by decide)))
  have hlt : flags < 2 ^ t.bits := h.trans_le (Nat.pow_le_pow_right (by decide) t.flags)
  have hsum : offset * t.pageSize ||| flags = flags + t.pageSize * offset := by
    rw [Target.pageSize, Nat.mul_comm, ← Nat.two_pow_add_eq_or_of_lt hlt, Nat.add_comm]
  have hpos : 0 < t.pageSize := Nat.two_pow_pos t.bits
  rw [hword, hsum]
  constructor
  · rw [Nat.add_mul_mod_self_left]
    exact Nat.mod_eq_of_lt hlt
  · rw [Nat.add_mul_div_left _ _ hpos, Nat.div_eq_of_lt (show flags < t.pageSize from hlt),
      Nat.zero_add]

/-! ## One record -/

section Rounds

variable {ops : GetOps} (hops : ops.Steady) {junk : List U8} {blocks : List RAMBlock}
  {r : Receiver t} {host : Host} {rest : List U8}

include hops

theorem gets_name {b : RAMBlock} (h : b.idstr.bytes.length < 256) :
    Gets (getName ops junk) (nameBytes b) rest b.idstr := by
  have hlen : (BitVec.ofNat 8 b.idstr.bytes.length).toNat = b.idstr.bytes.length := by
    rw [BitVec.toNat_ofNat]
    exact Nat.mod_eq_of_lt h
  have hbytes : nameBytes b =
      [BitVec.ofNat 8 b.idstr.bytes.length] ++ (b.idstr.bytes ++ []) := by
    rw [List.append_nil]
    rfl
  have hbuffer : Gets (act (qemuGetBuffer ops (BitVec.ofNat 8 b.idstr.bytes.length).toNat))
      b.idstr.bytes ([] ++ rest) b.idstr.bytes := by
    rw [hlen]
    exact gets_buffer hops (h.le.trans (by decide)) _
  have hid : CString.ofBytes ((b.idstr.bytes ++ junk.drop b.idstr.bytes.length).take
      (BitVec.ofNat 8 b.idstr.bytes.length).toNat) = b.idstr := by
    rw [hlen, List.take_left, CString.ofBytes_bytes]
  rw [hbytes]
  refine (gets_byte hops _ _).bind (hbuffer.bind ?_)
  rw [hid]
  exact .pure rest _

theorem gets_streamBlock {b b' : RAMBlock} {flags : Nat} {cont : Bool}
    (hflags : flags &&& ramSaveFlagContinue ≠ 0 ↔ cont = true) (hname : b.idstr.bytes.length < 256)
    (hcont : cont = true → r.block = some b') (hfind : findBlock blocks b.idstr = some b') :
    Gets (streamBlock ops junk blocks flags r) (if cont then [] else nameBytes b) rest
      (some b') := by
  rw [streamBlock]
  cases cont with
  | true =>
      rw [if_pos (hflags.mpr rfl), hcont rfl]
      exact .pure _ _
  | false =>
      rw [if_neg fun h => Bool.false_ne_true (hflags.mp h), if_neg Bool.false_ne_true,
        ← List.append_nil (nameBytes b), ← hfind]
      exact (gets_name hops hname).bind (.pure _ _)

theorem gets_host {b b' : RAMBlock} {offset flags : Nat} {cont : Bool}
    (hflags : flags &&& ramSaveFlagContinue ≠ 0 ↔ cont = true) (hname : b.idstr.bytes.length < 256)
    (hcont : cont = true → r.block = some b')
    (hfind : findBlock blocks b.idstr = some b') :
    Gets (hostFromStreamOffset ops junk blocks offset flags r) (if cont then [] else nameBytes b)
      rest (some ⟨b', offset⟩, { r with block := some b' }) := by
  rw [← List.append_nil (if cont then [] else nameBytes b)]
  exact (gets_streamBlock hops hflags hname hcont hfind).bind (.pure rest _)

omit hops in
theorem gets_endRound {flags : Nat} (h : flags &&& ramSaveFlagEos = 0) :
    Gets (endRound flags r) [] rest (.next r) := by
  intro f hf hcontent
  refine ⟨f, ?_, hf, hcontent⟩
  rw [endRound, act_bind]
  dsimp only
  rw [if_neg (not_not.mpr hf.noError), if_neg (not_not.mpr h)]
  rfl

omit hops in
theorem gets_noSync {flags : Nat} (h : flags &&& ramSaveFlagMemSize = 0) (total : U64) :
    Gets (syncBlocks ops junk t blocks flags total) [] rest true := by
  rw [syncBlocks, if_neg (not_not.mpr h)]
  exact .pure rest _

omit hops in
theorem take_overwrite (p : Page t) {text : List U8} (hfit : text.length ≤ t.pageSize) :
    (p.overwrite text).bytes.take text.length = text := by
  show (text.take t.pageSize ++ p.bytes.drop text.length).take text.length = text
  rw [List.take_of_length_le hfit, List.take_left]

omit hops in
theorem xbzrle_bytes (text : List U8) : (Body.xbzrle text : Body (Page t)).bytes =
    [encodingFlagXbzrle] ++ (toBe 2 text.length ++ (text ++ ([] ++ []))) := by
  rw [List.append_nil, List.append_nil]
  rfl

omit hops in
theorem xbzrle_length {text : List U8} (hfit : text.length ≤ t.pageSize) :
    text.length % 256 ^ 2 = text.length :=
  Nat.mod_eq_of_lt (hfit.trans_lt (t.pageSize_le.trans_lt (by decide)))

theorem gets_loadXbzrle {text : List U8} (hfit : text.length ≤ t.pageSize) {ret : Int}
    {r' : Receiver t} (hdecode : r.decode host text = .ok (ret, r')) (hret : ret ≠ -1) :
    ∃ buf, Gets (loadXbzrle ops host r) (Body.xbzrle text : Body (Page t)).bytes rest
      (0, { r' with decodedBuf := buf }) := by
  refine ⟨r.decodedBuf.overwrite text, ?_⟩
  rw [xbzrle_bytes]
  refine (gets_byte hops _ _).bind ((gets_be hops 2 _ _).bind ?_)
  rw [xbzrle_length hfit, if_neg (by simp), if_neg (Nat.not_lt.mpr hfit)]
  refine (gets_buffer hops (hfit.trans (t.pageSize_le.trans (by decide))) _).bind ?_
  dsimp only
  rw [take_overwrite _ hfit]
  refine (Reads.lift hdecode _).bind ?_
  dsimp only
  rw [if_neg hret]
  exact .pure rest _

theorem loadXbzrle_faults {text : List U8} (hfit : text.length ≤ t.pageSize)
    (hdecode : r.decode host text = .fault) :
    Faults GetFile.content GetFile.Sound (loadXbzrle ops host r)
      (Body.xbzrle text : Body (Page t)).bytes rest := by
  rw [xbzrle_bytes]
  refine (gets_byte hops _ _).bind_faults ((gets_be hops 2 _ _).bind_faults ?_)
  rw [xbzrle_length hfit, if_neg (by simp), if_neg (Nat.not_lt.mpr hfit)]
  refine (gets_buffer hops (hfit.trans (t.pageSize_le.trans (by decide))) _).bind_faults ?_
  dsimp only
  rw [take_overwrite _ hfit]
  exact ((Faults.lift hdecode _).bind _).of_append

omit hops in
theorem decode_of_apply {text : List U8} {p q : Page t}
    (happly : (Body.xbzrle text).apply p = some q) :
    ∃ ret, p.decode text = .ok (ret, q) ∧ ret ≠ -1 := by
  rw [Body.apply] at happly
  cases hdecode : p.decode text with
  | ok result =>
      simp only [hdecode] at happly
      by_cases hret : result.1 = -1
      · rw [if_pos hret] at happly
        cases happly
      · rw [if_neg hret] at happly
        cases happly
        exact ⟨result.1, rfl, hret⟩
  | fault =>
      simp only [hdecode] at happly
      cases happly
  | timeout =>
      simp only [hdecode] at happly
      cases happly

omit hops in
theorem write_page (hinside : host.Inside) (p : Page t) : r.write host p.bytes =
    .ok { r with ram := Function.update r.ram host.number p } := by
  rw [Receiver.write, if_pos hinside, Page.overwrite_all]

omit hops in
theorem write_beyond (hout : ¬host.Inside) (p : Page t) : r.write host p.bytes = .fault := by
  rw [Receiver.write, if_neg hout, if_neg]
  intro hnil
  have hsize := p.size
  rw [hnil] at hsize
  exact absurd hsize (Nat.two_pow_pos t.bits).ne

omit hops in
theorem decode_beyond (hout : ¬host.Inside) {text : List U8} (htext : text ≠ []) {p q : Page t}
    (happly : (Body.xbzrle text).apply p = some q) : r.decode host text = .fault := by
  obtain ⟨ret, hdecode, hret⟩ := decode_of_apply happly
  obtain ⟨bytes, hbytes⟩ : ∃ bytes,
      xbzrleDecodeBuffer text p.bytes t.pageSize = .ok (ret, bytes) := by
    rw [Page.decode] at hdecode
    obtain ⟨⟨ret', bytes⟩, hrun, hpage⟩ := Run.bind_eq_ok.mp hdecode
    dsimp only at hpage
    split_ifs at hpage
    cases hpage
    exact ⟨bytes, hrun⟩
  rw [Receiver.decode, if_neg hout, xbzrleDecodeBuffer_nowhere htext hbytes hret]
  rfl

theorem gets_page (content : Page t) :
    Gets (act (qemuGetBuffer ops t.pageSize)) content.bytes rest content.bytes := by
  have hfits : content.bytes.length ≤ ioBufSize :=
    content.size.le.trans (t.pageSize_le.trans (by decide))
  have hget := gets_buffer hops hfits rest
  rwa [content.size] at hget

theorem gets_loadBody (cont : Bool) {body : Body (Page t)} {p : Page t}
    (hinside : host.Inside)
    (hfit : ∀ text, body = .xbzrle text → text.length ≤ t.pageSize)
    (happly : body.apply (r.ram host.number) = some p) :
    ∃ buf, Gets (loadBody ops (contFlag cont ||| body.flag) host r) body.bytes rest
      (0, { r with ram := Function.update r.ram host.number p, decodedBuf := buf }) := by
  obtain ⟨hfill, hnotFill, hpage, hnotFill', hnotPage⟩ := body_flags cont
  cases body with
  | compress ch =>
      cases happly
      refine ⟨r.decodedBuf, ?_⟩
      rw [loadBody, Body.flag, if_pos hfill]
      exact (gets_byte hops ch _).bind ((Reads.lift (write_page hinside _) _).bind (.pure rest _))
  | page content =>
      obtain rfl : content = p := Option.some.inj happly
      refine ⟨r.decodedBuf, ?_⟩
      rw [loadBody, Body.flag, if_neg (not_not.mpr hnotFill), if_pos hpage,
        show (Body.page content).bytes = content.bytes ++ ([] ++ []) from
          (List.append_nil _).symm]
      exact (gets_page hops content).bind
        ((Reads.lift (write_page hinside _) _).bind (.pure rest _))
  | xbzrle text =>
      obtain ⟨ret, hdecode, hret⟩ := decode_of_apply happly
      rw [loadBody, Body.flag, if_neg (not_not.mpr hnotFill'), if_neg (not_not.mpr hnotPage)]
      have hwritten : r.decode host text =
          .ok (ret, { r with ram := Function.update r.ram host.number p }) := by
        rw [Receiver.decode, if_pos hinside, hdecode]
        rfl
      exact gets_loadXbzrle hops (hfit text rfl) hwritten hret

/-- The body is loaded within the block; an empty text, which writes nothing, also beyond it. -/
theorem gets_loadBody_spared (cont : Bool) {body : Body (Page t)} {p : Page t}
    (hspared : host.Inside ∨ body = .xbzrle [])
    (hfit : ∀ text, body = .xbzrle text → text.length ≤ t.pageSize)
    (happly : body.apply (r.ram host.number) = some p) :
    ∃ r', Gets (loadBody ops (contFlag cont ||| body.flag) host r) body.bytes rest (0, r') := by
  by_cases hinside : host.Inside
  · obtain ⟨buf, hbody⟩ := gets_loadBody hops cont hinside hfit happly
    exact ⟨_, hbody⟩
  obtain rfl := hspared.resolve_left hinside
  obtain ⟨-, -, -, hnotFill, hnotPage⟩ := body_flags cont
  have hdecode : r.decode host [] = .ok (0, r) := by
    rw [Receiver.decode, if_neg hinside]
    rfl
  rw [loadBody, Body.flag, if_neg (not_not.mpr hnotFill), if_neg (not_not.mpr hnotPage)]
  obtain ⟨buf, hbody⟩ := gets_loadXbzrle hops (Nat.zero_le _) hdecode (by decide)
  exact ⟨_, hbody⟩

theorem loadBody_faults (cont : Bool) {body : Body (Page t)} {p q : Page t}
    (hout : ¬host.Inside) (hbody : body ≠ .xbzrle [])
    (hfit : ∀ text, body = .xbzrle text → text.length ≤ t.pageSize)
    (happly : body.apply p = some q) :
    Faults GetFile.content GetFile.Sound (loadBody ops (contFlag cont ||| body.flag) host r)
      body.bytes rest := by
  obtain ⟨hfill, hnotFill, hpage, hnotFill', hnotPage⟩ := body_flags cont
  cases body with
  | compress ch =>
      rw [loadBody, Body.flag, if_pos hfill]
      exact (gets_byte hops ch _).bind_faults ((Faults.lift (write_beyond hout _) rest).bind _)
  | page content =>
      rw [loadBody, Body.flag, if_neg (not_not.mpr hnotFill), if_pos hpage,
        show (Body.page content).bytes = content.bytes ++ [] from (List.append_nil _).symm]
      exact (gets_page hops content).bind_faults
        ((Faults.lift (write_beyond hout content) rest).bind _)
  | xbzrle text =>
      have htext : text ≠ [] := fun hnil => hbody (by rw [hnil])
      rw [loadBody, Body.flag, if_neg (not_not.mpr hnotFill'), if_neg (not_not.mpr hnotPage)]
      exact loadXbzrle_faults hops (hfit text rfl) (decode_beyond hout htext happly)

omit hops in
theorem pageRecord_bytes (rec : PageRecord (Page t)) :
    rec.bytes = toBe 8 (rec.offset * t.pageSize ||| (contFlag rec.cont ||| rec.body.flag)) ++
      ([] ++ ((if rec.cont then [] else nameBytes rec.block) ++ (rec.body.bytes ++ []))) := by
  rw [PageRecord.bytes, saveBlockHdr, Nat.or_assoc, List.append_assoc, List.append_nil,
    List.nil_append]

theorem gets_pageRecord {rec : PageRecord (Page t)} {b' : RAMBlock} {r' : Receiver t}
    (hname : rec.block.idstr.bytes.length < 256) (hcont : rec.cont = true → r.block = some b')
    (hfind : findBlock blocks rec.block.idstr = some b')
    (hsize : rec.offset * t.pageSize < 2 ^ 64)
    (hbody : Gets (loadBody ops (contFlag rec.cont ||| rec.body.flag) ⟨b', rec.offset⟩
      { r with block := some b' }) rec.body.bytes ([] ++ rest) (0, r')) :
    Gets (ramLoadRound ops junk blocks r) rec.bytes rest (.next r') := by
  obtain ⟨hsmall, hmem, heos, hway, hcontFlag⟩ := page_flags rec.cont rec.body
  obtain ⟨hmod, hdiv⟩ := offset_flags hsize hsmall
  rw [pageRecord_bytes]
  refine (gets_be hops 8 _ _).bind ?_
  dsimp only
  rw [hmod, hdiv]
  refine (gets_noSync hmem _).bind ?_
  rw [if_neg (by simp), if_neg hway]
  refine (gets_host hops hcontFlag hname hcont hfind).bind (hbody.bind ?_)
  exact gets_endRound heos

theorem pageRecord_faults {rec : PageRecord (Page t)} {b' : RAMBlock}
    (hname : rec.block.idstr.bytes.length < 256) (hcont : rec.cont = true → r.block = some b')
    (hfind : findBlock blocks rec.block.idstr = some b')
    (hsize : rec.offset * t.pageSize < 2 ^ 64)
    (hbody : Faults GetFile.content GetFile.Sound
      (loadBody ops (contFlag rec.cont ||| rec.body.flag) ⟨b', rec.offset⟩
        { r with block := some b' }) rec.body.bytes ([] ++ rest)) :
    Faults GetFile.content GetFile.Sound (ramLoadRound ops junk blocks r) rec.bytes rest := by
  obtain ⟨hsmall, hmem, -, hway, hcontFlag⟩ := page_flags rec.cont rec.body
  obtain ⟨hmod, hdiv⟩ := offset_flags hsize hsmall
  rw [pageRecord_bytes]
  refine (gets_be hops 8 _ _).bind_faults ?_
  dsimp only
  rw [hmod, hdiv]
  refine (gets_noSync hmem _).bind_faults ?_
  rw [if_neg (by simp), if_neg hway]
  exact (gets_host hops hcontFlag hname hcont hfind).bind_faults (hbody.bind _).of_append

theorem gets_eos : Gets (ramLoadRound ops junk blocks r) (Record.eos : Record (Page t)).bytes rest
    (.done (0, r)) := by
  obtain ⟨hmod, hdiv⟩ := offset_flags (show 0 * t.pageSize < 2 ^ 64 by simp)
    (show ramSaveFlagEos < 2 ^ 7 by decide)
  rw [Nat.zero_mul, Nat.zero_or] at hmod hdiv
  rw [Record.bytes, ← List.append_nil (toBe 8 _)]
  refine (gets_be hops 8 _ _).bind ?_
  dsimp only
  rw [hmod, hdiv, ← List.append_nil []]
  refine (gets_noSync (by decide) _).bind ?_
  rw [if_neg (by simp), if_pos (by decide)]
  intro f hf hcontent
  refine ⟨f, ?_, hf, hcontent⟩
  rw [endRound, act_bind]
  dsimp only
  rw [if_neg (not_not.mpr hf.noError), if_pos (by decide)]
  rfl

end Rounds

/-! ## The list of blocks -/

def Matching (blocks blocks' : List RAMBlock) : Prop :=
  ∀ b ∈ blocks, ∃ b', findBlock blocks' b.idstr = some b' ∧ b'.length = b.length

theorem ramBytesTotal_eq (t : Target) (blocks : List RAMBlock) :
    ramBytesTotal t blocks = (blocks.map RAMBlock.length).sum * t.pageSize := by
  induction blocks with
  | nil => simp [ramBytesTotal]
  | cons b blocks ih =>
      rw [ramBytesTotal, List.map_cons, List.sum_cons, List.map_cons, List.sum_cons, Nat.add_mul,
        ← ih]
      rfl

section Blocks

variable {ops : GetOps} (hops : ops.Steady) {junk : List U8} {blocks' : List RAMBlock}
  {rest : List U8}

include hops

theorem gets_syncRounds {blocks : List RAMBlock} (hmatch : Matching blocks blocks')
    (hpos : ∀ b ∈ blocks, 0 < b.length) (hshort : ∀ b ∈ blocks, b.idstr.bytes.length < 256)
    (htotal : ramBytesTotal t blocks < 2 ^ 64) {fuel : Nat} (hfuel : blocks.length < fuel) :
    Gets (readLoop (syncRound ops junk t blocks') fuel (BitVec.ofNat 64 (ramBytesTotal t blocks)))
      (blocks.flatMap fun b => nameBytes b ++ toBe 8 (b.length * t.pageSize)) rest true := by
  induction blocks generalizing fuel with
  | nil =>
      obtain ⟨fuel, rfl⟩ : ∃ k, fuel = k + 1 := ⟨fuel - 1, by omega⟩
      have hdone : Gets (syncRound ops junk t blocks' (BitVec.ofNat 64 (ramBytesTotal t []))) []
          rest (.done true) := by
        rw [syncRound, if_pos (show BitVec.ofNat 64 (ramBytesTotal t []) = 0 from rfl)]
        exact .pure rest _
      exact .loop_done hdone fuel
  | cons b blocks ih =>
      obtain ⟨fuel, rfl⟩ : ∃ k, fuel = k + 1 := ⟨fuel - 1, by omega⟩
      obtain ⟨b', hfind, hlength⟩ := hmatch b List.mem_cons_self
      have hsum : ramBytesTotal t (b :: blocks) = b.length * t.pageSize + ramBytesTotal t blocks :=
        rfl
      have hb : 0 < b.length * t.pageSize :=
        Nat.mul_pos (hpos b List.mem_cons_self) (Nat.two_pow_pos t.bits)
      have hnonzero : BitVec.ofNat 64 (ramBytesTotal t (b :: blocks)) ≠ 0 := by
        intro hzero
        have hnat : (BitVec.ofNat 64 (ramBytesTotal t (b :: blocks))).toNat = 0 :=
          congrArg BitVec.toNat hzero
        rw [BitVec.toNat_ofNat, Nat.mod_eq_of_lt htotal, hsum] at hnat
        omega
      have hmod : b.length * t.pageSize % 256 ^ 8 = b.length * t.pageSize :=
        Nat.mod_eq_of_lt (by omega)
      have hsub : BitVec.ofNat 64 (ramBytesTotal t (b :: blocks)) -
          BitVec.ofNat 64 (b.length * t.pageSize) = BitVec.ofNat 64 (ramBytesTotal t blocks) := by
        apply BitVec.eq_of_toNat_eq
        rw [BitVec.toNat_sub, BitVec.toNat_ofNat, BitVec.toNat_ofNat, BitVec.toNat_ofNat, hsum]
        omega
      have hround : Gets (syncRound ops junk t blocks'
          (BitVec.ofNat 64 (ramBytesTotal t (b :: blocks))))
          (nameBytes b ++ (toBe 8 (b.length * t.pageSize) ++ []))
          ((blocks.flatMap fun b => nameBytes b ++ toBe 8 (b.length * t.pageSize)) ++ rest)
          (.next (BitVec.ofNat 64 (ramBytesTotal t blocks))) := by
        rw [syncRound, if_neg hnonzero]
        refine (gets_name hops (hshort b List.mem_cons_self)).bind ((gets_be hops 8 _ _).bind ?_)
        rw [hmod, hfind]
        dsimp only
        rw [hlength, if_neg (by simp), hsub]
        exact .pure _ _
      rw [List.append_nil] at hround
      exact .loop_next hround (ih (fun c hc => hmatch c (List.mem_cons_of_mem b hc))
        (fun c hc => hpos c (List.mem_cons_of_mem b hc))
        (fun c hc => hshort c (List.mem_cons_of_mem b hc)) (by omega)
        (by rw [List.length_cons] at hfuel; omega))

theorem gets_syncBlocks {blocks : List RAMBlock} (hlayout : Layout t blocks)
    (hmatch : Matching blocks blocks') :
    Gets (syncBlocks ops junk t blocks' ramSaveFlagMemSize
        (BitVec.ofNat 64 (ramBytesTotal t blocks)))
      (blocks.flatMap fun b => nameBytes b ++ toBe 8 (b.length * t.pageSize)) rest true := by
  have hrounds : ∀ bs : List RAMBlock, bs.length ≤
      (bs.flatMap fun b => nameBytes b ++ toBe 8 (b.length * t.pageSize)).length := by
    intro bs
    induction bs with
    | nil => exact le_rfl
    | cons b bs ih =>
        rw [List.flatMap_cons, List.length_append, List.length_append, nameBytes, List.length_cons,
          List.length_cons]
        omega
  intro f hf hcontent
  rw [syncBlocks, if_pos (by decide)]
  refine gets_syncRounds hops hmatch hlayout.pos hlayout.short hlayout.total ?_ f hf hcontent
  rw [hcontent, List.length_append]
  have := hrounds blocks
  omega

theorem gets_memSize {blocks : List RAMBlock} (hlayout : Layout t blocks)
    (hmatch : Matching blocks blocks') (r : Receiver t) :
    Gets (ramLoadRound ops junk blocks' r) (Record.memSize blocks : Record (Page t)).bytes rest
      (.next r) := by
  have htotal := hlayout.total
  rw [ramBytesTotal_eq] at htotal
  obtain ⟨hmod, hdiv⟩ := offset_flags htotal (show ramSaveFlagMemSize < 2 ^ 7 by decide)
  rw [← ramBytesTotal_eq] at hmod hdiv
  have hbytes : (Record.memSize blocks : Record (Page t)).bytes =
      toBe 8 (ramBytesTotal t blocks ||| ramSaveFlagMemSize) ++
        ((blocks.flatMap fun b => nameBytes b ++ toBe 8 (b.length * t.pageSize)) ++ []) := by
    rw [List.append_nil]
    rfl
  rw [hbytes]
  refine (gets_be hops 8 _ _).bind ?_
  dsimp only
  rw [hmod, hdiv, ← ramBytesTotal_eq]
  refine (gets_syncBlocks hops hlayout hmatch).bind ?_
  rw [if_neg (by simp), if_pos (by decide)]
  exact gets_endRound (by decide)

end Blocks

/-! ## Sections -/

/-- The receiver has the pages `ram` in its blocks, and continues with the block that the sender
has been at last. -/
structure Mirrors (blocks blocks' : List RAMBlock) (ram : Nat → Page t) (last : Option RAMBlock)
    (r : Receiver t) : Prop where
  page : ∀ b ∈ blocks, ∀ b', findBlock blocks' b.idstr = some b' → ∀ k < b.length,
    r.ram (b'.offset + k) = ram (b.offset + k)
  block : ∀ b, last = some b → r.block = findBlock blocks' b.idstr

theorem findBlock_eq_some {blocks : List RAMBlock} {id : CString} {b : RAMBlock}
    (h : findBlock blocks id = some b) : b ∈ blocks ∧ b.idstr = id := by
  have hid := List.find?_some h
  exact ⟨List.mem_of_find?_eq_some h, by simpa using hid⟩

theorem Layout.page_inj {blocks : List RAMBlock} (h : Layout t blocks) {b c : RAMBlock}
    (hb : b ∈ blocks) (hc : c ∈ blocks) {j k : Nat} (hj : j < b.length) (hk : k < c.length)
    (heq : b.offset + j = c.offset + k) : b = c ∧ j = k := by
  obtain rfl := h.apart b hb c hc j hj k hk heq
  exact ⟨rfl, Nat.add_left_cancel heq⟩

theorem Mirrors.update {blocks blocks' : List RAMBlock} (hlayout : Layout t blocks)
    (hlayout' : Layout t blocks') (hmatch : Matching blocks blocks') {ram : Nat → Page t}
    {last : Option RAMBlock} {r : Receiver t} (h : Mirrors blocks blocks' ram last r)
    {b b' : RAMBlock} (hb : b ∈ blocks) (hfind : findBlock blocks' b.idstr = some b') {k : Nat}
    (hk : k < b.length) (p buf : Page t) :
    Mirrors blocks blocks' (Function.update ram (b.offset + k) p) (some b)
      ⟨Function.update r.ram (b'.offset + k) p, some b', buf⟩ where
  page c hc c' hc' j hj := by
    have hlength : ∀ d ∈ blocks, ∀ d', findBlock blocks' d.idstr = some d' →
        d'.length = d.length := by
      intro d hd d' hd'
      obtain ⟨e, he, hlen⟩ := hmatch d hd
      rw [hd'] at he
      cases he
      exact hlen
    have hiff : c'.offset + j = b'.offset + k ↔ c.offset + j = b.offset + k := by
      obtain ⟨hb', hbname⟩ := findBlock_eq_some hfind
      obtain ⟨hcmem, hcname⟩ := findBlock_eq_some hc'
      constructor
      · intro heq
        obtain ⟨rfl, rfl⟩ := hlayout'.page_inj hcmem hb' (by rwa [hlength c hc c' hc'])
          (by rwa [hlength b hb b' hfind]) heq
        rw [hlayout.named c hc b hb (hcname.symm.trans hbname)]
      · intro heq
        obtain ⟨rfl, rfl⟩ := hlayout.page_inj hc hb hj hk heq
        rw [hfind] at hc'
        cases hc'
        rfl
    show Function.update r.ram (b'.offset + k) p (c'.offset + j) = _
    by_cases heq : c.offset + j = b.offset + k
    · rw [heq, hiff.mpr heq, Function.update_self, Function.update_self]
    · rw [Function.update_of_ne heq, Function.update_of_ne fun h => heq (hiff.mp h)]
      exact h.page c hc c' hc' j hj
  block c hc := by
    cases hc
    exact hfind.symm

def sectionBytes (recs : List (Record (Page t))) : List U8 :=
  recs.flatMap Record.bytes ++ (Record.eos : Record (Page t)).bytes

theorem length_records_le (recs : List (Record (Page t))) :
    recs.length ≤ (recs.flatMap Record.bytes).length := by
  have hpos : ∀ x : Record (Page t), 8 ≤ x.bytes.length := by
    intro x
    cases x with
    | memSize bs => simp [Record.bytes]
    | page rec =>
        simp only [Record.bytes, PageRecord.bytes, saveBlockHdr, List.length_append, length_toBe]
        omega
    | eos => simp [Record.bytes]
  induction recs with
  | nil => exact le_rfl
  | cons x recs ih =>
      have hx := hpos x
      rw [List.flatMap_cons, List.length_append, List.length_cons]
      omega

section Sections

variable {ops : GetOps} (hops : ops.Steady) (junk : List U8) {blocks blocks' : List RAMBlock}
  (hlayout : Layout t blocks) (hlayout' : Layout t blocks') (hmatch : Matching blocks blocks')

include hops hlayout hlayout' hmatch

omit hops hlayout' hmatch in
theorem Layout.offset_le {b : RAMBlock} (hb : b ∈ blocks) : b.length * t.pageSize ≤ 2 ^ 64 := by
  have htotal := hlayout.total
  have hle : b.length * t.pageSize ≤ ramBytesTotal t blocks :=
    List.single_le_sum (by simp) _ (List.mem_map_of_mem hb)
  omega

theorem gets_records {recs : List (Record (Page t))} (heos : .eos ∉ recs)
    {last : Option RAMBlock} (hchain : Chained t blocks last recs) {ram ram' : Nat → Page t}
    (hreplay : replay recs ram = some ram') {r : Receiver t}
    (hmirror : Mirrors blocks blocks' ram last r) (rest : List U8) :
    ∃ r', (∀ fuel, recs.length < fuel →
        Gets (readLoop (ramLoadRound ops junk blocks') fuel r) (sectionBytes recs) rest (0, r')) ∧
      Mirrors blocks blocks' ram' (lastBlock last recs) r' := by
  induction recs generalizing last ram r with
  | nil =>
      cases hreplay
      refine ⟨r, fun fuel hfuel => ?_, hmirror⟩
      obtain ⟨fuel, rfl⟩ : ∃ k, fuel = k + 1 := ⟨fuel - 1, by omega⟩
      exact .loop_done (gets_eos hops) fuel
  | cons x recs ih =>
      have hsplit : sectionBytes (x :: recs) = x.bytes ++ sectionBytes recs := by
        rw [sectionBytes, List.flatMap_cons, List.append_assoc, sectionBytes]
      rw [List.mem_cons, not_or] at heos
      rw [replay, Option.bind_eq_some_iff] at hreplay
      obtain ⟨ram₁, happly, hreplay⟩ := hreplay
      -- one round for `x`, and as many as there are records for the rest
      suffices hround : ∃ r₁, Gets (ramLoadRound ops junk blocks' r) x.bytes
          (sectionBytes recs ++ rest) (.next r₁) ∧
          ∃ r', (∀ fuel, recs.length < fuel →
            Gets (readLoop (ramLoadRound ops junk blocks') fuel r₁) (sectionBytes recs) rest
              (0, r')) ∧ Mirrors blocks blocks' ram' (lastBlock last (x :: recs)) r' by
        obtain ⟨r₁, hx, r', hrest, hmirror'⟩ := hround
        refine ⟨r', fun fuel hfuel => ?_, hmirror'⟩
        obtain ⟨fuel, rfl⟩ : ∃ k, fuel = k + 1 := ⟨fuel - 1, by omega⟩
        rw [hsplit]
        exact .loop_next hx (hrest fuel (by rw [List.length_cons] at hfuel; omega))
      cases x with
      | eos => exact absurd rfl heos.1
      | memSize bs =>
          obtain ⟨rfl, hchain⟩ := hchain
          cases happly
          exact ⟨r, gets_memSize hops hlayout hmatch r, ih heos.2 hchain hreplay hmirror⟩
      | page rec =>
          obtain ⟨⟨hblock, hoffset, hcont, hfit⟩, hchain⟩ := hchain
          obtain ⟨p, hp, rfl⟩ := Option.map_eq_some_iff.mp happly
          obtain ⟨b', hfind, hlength⟩ := hmatch rec.block hblock
          have hsize : rec.offset * t.pageSize < 2 ^ 64 :=
            (Nat.mul_lt_mul_of_pos_right hoffset (Nat.two_pow_pos t.bits)).trans_le
              (hlayout.offset_le hblock)
          have hsame : rec.body.apply (r.ram (b'.offset + rec.offset)) = some p := by
            rw [hmirror.page rec.block hblock b' hfind rec.offset hoffset]
            exact hp
          obtain ⟨buf, hbody⟩ : ∃ buf, Gets (loadBody ops (contFlag rec.cont ||| rec.body.flag)
              ⟨b', rec.offset⟩ { r with block := some b' }) rec.body.bytes
              ([] ++ (sectionBytes recs ++ rest))
              (0, ⟨Function.update r.ram (b'.offset + rec.offset) p, some b', buf⟩) :=
            gets_loadBody hops rec.cont (hoffset.trans_eq hlength.symm) hfit hsame
          exact ⟨_, gets_pageRecord hops (hlayout.short _ hblock)
            (fun h => (hmirror.block _ (hcont h)).trans hfind) hfind hsize hbody,
            ih heos.2 hchain hreplay
            (hmirror.update hlayout hlayout' hmatch hblock hfind hoffset p buf)⟩

theorem gets_ramLoad {recs : List (Record (Page t))} (heos : .eos ∉ recs)
    {last : Option RAMBlock} (hchain : Chained t blocks last recs) {ram ram' : Nat → Page t}
    (hreplay : replay recs ram = some ram') {r : Receiver t}
    (hmirror : Mirrors blocks blocks' ram last r) (rest : List U8) :
    ∃ r', Gets (ramLoad ops junk blocks' 4 r) (sectionBytes recs) rest (0, r') ∧
      Mirrors blocks blocks' ram' (lastBlock last recs) r' := by
  obtain ⟨r', hgets, hmirror'⟩ :=
    gets_records hops junk hlayout hlayout' hmatch heos hchain hreplay hmirror rest
  refine ⟨r', ?_, hmirror'⟩
  rw [ramLoad, if_neg (by decide)]
  intro f hf hcontent
  refine hgets _ ?_ f hf hcontent
  have hlen := length_records_le recs
  rw [hcontent, sectionBytes, List.length_append, List.length_append]
  omega

theorem gets_ramLoadAll {sections : List (List (Record (Page t)))}
    (heos : ∀ recs ∈ sections, .eos ∉ recs) {last : Option RAMBlock}
    (hchain : Chained t blocks last sections.flatten) {ram ram' : Nat → Page t}
    (hreplay : replay sections.flatten ram = some ram') {r : Receiver t}
    (hmirror : Mirrors blocks blocks' ram last r) (rest : List U8) :
    ∃ r', Gets (ramLoadAll ops junk blocks' sections.length r) (sections.flatMap sectionBytes) rest
        (0, r') ∧
      Mirrors blocks blocks' ram' (lastBlock last sections.flatten) r' := by
  induction sections generalizing last ram r with
  | nil =>
      cases hreplay
      exact ⟨r, .pure rest _, hmirror⟩
  | cons recs sections ih =>
      rw [List.flatten_cons] at hchain hreplay ⊢
      obtain ⟨hchain₁, hchain₂⟩ := chained_append.mp hchain
      rw [replay_append, Option.bind_eq_some_iff] at hreplay
      obtain ⟨ram₁, hreplay₁, hreplay₂⟩ := hreplay
      obtain ⟨r₁, hgets₁, hmirror₁⟩ :=
        gets_ramLoad hops junk hlayout hlayout' hmatch (heos recs List.mem_cons_self)
          hchain₁ hreplay₁ hmirror (sections.flatMap sectionBytes ++ rest)
      obtain ⟨r', hgets₂, hmirror₂⟩ :=
        ih (fun recs' h => heos recs' (List.mem_cons_of_mem recs h)) hchain₂ hreplay₂ hmirror₁
      rw [lastBlock_append, List.flatMap_cons]
      refine ⟨r', hgets₁.bind ?_, hmirror₂⟩
      dsimp only
      rw [if_neg (by decide)]
      exact hgets₂

end Sections

/--
Sections of RAM that are put as `arch_init.c` puts them, the block of a record left out where it
is the block of the record before, be it in an earlier section, are loaded without an error, and
leave in the blocks of the receiver what the records say about those of the sender.
-/
theorem ramLoadAll_sent (ops : GetOps) (hops : ops.Steady) (junk : List U8)
    {blocks blocks' : List RAMBlock} (hlayout : Layout t blocks) (hlayout' : Layout t blocks')
    (hmatch : Matching blocks blocks') (sections : List (List (Record (Page t))))
    (heos : ∀ recs ∈ sections, .eos ∉ recs) (hchain : Chained t blocks none sections.flatten)
    {ram ram' : Nat → Page t} (hreplay : replay sections.flatten ram = some ram') (r : Receiver t)
    (hram : ∀ b ∈ blocks, ∀ b', findBlock blocks' b.idstr = some b' → ∀ k < b.length,
      r.ram (b'.offset + k) = ram (b.offset + k)) :
    ∃ r' f', ramLoadAll ops junk blocks' sections.length r
        { source := sections.flatMap sectionBytes } = .ok ((0, r'), f') ∧
      f'.lastError = 0 ∧ f'.content = [] ∧
      ∀ b ∈ blocks, ∀ b', findBlock blocks' b.idstr = some b' → ∀ k < b.length,
        r'.ram (b'.offset + k) = ram' (b.offset + k) := by
  have hmirror : Mirrors blocks blocks' ram none r := ⟨hram, by simp⟩
  obtain ⟨r', hgets, hmirror'⟩ :=
    gets_ramLoadAll hops junk hlayout hlayout' hmatch heos hchain hreplay hmirror []
  obtain ⟨f', hload, hf', hcontent⟩ := hgets { source := sections.flatMap sectionBytes }
    ⟨⟨le_rfl, Nat.zero_le _⟩, rfl⟩ (by simp [GetFile.content])
  exact ⟨r', f', hload, hf'.noError, hcontent, hmirror'.page⟩

def senderBlocks : List RAMBlock := [⟨.empty, 0, 2⟩, ⟨.slash, 2, 1⟩]

def receiverBlocks : List RAMBlock := [⟨.slash, 0, 1⟩, ⟨.empty, 1, 2⟩]

def twoSections : List (List (Record (Page shortPages))) :=
  [[.memSize senderBlocks, .page ⟨⟨.empty, 0, 2⟩, 0, false, .compress 5⟩],
    [.page ⟨⟨.empty, 0, 2⟩, 0, true, .xbzrle [0, 1, 9]⟩,
      .page ⟨⟨.slash, 2, 1⟩, 0, false, .page (.fill _ 7)⟩]]

def patchedPage : Page shortPages := (Page.fill _ 5).overwrite [9]

def zeroReceiver : Receiver shortPages := ⟨fun _ => .zero _, none, .zero _⟩

def sentRam : Nat → Page shortPages :=
  Function.update (Function.update (Function.update (fun _ => .zero _) 0 (.fill _ 5)) 0
    patchedPage) 2 (.fill _ 7)

theorem twoSections_replay :
    replay twoSections.flatten (fun _ => Page.zero shortPages) = some sentRam := by
  have hpatch : (Body.xbzrle [0, 1, 9]).apply (Page.fill shortPages 5) = some patchedPage := by
    decide +kernel
  simp only [twoSections, List.flatten_cons, List.flatten_nil, List.append_nil, List.cons_append,
    List.nil_append, replay, Record.apply, PageRecord.page, Body.apply, Option.map_some,
    Option.bind_some, Nat.add_zero, Function.update_self] at hpatch ⊢
  rw [hpatch]
  rfl

theorem ramLoadAll_sent_two :
    ∃ r' f', ramLoadAll (fun _ => .bytes 0) [] receiverBlocks twoSections.length zeroReceiver
        { source := twoSections.flatMap sectionBytes } = .ok ((0, r'), f') ∧
      f'.lastError = 0 ∧ f'.content = [] ∧
      ∀ b ∈ senderBlocks, ∀ b', findBlock receiverBlocks b.idstr = some b' → ∀ k < b.length,
        r'.ram (b'.offset + k) = sentRam (b.offset + k) := by
  have hmatch : Matching senderBlocks receiverBlocks := by
    intro b hb
    rcases List.mem_pair.mp hb with rfl | rfl
    · exact ⟨⟨.empty, 1, 2⟩, by decide, rfl⟩
    · exact ⟨⟨.slash, 0, 1⟩, by decide, rfl⟩
  have heos : ∀ recs ∈ twoSections, .eos ∉ recs := by
    intro recs hrecs
    rcases List.mem_pair.mp hrecs with rfl | rfl <;> simp
  have hchain : Chained shortPages senderBlocks none twoSections.flatten := by
    simp [twoSections, Chained, senderBlocks, Target.pageSize, shortPages]
  exact ramLoadAll_sent (fun _ => .bytes 0) (fun _ => ⟨0, rfl⟩) [] (by constructor <;> decide)
    (by constructor <;> decide) hmatch twoSections heos hchain twoSections_replay zeroReceiver
    fun _ _ _ _ _ _ => rfl

/--
The offset of a record is taken from the stream as it is: a section with a record that makes
sense otherwise makes `ram_load` write outside of the block it names just when the page is not one
of the block's, and the record is not an empty text, which writes nothing.
-/
theorem ramLoad_fault_iff (ops : GetOps) (hops : ops.Steady) (junk : List U8)
    {blocks : List RAMBlock} (r : Receiver t) (rec : PageRecord (Page t)) {b : RAMBlock}
    (hname : rec.block.idstr.bytes.length < 256) (hcont : rec.cont = true → r.block = some b)
    (hfind : findBlock blocks rec.block.idstr = some b)
    (hsize : rec.offset * t.pageSize < 2 ^ 64)
    (hfit : ∀ text, rec.body = .xbzrle text → text.length ≤ t.pageSize)
    (happly : rec.body.apply (r.ram (b.offset + rec.offset)) ≠ none) (rest : List U8) :
    ramLoad ops junk blocks 4 r { source := sectionBytes [.page rec] ++ rest } = .fault ↔
      b.length ≤ rec.offset ∧ rec.body ≠ .xbzrle [] := by
  have hbytes : sectionBytes [.page rec] = rec.bytes ++ (Record.eos : Record (Page t)).bytes := by
    rw [sectionBytes, List.flatMap_singleton]
    rfl
  have hsound : ({ source := sectionBytes [.page rec] ++ rest } : GetFile).Sound :=
    ⟨⟨le_rfl, Nat.zero_le _⟩, rfl⟩
  have hcontent : ({ source := sectionBytes [.page rec] ++ rest } : GetFile).content =
      rec.bytes ++ (Record.eos : Record (Page t)).bytes ++ rest := by
    rw [← hbytes]
    simp [GetFile.content]
  obtain ⟨p, hp⟩ := Option.ne_none_iff_exists'.mp happly
  rw [ramLoad, if_neg (by decide)]
  constructor
  · intro hfault
    by_contra hspared
    have hwithin : (Host.mk b rec.offset).Inside ∨ rec.body = .xbzrle [] := by
      by_cases hoffset : b.length ≤ rec.offset
      · exact .inr (not_not.mp fun hne => hspared ⟨hoffset, hne⟩)
      · exact .inl (Nat.not_le.mp hoffset)
    have hsame : rec.body.apply (({ r with block := some b } : Receiver t).ram
        (Host.mk b rec.offset).number) = some p := hp
    obtain ⟨r', hbody⟩ := gets_loadBody_spared hops rec.cont hwithin hfit hsame
    have hround : Gets (ramLoadRound ops junk blocks r) rec.bytes
        ((Record.eos : Record (Page t)).bytes ++ rest) (.next r') :=
      gets_pageRecord hops hname hcont hfind hsize hbody
    obtain ⟨fuel, hfuel⟩ : ∃ fuel, (GetFile.content
        { source := sectionBytes [.page rec] ++ rest }).length = fuel + 1 := by
      refine ⟨_, (Nat.succ_pred_eq_of_pos ?_).symm⟩
      have hlen := length_records_le [.page rec]
      rw [List.length_singleton] at hlen
      rw [hcontent, ← hbytes, sectionBytes, List.length_append, List.length_append]
      omega
    obtain ⟨f', hload, -⟩ :=
      hround.loop_next ((gets_eos hops).loop_done fuel) _ hsound hcontent
    rw [hfuel, hload] at hfault
    cases hfault
  · rintro ⟨hoffset, hbody⟩
    have hround : Faults GetFile.content GetFile.Sound (ramLoadRound ops junk blocks r) rec.bytes
        ((Record.eos : Record (Page t)).bytes ++ rest) :=
      pageRecord_faults hops hname hcont hfind hsize
        (loadBody_faults hops rec.cont (Nat.not_lt.mpr hoffset) hbody hfit hp)
    exact (hround.bind _).of_append _ hsound hcontent

def beyondRecord : PageRecord (Page shortPages) :=
  ⟨⟨.empty, 0, 2⟩, 2, false, .xbzrle [0, 1, 9]⟩

theorem ramLoad_fault_beyond :
    ramLoad (fun _ => .bytes 0) [] receiverBlocks 4 zeroReceiver
      { source := sectionBytes [.page beyondRecord] ++ [] } = .fault :=
  (ramLoad_fault_iff (fun _ => .bytes 0) (fun _ => ⟨0, rfl⟩) [] zeroReceiver beyondRecord
    (by decide) (fun h => absurd h Bool.false_ne_true)
    (show findBlock receiverBlocks .empty = some ⟨.empty, 1, 2⟩ by decide) (by decide)
    (fun _ h => by cases h; decide) (by decide +kernel) []).mpr ⟨by decide, by decide⟩

end SE4VM.Ram
