import Mathlib.Logic.Function.Basic
import SE4VM.Savevm.Registry
import SE4VM.Ram.Xbzrle

/-!
# Pages, blocks and what is sent about them

RAM is a list of blocks, each a range of pages that a stream refers to by the name of the
block and the offset of the page in it.  `arch_init.c` sends a page in one of three ways:
as a byte it is filled with, as a whole, or by what has changed since it was sent before.
Offsets and lengths are counted in pages here, and in bytes on the stream.
-/

namespace SE4VM.Ram

open Foundation Savevm

/-- `TARGET_PAGE_BITS`.  The flags of a record are the bits below an offset. -/
structure Target where
  bits : Nat
  flags : 7 ≤ bits
  small : bits ≤ 13

namespace Target

def pageSize (t : Target) : Nat := 2 ^ t.bits

theorem pageSize_le (t : Target) : t.pageSize ≤ 8192 :=
  Nat.pow_le_pow_right (by decide) t.small

end Target

def shortPages : Target := ⟨7, by decide, by decide⟩

structure Page (t : Target) where
  bytes : List U8
  size : bytes.length = t.pageSize
  deriving DecidableEq

namespace Page

variable {t : Target}

/-- `memset(host, ch, TARGET_PAGE_SIZE)` -/
def fill (t : Target) (ch : U8) : Page t := ⟨List.replicate t.pageSize ch, List.length_replicate⟩

def zero (t : Target) : Page t := fill t 0

def overwrite (p : Page t) (bytes : List U8) : Page t :=
  ⟨bytes.take t.pageSize ++ p.bytes.drop bytes.length, by
    have hp := p.size
    rw [List.length_append, List.length_take, List.length_drop]
    omega⟩

theorem ext {p q : Page t} (h : p.bytes = q.bytes) : p = q := by
  cases p
  cases q
  cases h
  rfl

theorem overwrite_all (p q : Page t) : p.overwrite q.bytes = q := by
  have htake : q.bytes.take t.pageSize = q.bytes := List.take_of_length_le q.size.le
  have hdrop : p.bytes.drop q.bytes.length = [] :=
    List.drop_of_length_le (by rw [p.size, q.size])
  apply ext
  show q.bytes.take t.pageSize ++ p.bytes.drop q.bytes.length = q.bytes
  rw [htake, hdrop, List.append_nil]

end Page

structure RAMBlock where
  idstr : CString
  /-- The number of the first page. -/
  offset : Nat
  length : Nat
  deriving DecidableEq

def ramBytesTotal (t : Target) (blocks : List RAMBlock) : Nat :=
  (blocks.map fun b => b.length * t.pageSize).sum

/-- What one may expect of `ram_list.blocks`. -/
structure Layout (t : Target) (blocks : List RAMBlock) : Prop where
  named : ∀ b ∈ blocks, ∀ c ∈ blocks, b.idstr = c.idstr → b = c
  apart : ∀ b ∈ blocks, ∀ c ∈ blocks, ∀ j < b.length, ∀ k < c.length,
    b.offset + j = c.offset + k → b = c
  pos : ∀ b ∈ blocks, 0 < b.length
  short : ∀ b ∈ blocks, b.idstr.bytes.length < 256
  total : ramBytesTotal t blocks < 2 ^ 64

/-! ## Records -/

inductive Body (α : Type) where
  | compress (ch : U8)
  | page (content : α)
  | xbzrle (text : List U8)
  deriving DecidableEq

/-- `cont` if the record before was about the same block. -/
structure PageRecord (α : Type) where
  block : RAMBlock
  offset : Nat
  cont : Bool
  body : Body α
  deriving DecidableEq

inductive Record (α : Type) where
  | memSize (blocks : List RAMBlock)
  | page (r : PageRecord α)
  | eos
  deriving DecidableEq

def ramSaveFlagCompress : Nat := 0x02
def ramSaveFlagMemSize : Nat := 0x04
def ramSaveFlagPage : Nat := 0x08
def ramSaveFlagEos : Nat := 0x10
def ramSaveFlagContinue : Nat := 0x20
def ramSaveFlagXbzrle : Nat := 0x40

def encodingFlagXbzrle : U8 := 0x1

def nameBytes (b : RAMBlock) : List U8 := BitVec.ofNat 8 b.idstr.bytes.length :: b.idstr.bytes

def contFlag (cont : Bool) : Nat := if cont then ramSaveFlagContinue else 0

def saveBlockHdr (t : Target) (block : RAMBlock) (offset : Nat) (cont : Bool) (flag : Nat) :
    List U8 :=
  toBe 8 (offset * t.pageSize ||| contFlag cont ||| flag) ++
    if cont then [] else nameBytes block

def Body.flag {α : Type} : Body α → Nat
  | .compress _ => ramSaveFlagCompress
  | .page _ => ramSaveFlagPage
  | .xbzrle _ => ramSaveFlagXbzrle

def Body.bytes {t : Target} : Body (Page t) → List U8
  | .compress ch => [ch]
  | .page content => content.bytes
  | .xbzrle text => encodingFlagXbzrle :: (toBe 2 text.length ++ text)

def PageRecord.bytes {t : Target} (r : PageRecord (Page t)) : List U8 :=
  saveBlockHdr t r.block r.offset r.cont r.body.flag ++ r.body.bytes

def Record.bytes {t : Target} : Record (Page t) → List U8
  | .memSize blocks =>
      toBe 8 (ramBytesTotal t blocks ||| ramSaveFlagMemSize) ++
        blocks.flatMap fun b => nameBytes b ++ toBe 8 (b.length * t.pageSize)
  | .page r => r.bytes
  | .eos => toBe 8 ramSaveFlagEos

/-! ## What the records say -/

/-- `xbzrle_decode_buffer` on the page of a host. -/
def Page.decode {t : Target} (p : Page t) (text : List U8) : Run (Int × Page t) := do
  let (ret, bytes) ← xbzrleDecodeBuffer text p.bytes t.pageSize
  if h : bytes.length = t.pageSize then .ok (ret, ⟨bytes, h⟩) else .fault

def Body.apply {t : Target} : Body (Page t) → Page t → Option (Page t)
  | .compress ch, _ => some (.fill t ch)
  | .page content, _ => some content
  | .xbzrle text, p =>
      match p.decode text with
      | .ok (ret, p') => if ret = -1 then none else some p'
      | _ => none

def PageRecord.page {α : Type} (r : PageRecord α) : Nat := r.block.offset + r.offset

def Record.apply {t : Target} : Record (Page t) → (Nat → Page t) → Option (Nat → Page t)
  | .page r, ram => (r.body.apply (ram r.page)).map (Function.update ram r.page)
  | _, ram => some ram

def lastBlock {α : Type} : Option RAMBlock → List (Record α) → Option RAMBlock
  | last, [] => last
  | _, .page r :: rs => lastBlock (some r.block) rs
  | last, _ :: rs => lastBlock last rs

/-- The records are about pages of the blocks, and continue where they say so. -/
def Chained {α : Type} (t : Target) (blocks : List RAMBlock) :
    Option RAMBlock → List (Record α) → Prop
  | _, [] => True
  | last, .memSize bs :: rs => bs = blocks ∧ Chained t blocks last rs
  | last, .page r :: rs =>
      (r.block ∈ blocks ∧ r.offset < r.block.length ∧ (r.cont = true → last = some r.block) ∧
        ∀ text, r.body = .xbzrle text → text.length ≤ t.pageSize) ∧
      Chained t blocks (some r.block) rs
  | last, .eos :: rs => Chained t blocks last rs

theorem lastBlock_append {α : Type} (last : Option RAMBlock) (xs ys : List (Record α)) :
    lastBlock last (xs ++ ys) = lastBlock (lastBlock last xs) ys := by
  induction xs generalizing last with
  | nil => rfl
  | cons r xs ih => cases r <;> exact ih _

theorem chained_append {α : Type} {t : Target} {blocks : List RAMBlock} {last : Option RAMBlock}
    {xs ys : List (Record α)} :
    Chained t blocks last (xs ++ ys) ↔
      Chained t blocks last xs ∧ Chained t blocks (lastBlock last xs) ys := by
  induction xs generalizing last with
  | nil => exact (and_iff_right trivial).symm
  | cons r xs ih =>
      cases r with
      | memSize bs => exact (and_congr_right fun _ => ih).trans and_assoc.symm
      | page r => exact (and_congr_right fun _ => ih).trans and_assoc.symm
      | eos => exact ih

def replay {t : Target} : List (Record (Page t)) → (Nat → Page t) → Option (Nat → Page t)
  | [], ram => some ram
  | r :: rs, ram => (r.apply ram).bind (replay rs)

theorem replay_append {t : Target} (xs ys : List (Record (Page t))) (ram : Nat → Page t) :
    replay (xs ++ ys) ram = (replay xs ram).bind (replay ys) := by
  induction xs generalizing ram with
  | nil => rfl
  | cons r xs ih =>
      rw [List.cons_append, replay, replay, Option.bind_assoc]
      exact congrArg _ (funext ih)

end SE4VM.Ram
