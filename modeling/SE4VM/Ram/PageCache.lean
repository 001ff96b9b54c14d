import SE4VM.Ram.Records

/-!
# The cache of sent pages

`page_cache.c` keeps copies of pages in a table with a power of two of places, one for all
addresses that agree in their low bits.  A copy is an allocation of its own, since pointers
to it are handed out.  Addresses are counted in pages.
-/

namespace SE4VM.Ram

open Foundation

variable {t : Target}

structure CacheItem where
  addr : Nat
  age : U64
  /-- The allocation. -/
  data : Nat
  deriving DecidableEq, Repr

/-- `heap` lists all allocations ever made, with `none` for those that have been freed. -/
structure PageCache (t : Target) where
  items : List (Option CacheItem)
  maxItemAge : U64
  heap : List (Option (Page t))
  deriving DecidableEq

namespace PageCache

/-- `pow2floor` -/
def places (numPages : Nat) : Nat := 2 ^ numPages.log2

def init (t : Target) (numPages : Nat) : Option (PageCache t) :=
  if numPages = 0 then none
  else some { items := List.replicate (places numPages) none, maxItemAge := 0, heap := [] }

def pos (items : List (Option CacheItem)) (addr : Nat) : Nat := addr &&& (items.length - 1)

def byAddr (items : List (Option CacheItem)) (addr : Nat) : Option CacheItem :=
  (items[pos items addr]?).join

def isCached (c : PageCache t) (addr : Nat) : Bool :=
  match byAddr c.items addr with
  | some it => it.addr = addr
  | none => false

/-- `get_cached_data`: whatever is at the place of the address. -/
def cachedData (c : PageCache t) (addr : Nat) : Option Nat :=
  (byAddr c.items addr).map CacheItem.data

/-- An allocation is overwritten or freed, which is a fault when it has been freed. -/
def access (heap : List (Option (Page t))) (data : Nat) (content : Option (Page t)) :
    Run (List (Option (Page t))) :=
  match heap[data]? with
  | some (some _) => .ok (heap.set data content)
  | _ => .fault

/-- `g_free`, which accepts `NULL` -/
def free (heap : List (Option (Page t))) : Option CacheItem → Run (List (Option (Page t)))
  | some it => access heap it.data none
  | none => .ok heap

def insert (c : PageCache t) (addr : Nat) (page : Page t) : Run (PageCache t) := do
  let heap ← free c.heap (byAddr c.items addr)
  pure {
    items := c.items.set (pos c.items addr) (some ⟨addr, c.maxItemAge + 1, heap.length⟩)
    maxItemAge := c.maxItemAge + 1
    heap := heap ++ [some page] }

def write (c : PageCache t) (data : Nat) (page : Page t) : Run (PageCache t) := do
  pure { c with heap := ← access c.heap data (some page) }

def moveItem (st : List (Option CacheItem) × List (Option (Page t))) (it : Option CacheItem) :
    Run (List (Option CacheItem) × List (Option (Page t))) :=
  match it with
  | none => .ok st
  | some old =>
      match byAddr st.1 old.addr with
      | some new =>
          if old.age ≤ new.age then do pure (st.1, ← free st.2 (some old))
          else do pure (st.1.set (pos st.1 old.addr) (some old), ← free st.2 (some new))
      | none => .ok (st.1.set (pos st.1 old.addr) (some old), st.2)

/-- The answer is left out: it is the number of places. -/
def resize (c : PageCache t) (newNumPages : Nat) : Run (PageCache t) :=
  if newNumPages = 0 ∨ places newNumPages = c.items.length then .ok c
  else do
    let (items, heap) ← c.items.foldlM moveItem
      (List.replicate (places newNumPages) none, c.heap)
    pure { c with items := items, heap := heap }

/-! ## Places -/

theorem pos_lt {items : List (Option CacheItem)} {k : Nat} (h : items.length = 2 ^ k) (addr : Nat) :
    pos items addr < items.length := by
  rw [pos, h, Nat.and_two_pow_sub_one_eq_mod]
  exact Nat.mod_lt _ (Nat.two_pow_pos k)

theorem pos_set (items : List (Option CacheItem)) (i : Nat) (it : Option CacheItem) (addr : Nat) :
    pos (items.set i it) addr = pos items addr := by
  rw [pos, pos, List.length_set]

theorem byAddr_set {items : List (Option CacheItem)} {k : Nat} (h : items.length = 2 ^ k)
    (addr addr' : Nat) (it : Option CacheItem) :
    byAddr (items.set (pos items addr) it) addr' =
      if pos items addr = pos items addr' then it else byAddr items addr' := by
  rw [byAddr, pos_set, List.getElem?_set, if_pos (pos_lt h addr)]
  split_ifs with hpos
  · rw [Option.join_some]
  · rfl

structure Placed (items : List (Option CacheItem)) : Prop where
  size : ∃ k, items.length = 2 ^ k
  place : ∀ i it, items[i]? = some (some it) → pos items it.addr = i

theorem Placed.byAddr_self {items : List (Option CacheItem)} (h : Placed items) {i : Nat}
    {it : CacheItem} (hi : items[i]? = some (some it)) : byAddr items it.addr = some it := by
  rw [byAddr, h.place i it hi, hi, Option.join_some]

theorem byAddr_eq_some {items : List (Option CacheItem)} {addr : Nat} {it : CacheItem}
    (h : byAddr items addr = some it) : items[pos items addr]? = some (some it) :=
  Option.join_eq_some_iff.mp h

theorem Placed.set {items : List (Option CacheItem)} (h : Placed items) (it : CacheItem) :
    Placed (items.set (pos items it.addr) (some it)) where
  size := by
    obtain ⟨k, hk⟩ := h.size
    exact ⟨k, by rw [List.length_set, hk]⟩
  place i jt hi := by
    rw [pos_set]
    rw [List.getElem?_set] at hi
    split_ifs at hi with hpos
    · cases hi
      exact hpos
    · exact h.place i jt hi

theorem places_placed (numPages : Nat) : Placed (List.replicate (places numPages) none) where
  size := ⟨_, List.length_replicate⟩
  place i it hi := by
    rw [List.getElem?_replicate] at hi
    split_ifs at hi
    cases Option.some.inj hi

theorem mem_set_place {items : List (Option CacheItem)} (h : Placed items) (it jt : CacheItem) :
    some jt ∈ items.set (pos items it.addr) (some it) ↔
      jt = it ∨ some jt ∈ items ∧ byAddr items it.addr ≠ some jt := by
  obtain ⟨k, hk⟩ := h.size
  have hlt := pos_lt hk it.addr
  constructor
  · intro hmem
    obtain ⟨i, hi⟩ := List.mem_iff_getElem?.mp hmem
    rw [List.getElem?_set, if_pos hlt] at hi
    split_ifs at hi with hpos
    · cases hi
      exact .inl rfl
    · refine .inr ⟨List.mem_of_getElem? hi, fun hby => hpos ?_⟩
      rw [← h.place _ jt (byAddr_eq_some hby), h.place i jt hi]
  · rintro (rfl | ⟨hmem, hne⟩)
    · exact List.mem_iff_getElem?.mpr ⟨_, by rw [List.getElem?_set, if_pos rfl, if_pos hlt]⟩
    · obtain ⟨i, hi⟩ := List.mem_iff_getElem?.mp hmem
      refine List.mem_iff_getElem?.mpr ⟨i, ?_⟩
      rw [List.getElem?_set, if_neg, hi]
      intro hpos
      apply hne
      rw [byAddr, hpos, hi, Option.join_some]

/-! ## Who owns what -/

/--
Every copy belongs to one of the items and is what was stored last under its address, and no
allocation is without an owner.
-/
structure Owned (latest : Nat → Option (Page t)) (owner : CacheItem → Prop)
    (heap : List (Option (Page t))) : Prop where
  held : ∀ it, owner it → ∃ p, latest it.addr = some p ∧ heap[it.data]? = some (some p)
  owned : ∀ d p, heap[d]? = some (some p) → ∃ it, owner it ∧ it.data = d
  inj : ∀ it jt, owner it → owner jt → it.data = jt.data → it = jt

namespace Owned

variable {latest : Nat → Option (Page t)} {owner owner' : CacheItem → Prop}
  {heap : List (Option (Page t))} {it : CacheItem}

theorem congr (h : Owned latest owner heap) (howner : ∀ it, owner' it ↔ owner it) :
    Owned latest owner' heap := by
  obtain rfl : owner' = owner := funext fun it => propext (howner it)
  exact h

theorem access_eq (h : Owned latest owner heap) (hit : owner it) (content : Option (Page t)) :
    access heap it.data content = .ok (heap.set it.data content) := by
  obtain ⟨p, -, hp⟩ := h.held it hit
  simp only [access, hp]

theorem drop (h : Owned latest owner heap) (hit : owner it) :
    Owned latest (fun jt => owner jt ∧ jt ≠ it) (heap.set it.data none) where
  held jt hjt := by
    obtain ⟨p, hlatest, hp⟩ := h.held jt hjt.1
    refine ⟨p, hlatest, ?_⟩
    rw [List.getElem?_set_ne fun heq => hjt.2 (h.inj jt it hjt.1 hit heq.symm), hp]
  owned d p hd := by
    rw [List.getElem?_set] at hd
    split_ifs at hd with heq
    · cases Option.some.inj hd
    · obtain ⟨jt, hjt, rfl⟩ := h.owned d p hd
      exact ⟨jt, ⟨hjt, fun hsame => heq (by rw [hsame])⟩, rfl⟩
  inj jt kt hjt hkt := h.inj jt kt hjt.1 hkt.1

theorem gain (h : Owned latest owner heap) (hdata : it.data = heap.length)
    (hfresh : ∀ jt, owner jt → jt.addr ≠ it.addr) (page : Page t) :
    Owned (Function.update latest it.addr (some page)) (fun jt => owner jt ∨ jt = it)
      (heap ++ [some page]) where
  held jt hjt := by
    rcases hjt with hjt | rfl
    · obtain ⟨p, hlatest, hp⟩ := h.held jt hjt
      refine ⟨p, by rw [Function.update_of_ne (hfresh jt hjt), hlatest], ?_⟩
      rw [List.getElem?_append_left (List.getElem?_eq_some_iff.mp hp).1, hp]
    · exact ⟨page, Function.update_self .., by rw [hdata, List.getElem?_concat_length]⟩
  owned d p hd := by
    by_cases hlt : d < heap.length
    · rw [List.getElem?_append_left hlt] at hd
      obtain ⟨jt, hjt, rfl⟩ := h.owned d p hd
      exact ⟨jt, .inl hjt, rfl⟩
    · have hle := (List.getElem?_eq_some_iff.mp hd).1
      rw [List.length_append, List.length_singleton] at hle
      exact ⟨it, .inr rfl, by omega⟩
  inj jt kt hjt hkt heq := by
    have hbound : ∀ jt, owner jt → jt.data < heap.length := by
      intro jt hjt
      obtain ⟨p, -, hp⟩ := h.held jt hjt
      exact (List.getElem?_eq_some_iff.mp hp).1
    rcases hjt with hjt | rfl
    · rcases hkt with hkt | rfl
      · exact h.inj jt kt hjt hkt heq
      · exact absurd (hbound jt hjt) (by omega)
    · rcases hkt with hkt | rfl
      · exact absurd (hbound kt hkt) (by omega)
      · rfl

theorem write (h : Owned latest owner heap) (hit : owner it)
    (honly : ∀ jt, owner jt → jt.addr = it.addr → jt = it) (page : Page t) :
    Owned (Function.update latest it.addr (some page)) owner (heap.set it.data (some page)) where
  held jt hjt := by
    obtain ⟨p, hlatest, hp⟩ := h.held jt hjt
    have hlt := (List.getElem?_eq_some_iff.mp hp).1
    by_cases heq : jt = it
    · subst heq
      exact ⟨page, Function.update_self .., by rw [List.getElem?_set_self hlt]⟩
    · refine ⟨p, by rw [Function.update_of_ne fun haddr => heq (honly jt hjt haddr), hlatest], ?_⟩
      rw [List.getElem?_set_ne fun hdata => heq (h.inj jt it hjt hit hdata.symm), hp]
  owned d p hd := by
    rw [List.getElem?_set] at hd
    split_ifs at hd with heq
    · exact ⟨it, hit, heq⟩
    · exact h.owned d p hd
  inj := h.inj

end Owned

structure Valid (latest : Nat → Option (Page t)) (c : PageCache t) : Prop where
  placed : Placed c.items
  owned : Owned latest (fun it => some it ∈ c.items) c.heap

theorem Placed.eq_of_addr {items : List (Option CacheItem)} (h : Placed items) {it jt : CacheItem}
    (hit : some it ∈ items) (hjt : some jt ∈ items) (haddr : it.addr = jt.addr) : it = jt := by
  obtain ⟨i, hi⟩ := List.mem_iff_getElem?.mp hit
  obtain ⟨j, hj⟩ := List.mem_iff_getElem?.mp hjt
  have hsame := h.byAddr_self hi
  rw [haddr, h.byAddr_self hj] at hsame
  exact (Option.some.inj hsame).symm

theorem valid_init {numPages : Nat} {c : PageCache t} (h : init t numPages = some c) :
    Valid (fun _ => none) c := by
  rw [init] at h
  split_ifs at h
  cases h
  refine ⟨places_placed numPages, fun it hit => ?_, fun d p hd => ?_, fun it _ hit => ?_⟩
  · exact absurd (List.mem_replicate.mp hit).2 (by simp)
  · simp at hd
  · exact absurd (List.mem_replicate.mp hit).2 (by simp)

variable {latest : Nat → Option (Page t)} {c : PageCache t}

theorem Valid.insert (h : Valid latest c) (addr : Nat) (page : Page t) :
    ∃ c', c.insert addr page = .ok c' ∧ Valid (Function.update latest addr (some page)) c' := by
  have hother : ∀ jt, some jt ∈ c.items → byAddr c.items addr ≠ some jt → jt.addr ≠ addr := by
    rintro jt hjt hne rfl
    obtain ⟨i, hi⟩ := List.mem_iff_getElem?.mp hjt
    exact hne (h.placed.byAddr_self hi)
  rw [PageCache.insert]
  cases hold : byAddr c.items addr with
  | none =>
      let it : CacheItem := ⟨addr, c.maxItemAge + 1, c.heap.length⟩
      have hlen : it.data = c.heap.length := rfl
      refine ⟨_, rfl, h.placed.set it, ?_⟩
      refine (h.owned.gain hlen (fun jt hjt => hother jt hjt (by simp [hold])) page).congr
        fun jt => ?_
      rw [mem_set_place h.placed it, show byAddr c.items it.addr = none from hold, or_comm,
        and_iff_left (by simp)]
  | some old =>
      have hin : some old ∈ c.items := List.mem_of_getElem? (byAddr_eq_some hold)
      let it : CacheItem := ⟨addr, c.maxItemAge + 1, (c.heap.set old.data none).length⟩
      have hlen : it.data = (c.heap.set old.data none).length := rfl
      rw [free, h.owned.access_eq hin]
      refine ⟨_, rfl, h.placed.set it, ?_⟩
      refine ((h.owned.drop hin).gain hlen (fun jt hjt => hother jt hjt.1 ?_) page).congr
        fun jt => ?_
      · rw [hold]
        exact fun heq => hjt.2 (Option.some.inj heq).symm
      · rw [mem_set_place h.placed it, show byAddr c.items it.addr = some old from hold, or_comm]
        simp only [ne_eq, Option.some.injEq, eq_comm]

theorem Valid.write (h : Valid latest c) {addr : Nat} {it : CacheItem}
    (hit : byAddr c.items addr = some it) (haddr : it.addr = addr) (page : Page t) :
    ∃ c', c.write it.data page = .ok c' ∧
      Valid (Function.update latest addr (some page)) c' := by
  have hmem : some it ∈ c.items := List.mem_of_getElem? (byAddr_eq_some hit)
  subst haddr
  rw [PageCache.write, h.owned.access_eq hmem]
  exact ⟨_, rfl, h.placed,
    h.owned.write hmem (fun jt hjt heq => h.placed.eq_of_addr hjt hmem heq) page⟩

/-- In the middle of a move: `rest` is what is left of the old table. -/
structure Moving (latest : Nat → Option (Page t)) (rest : List (Option CacheItem))
    (st : List (Option CacheItem) × List (Option (Page t))) : Prop where
  placed : Placed st.1
  owned : Owned latest (fun it => some it ∈ st.1 ∨ some it ∈ rest) st.2
  apart : ∀ it, some it ∈ st.1 → some it ∉ rest
  once : rest.Pairwise fun x y => x ≠ none → x ≠ y

def Recent (items items' : List (Option CacheItem)) : Prop :=
  ∀ addr it, byAddr items addr = some it → ∃ it', byAddr items' addr = some it' ∧ it.age ≤ it'.age

theorem Recent.refl (items : List (Option CacheItem)) : Recent items items :=
  fun _ it hit => ⟨it, hit, BitVec.le_refl _⟩

theorem Recent.trans {xs ys zs : List (Option CacheItem)} (h : Recent xs ys) (h' : Recent ys zs) :
    Recent xs zs := by
  intro addr it hit
  obtain ⟨jt, hjt, hle⟩ := h addr it hit
  obtain ⟨kt, hkt, hle'⟩ := h' addr jt hjt
  exact ⟨kt, hkt, BitVec.le_trans hle hle'⟩

theorem Recent.set {items : List (Option CacheItem)} (h : Placed items) {it : CacheItem}
    (hold : ∀ old, byAddr items it.addr = some old → old.age ≤ it.age) :
    Recent items (items.set (pos items it.addr) (some it)) := by
  obtain ⟨k, hk⟩ := h.size
  intro addr old hmem
  rw [byAddr_set hk]
  by_cases hpos : pos items it.addr = pos items addr
  · rw [if_pos hpos]
    refine ⟨it, rfl, hold old ?_⟩
    rw [byAddr, hpos]
    exact hmem
  · rw [if_neg hpos]
    exact ⟨old, hmem, BitVec.le_refl _⟩

namespace Moving

variable {rest : List (Option CacheItem)} {old : CacheItem}
  {st : List (Option CacheItem) × List (Option (Page t))}

theorem skip (h : Moving latest (none :: rest) st) : Moving latest rest st where
  placed := h.placed
  owned := h.owned.congr fun it => by simp
  apart := fun it hit hrest => h.apart it hit (List.mem_cons_of_mem _ hrest)
  once := (List.pairwise_cons.mp h.once).2

theorem not_mem (h : Moving latest (some old :: rest) st) : some old ∉ st.1 ∧ some old ∉ rest :=
  ⟨fun hin => h.apart old hin List.mem_cons_self,
    fun hin => (List.pairwise_cons.mp h.once).1 (some old) hin (by simp) rfl⟩

theorem owner_iff (it : CacheItem) : (some it ∈ st.1 ∨ some it ∈ some old :: rest) ↔
    (some it ∈ st.1 ∨ some it ∈ rest) ∨ it = old := by
  rw [List.mem_cons, Option.some.injEq]
  tauto

/-- With the moved item at its place, the owners are those of before but the one it replaces. -/
theorem place (h : Moving latest (some old :: rest) st) {heap : List (Option (Page t))}
    (howned : Owned latest (fun it => (some it ∈ st.1 ∨ some it ∈ some old :: rest) ∧
      byAddr st.1 old.addr ≠ some it) heap) :
    Moving latest rest (st.1.set (pos st.1 old.addr) (some old), heap) := by
  obtain ⟨hnotIn, hnotLater⟩ := h.not_mem
  refine ⟨h.placed.set old, howned.congr fun it => ?_, fun it hit => ?_,
    (List.pairwise_cons.mp h.once).2⟩
  · dsimp only
    rw [mem_set_place h.placed, owner_iff]
    constructor
    · rintro ((rfl | ⟨hit, hdiff⟩) | hrest)
      · exact ⟨.inr rfl, fun hat => hnotIn (List.mem_of_getElem? (byAddr_eq_some hat))⟩
      · exact ⟨.inl (.inl hit), hdiff⟩
      · exact ⟨.inl (.inr hrest), fun hat => h.apart it
          (List.mem_of_getElem? (byAddr_eq_some hat)) (List.mem_cons_of_mem _ hrest)⟩
    · rintro ⟨(hit | hrest) | rfl, hdiff⟩
      · exact .inl (.inr ⟨hit, hdiff⟩)
      · exact .inr hrest
      · exact .inl (.inl rfl)
  · rcases (mem_set_place h.placed old it).mp hit with rfl | ⟨hin, -⟩
    · exact hnotLater
    · exact fun hrest => h.apart it hin (List.mem_cons_of_mem _ hrest)

theorem discard (h : Moving latest (some old :: rest) st) :
    Moving latest rest (st.1, st.2.set old.data none) := by
  obtain ⟨hnotIn, hnotLater⟩ := h.not_mem
  refine ⟨h.placed, (h.owned.drop (.inr List.mem_cons_self)).congr fun it => ?_,
    fun it hit hrest => h.apart it hit (List.mem_cons_of_mem _ hrest),
    (List.pairwise_cons.mp h.once).2⟩
  dsimp only
  rw [owner_iff]
  constructor
  · intro hit
    refine ⟨.inl hit, ?_⟩
    rintro rfl
    exact hit.elim hnotIn hnotLater
  · rintro ⟨hit | hit, hdiff⟩
    · exact hit
    · exact absurd hit hdiff

theorem step {x : Option CacheItem} (h : Moving latest (x :: rest) st) :
    ∃ st', moveItem st x = .ok st' ∧ Moving latest rest st' ∧ Recent st.1 st'.1 ∧
      ∀ old, x = some old → ∃ it, byAddr st'.1 old.addr = some it ∧ old.age ≤ it.age := by
  cases x with
  | none => exact ⟨st, rfl, h.skip, .refl _, fun old hold => by cases hold⟩
  | some old =>
      obtain ⟨k, hk⟩ := h.placed.size
      have hset : byAddr (st.1.set (pos st.1 old.addr) (some old)) old.addr = some old := by
        rw [byAddr_set hk, if_pos rfl]
      cases hnew : byAddr st.1 old.addr with
      | none =>
          simp only [moveItem, hnew]
          refine ⟨_, rfl, h.place (h.owned.congr fun it => ?_), .set h.placed (by simp [hnew]), ?_⟩
          · simp [hnew]
          · rintro _ ⟨⟩
            exact ⟨old, hset, BitVec.le_refl _⟩
      | some new =>
          have hin : some new ∈ st.1 := List.mem_of_getElem? (byAddr_eq_some hnew)
          simp only [moveItem, hnew]
          by_cases hage : old.age ≤ new.age
          · rw [if_pos hage, free, h.owned.access_eq (.inr List.mem_cons_self)]
            refine ⟨_, rfl, h.discard, .refl _, ?_⟩
            rintro _ ⟨⟩
            exact ⟨new, hnew, hage⟩
          · rw [if_neg hage, free, h.owned.access_eq (.inl hin)]
            refine ⟨_, rfl, h.place ((h.owned.drop (.inl hin)).congr fun it => ?_),
              .set h.placed fun x hx => ?_, ?_⟩
            · simp only [hnew, ne_eq, Option.some.injEq, eq_comm]
            · rw [hnew] at hx
              cases hx
              exact BitVec.le_of_lt (BitVec.not_le.mp hage)
            · rintro _ ⟨⟩
              exact ⟨old, hset, BitVec.le_refl _⟩

end Moving

theorem Moving.foldlM {rest : List (Option CacheItem)}
    {st : List (Option CacheItem) × List (Option (Page t))} (h : Moving latest rest st) :
    ∃ st', rest.foldlM moveItem st = .ok st' ∧ Moving latest [] st' ∧ Recent st.1 st'.1 ∧
      ∀ old, some old ∈ rest → ∃ it, byAddr st'.1 old.addr = some it ∧ old.age ≤ it.age := by
  induction rest generalizing st with
  | nil => exact ⟨st, rfl, h, .refl _, fun old hold => by cases hold⟩
  | cons x rest ih =>
      obtain ⟨st₁, hrun, hstep, hrecent, hmoved⟩ := h.step
      obtain ⟨st₂, hrun', hend, hrecent', hmoved'⟩ := ih hstep
      refine ⟨st₂, ?_, hend, hrecent.trans hrecent', fun old hold => ?_⟩
      · rw [List.foldlM_cons, hrun, Run.ok_bind, hrun']
      rcases List.mem_cons.mp hold with rfl | hold
      · obtain ⟨it, hit, hle⟩ := hmoved old rfl
        obtain ⟨jt, hjt, hle'⟩ := hrecent' old.addr it hit
        exact ⟨jt, hjt, BitVec.le_trans hle hle'⟩
      · exact hmoved' old hold

theorem Valid.resize (h : Valid latest c) (newNumPages : Nat) :
    ∃ c', c.resize newNumPages = .ok c' ∧ Valid latest c' ∧ ∀ old, some old ∈ c.items →
      ∃ it, byAddr c'.items old.addr = some it ∧ old.age ≤ it.age := by
  have hself : ∀ old, some old ∈ c.items → byAddr c.items old.addr = some old := by
    intro old hold
    obtain ⟨i, hi⟩ := List.mem_iff_getElem?.mp hold
    exact h.placed.byAddr_self hi
  have honce : c.items.Pairwise fun x y => x ≠ none → x ≠ y := by
    rw [List.pairwise_iff_getElem]
    intro i j hi hj hlt hx heq
    obtain ⟨it, hit⟩ := Option.ne_none_iff_exists'.mp hx
    have hplace := h.placed.place i it (by rw [List.getElem?_eq_getElem hi, hit])
    have hplace' := h.placed.place j it (by rw [List.getElem?_eq_getElem hj, ← heq, hit])
    omega
  rw [PageCache.resize]
  split_ifs with hsame
  · exact ⟨c, rfl, h, fun old hold => ⟨old, hself old hold, BitVec.le_refl _⟩⟩
  · have hempty : ∀ it, some it ∉ List.replicate (places newNumPages) (none : Option CacheItem) :=
      fun it hit => by simpa using (List.mem_replicate.mp hit).2
    have hstart : Moving latest c.items (List.replicate (places newNumPages) none, c.heap) :=
      ⟨places_placed newNumPages, h.owned.congr fun it => or_iff_right (hempty it),
        fun it hit => absurd hit (hempty it), honce⟩
    obtain ⟨st, hrun, hend, -, hmoved⟩ := hstart.foldlM
    rw [hrun]
    exact ⟨_, rfl, ⟨hend.placed, hend.owned.congr fun it => (or_iff_left (by simp)).symm⟩, hmoved⟩

/-! ## Whole runs -/

inductive CacheOp (t : Target) where
  | store (addr : Nat) (page : Page t)
  | resize (newNumPages : Nat)

/-- As `save_xbzrle_page` does it: a page that is cached is overwritten. -/
def CacheOp.exec (c : PageCache t) : CacheOp t → Run (PageCache t)
  | .store addr page =>
      match byAddr c.items addr with
      | some it => if it.addr = addr then c.write it.data page else c.insert addr page
      | none => c.insert addr page
  | .resize newNumPages => c.resize newNumPages

def CacheOp.record (latest : Nat → Option (Page t)) : CacheOp t → Nat → Option (Page t)
  | .store addr page => Function.update latest addr (some page)
  | .resize _ => latest

theorem Valid.exec (h : Valid latest c) (op : CacheOp t) :
    ∃ c', op.exec c = .ok c' ∧ Valid (op.record latest) c' := by
  cases op with
  | resize newNumPages =>
      obtain ⟨c', hrun, hvalid, -⟩ := h.resize newNumPages
      exact ⟨c', hrun, hvalid⟩
  | store addr page =>
      simp only [CacheOp.exec, CacheOp.record]
      cases hit : byAddr c.items addr with
      | none => exact h.insert addr page
      | some it =>
          by_cases haddr : it.addr = addr
          · simp only [if_pos haddr]
            exact h.write hit haddr page
          · simp only [if_neg haddr]
            exact h.insert addr page

theorem Valid.run (h : Valid latest c) (run : List (CacheOp t)) :
    ∃ c', run.foldlM CacheOp.exec c = .ok c' ∧ Valid (run.foldl CacheOp.record latest) c' := by
  induction run generalizing latest c with
  | nil => exact ⟨c, rfl, h⟩
  | cons op run ih =>
      obtain ⟨c₁, hrun, hvalid⟩ := h.exec op
      obtain ⟨c₂, hrun', hvalid'⟩ := ih hvalid
      exact ⟨c₂, by rw [List.foldlM_cons, hrun, Run.ok_bind, hrun'], hvalid'⟩

theorem Valid.lookup (h : Valid latest c) {addr : Nat} (hcached : c.isCached addr = true) :
    ∃ d p, c.cachedData addr = some d ∧ c.heap[d]? = some (some p) ∧ latest addr = some p := by
  rw [isCached] at hcached
  cases hit : byAddr c.items addr with
  | none =>
      rw [hit] at hcached
      cases hcached
  | some it =>
      rw [hit] at hcached
      have haddr : it.addr = addr := by simpa using hcached
      obtain ⟨p, hlatest, hp⟩ := h.owned.held it (List.mem_of_getElem? (byAddr_eq_some hit))
      exact ⟨it.data, p, by rw [cachedData, hit]; rfl, hp, by rw [← haddr, hlatest]⟩

/--
No run of stores and changes of size frees an allocation twice or writes to one that has been
freed.  What the cache has for an address in the end is the page that was stored last under it; an
allocation is in use just in case it is what the cache has for some address; and changing the size
once more drops a page only for one that is not older.
-/
theorem cache_run {numPages : Nat} {start : PageCache t} (hstart : init t numPages = some start)
    (run : List (CacheOp t)) (newNumPages : Nat) :
    ∃ c, run.foldlM CacheOp.exec start = .ok c ∧
      (∀ addr, c.isCached addr = true → ∃ d p, c.cachedData addr = some d ∧
        c.heap[d]? = some (some p) ∧ run.foldl CacheOp.record (fun _ => none) addr = some p) ∧
      (∀ d p, c.heap[d]? = some (some p) →
        ∃ addr, c.isCached addr = true ∧ c.cachedData addr = some d) ∧
      ∃ c', c.resize newNumPages = .ok c' ∧ ∀ old, some old ∈ c.items →
        ∃ it, byAddr c'.items old.addr = some it ∧ old.age ≤ it.age := by
  obtain ⟨c, hrun, hvalid⟩ := (valid_init hstart).run run
  obtain ⟨c', hresize, -, hmoved⟩ := hvalid.resize newNumPages
  refine ⟨c, hrun, fun addr hcached => hvalid.lookup hcached, fun d p hd => ?_, c', hresize,
    hmoved⟩
  obtain ⟨it, hit, rfl⟩ := hvalid.owned.owned d p hd
  obtain ⟨i, hi⟩ := List.mem_iff_getElem?.mp hit
  have hself := hvalid.placed.byAddr_self hi
  exact ⟨it.addr, by simp [isCached, hself], by rw [cachedData, hself]; rfl⟩

/-- Two places, which the pages 0 and 2 have to share. -/
def pairCache : PageCache shortPages := ⟨List.replicate 2 none, 0, []⟩

def pairRun : List (CacheOp shortPages) :=
  [.store 0 (.fill _ 1), .store 1 (.fill _ 2), .store 2 (.fill _ 3), .store 1 (.fill _ 4),
    .resize 5]

theorem cache_run_pair :
    ∃ c, pairRun.foldlM CacheOp.exec pairCache = .ok c ∧
      (∀ addr, c.isCached addr = true → ∃ d p, c.cachedData addr = some d ∧
        c.heap[d]? = some (some p) ∧ pairRun.foldl CacheOp.record (fun _ => none) addr = some p) ∧
      (∀ d p, c.heap[d]? = some (some p) →
        ∃ addr, c.isCached addr = true ∧ c.cachedData addr = some d) ∧
      ∃ c', c.resize 1 = .ok c' ∧ ∀ old, some old ∈ c.items →
        ∃ it, byAddr c'.items old.addr = some it ∧ old.age ≤ it.age :=
  cache_run (show init shortPages 3 = some pairCache by decide +kernel) pairRun 1

example : PageCache.items <$> pairRun.foldlM CacheOp.exec pairCache =
    .ok [none, some ⟨1, 2, 1⟩, some ⟨2, 3, 2⟩, none] := by
  decide +kernel

end PageCache

end SE4VM.Ram
