import SE4VM.Foundation.Overlay

/-!
# Sequences of block copies

A sequence of copies inside one memory, where a copy may depend on what the
copies before it have left.  Copies that bring equal bytes can be replayed in the
memory as it was at the start.
-/

namespace SE4VM.Foundation

structure Copy where
  dst : U64
  src : U64
  n : Nat
  deriving DecidableEq, Repr

namespace Copy

def apply (m : Memory) (c : Copy) : Memory := m.copy c.dst c.src c.n

def replay (cs : List Copy) (m : Memory) : Memory := cs.foldl apply m

theorem replay_append (cs ds : List Copy) (m : Memory) :
    replay (cs ++ ds) m = replay ds (replay cs m) :=
  List.foldl_append

/-- The copy brings what is there already. -/
def Still (m : Memory) (c : Copy) : Prop :=
  ∀ j < c.n, m (c.dst + BitVec.ofNat 64 j) = m (c.src + BitVec.ofNat 64 j)

theorem Still.apply_eq {m : Memory} {c : Copy} (h : c.Still m) : c.apply m = m := by
  funext x
  by_cases hx : Memory.offset c.dst x < c.n
  · have hj := h _ hx
    rw [Memory.offset, BitVec.ofNat_toNat, BitVec.setWidth_eq, BitVec.add_comm c.dst,
      BitVec.sub_add_cancel] at hj
    rw [apply, Memory.copy_apply_of_lt _ hx, hj]
  · exact Memory.copy_apply_of_le _ (Nat.not_lt.mp hx)

theorem replay_of_still {m : Memory} {cs : List Copy} (h : ∀ c ∈ cs, c.Still m) :
    replay cs m = m := by
  induction cs with
  | nil => rfl
  | cons c cs ih =>
      obtain ⟨hc, hcs⟩ := List.forall_mem_cons.mp h
      rw [replay, List.foldl_cons, hc.apply_eq]
      exact ih hcs

/-- If each step makes still copies only, it makes them in the memory of the start. -/
theorem forall_mem_foldl {P : Copy → Prop} {m : Memory} (hstill : ∀ c, P c → c.Still m)
    {g : Memory → Nat → List Copy} {is : List Nat} (h : ∀ i ∈ is, ∀ c ∈ g m i, P c) :
    ∀ c ∈ is.foldl (fun cs i => cs ++ g (replay cs m) i) [], P c := by
  refine List.foldlRecOn (motive := fun cs => ∀ c ∈ cs, P c) is _ (by simp) ?_
  intro cs hcs i hi c hc
  rw [replay_of_still fun c hc => hstill c (hcs c hc)] at hc
  rcases List.mem_append.mp hc with hc | hc
  · exact hcs c hc
  · exact h i hi c hc

end Copy

end SE4VM.Foundation
