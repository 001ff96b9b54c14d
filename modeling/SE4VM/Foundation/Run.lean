import Mathlib.Data.Nat.Find
import Mathlib.Logic.Function.Iterate
import Mathlib.Logic.Relation
import Mathlib.Order.Basic

/-!
# Fuelled runs and loops

A `Run` is the outcome of executing imperative code under a fuel allowance: it
finishes, it performs an access the language leaves undefined, or it is still
busy when the fuel is spent.  `loop` iterates a body that either continues with
a new loop state or leaves the loop.  Everything below is stated for arbitrary
loop states and bodies.
-/

namespace SE4VM.Foundation

universe u

inductive Run (α : Type u) where
  | ok (value : α)
  | fault
  | timeout
  deriving DecidableEq, Repr

namespace Run

variable {α : Type u} {β : Type u} {γ : Type u}

protected def bind (x : Run α) (f : α → Run β) : Run β :=
  match x with
  | ok a => f a
  | fault => fault
  | timeout => timeout

instance : Monad Run where
  pure := ok
  bind := Run.bind

@[simp] theorem pure_def (a : α) : (pure a : Run α) = ok a := rfl

@[simp] theorem ok_bind (a : α) (f : α → Run β) : (ok a >>= f) = f a := rfl

@[simp] theorem fault_bind (f : α → Run β) : (fault >>= f) = fault := rfl

@[simp] theorem timeout_bind (f : α → Run β) : (timeout >>= f) = timeout := rfl

theorem bind_eq_ok {x : Run α} {f : α → Run β} {b : β} :
    (x >>= f) = ok b ↔ ∃ a, x = ok a ∧ f a = ok b := by
  cases x <;> simp

theorem bind_assoc (x : Run α) (f : α → Run β) (g : β → Run γ) :
    (x >>= f >>= g) = (x >>= fun a => f a >>= g) := by
  cases x <;> rfl

theorem bind_congr {x : Run α} {f g : α → Run β} (h : ∀ a, x = ok a → f a = g a) :
    (x >>= f) = (x >>= g) := by
  cases x with
  | ok a => exact h a rfl
  | fault => rfl
  | timeout => rfl

theorem bind_ok_self (x : Run α) : (x >>= ok) = x := by
  cases x <;> rfl

@[simp] theorem map_ok (f : α → β) (a : α) : f <$> (ok a) = ok (f a) := rfl

@[simp] theorem map_fault (f : α → β) : f <$> (fault : Run α) = fault := rfl

@[simp] theorem map_timeout (f : α → β) :
    f <$> (timeout : Run α) = timeout := rfl

def Finishes (x : Run α) : Prop := ∃ a, x = ok a

theorem Finishes.ok (a : α) : Finishes (ok a) := ⟨a, rfl⟩

theorem Finishes.bind {x : Run α} {f : α → Run β} (hx : Finishes x)
    (hf : ∀ a, x = Run.ok a → Finishes (f a)) : Finishes (x >>= f) := by
  obtain ⟨a, rfl⟩ := hx
  exact hf a rfl

/-- More fuel can only replace `timeout`; it never changes an answer. -/
def Le (x y : Run α) : Prop := x = timeout ∨ x = y

theorem Le.refl (x : Run α) : Le x x := .inr rfl

theorem Le.trans {x y z : Run α} (hxy : Le x y) (hyz : Le y z) : Le x z := by
  rcases hxy with rfl | rfl
  · exact .inl rfl
  · exact hyz

theorem Le.eq_ok {x y : Run α} {a : α} (h : Le x y) (hx : x = ok a) :
    y = ok a := by
  rcases h with h | h
  · rw [hx] at h
    contradiction
  · rw [← h, hx]

theorem Le.bind {x y : Run α} {f g : α → Run β} (hxy : Le x y)
    (hfg : ∀ a, Le (f a) (g a)) : Le (x >>= f) (y >>= g) := by
  rcases hxy with rfl | rfl
  · exact .inl rfl
  · cases x with
    | ok a => exact hfg a
    | fault => exact .refl _
    | timeout => exact .refl _

/-- Two runs agree on how they end, and on related values when they finish. -/
inductive Rel (R : α → β → Prop) : Run α → Run β → Prop
  | ok {a b} : R a b → Rel R (ok a) (ok b)
  | fault : Rel R fault fault
  | timeout : Rel R timeout timeout

theorem Rel.bind {α' β' : Type u} {R : α → α' → Prop} {S : β → β' → Prop}
    {x : Run α} {y : Run α'} {f : α → Run β} {g : α' → Run β'}
    (hxy : Rel R x y) (hfg : ∀ a b, R a b → Rel S (f a) (g b)) :
    Rel S (x >>= f) (y >>= g) := by
  cases hxy with
  | ok hab => exact hfg _ _ hab
  | fault => exact .fault
  | timeout => exact .timeout

/-- As `Rel.bind`, where the continuations also know the value they go on with. -/
theorem Rel.bind_of_ok {α' β' : Type u} {R : α → α' → Prop} {S : β → β' → Prop}
    {x : Run α} {y : Run α'} {f : α → Run β} {g : α' → Run β'}
    (hxy : Rel R x y) (hfg : ∀ a b, x = Run.ok a → R a b → Rel S (f a) (g b)) :
    Rel S (x >>= f) (y >>= g) := by
  cases hxy with
  | ok hab => exact hfg _ _ rfl hab
  | fault => exact .fault
  | timeout => exact .timeout

/-- What the first run is known to return can be added to the relation. -/
theorem Rel.and_ok {R : α → β → Prop} {P : α → Prop} {x : Run α} {y : Run β}
    (hxy : Rel R x y) (hP : ∀ a, x = Run.ok a → P a) : Rel (fun a b => R a b ∧ P a) x y := by
  cases hxy with
  | ok hab => exact .ok ⟨hab, hP _ rfl⟩
  | fault => exact .fault
  | timeout => exact .timeout

theorem Rel.mono {R S : α → β → Prop} {x : Run α} {y : Run β}
    (hxy : Rel R x y) (hRS : ∀ a b, R a b → S a b) : Rel S x y := by
  cases hxy with
  | ok hab => exact .ok (hRS _ _ hab)
  | fault => exact .fault
  | timeout => exact .timeout

theorem Rel.ok_left {R : α → β → Prop} {x : Run α} {y : Run β} {a : α} (hxy : Rel R x y)
    (hx : x = Run.ok a) : ∃ b, y = Run.ok b ∧ R a b := by
  cases hxy with
  | ok hab =>
      cases hx
      exact ⟨_, rfl, hab⟩
  | fault => cases hx
  | timeout => cases hx

theorem Rel.ok_right {R : α → β → Prop} {x : Run α} {y : Run β} {b : β} (hxy : Rel R x y)
    (hy : y = Run.ok b) : ∃ a, x = Run.ok a ∧ R a b := by
  cases hxy with
  | ok hab =>
      cases hy
      exact ⟨_, rfl, hab⟩
  | fault => cases hy
  | timeout => cases hy

theorem Rel.ne_fault {R : α → β → Prop} {x : Run α} {y : Run β} (hxy : Rel R x y)
    (hy : y ≠ Run.fault) : x ≠ Run.fault := by
  cases hxy with
  | ok hab => simp
  | fault => exact absurd rfl hy
  | timeout => simp

theorem Rel.eq_map {f : α → β} {x : Run α} {y : Run β} (hxy : Rel (fun a b => b = f a) x y) :
    y = f <$> x := by
  cases hxy with
  | ok hab => rw [hab, map_ok]
  | fault => rfl
  | timeout => rfl

theorem Rel.map_eq {δ : Type u} {R : α → γ → Prop} {S : β → γ → Prop} {x : Run α}
    {y : Run β} {z : Run γ} {f : α → δ} {g : β → δ} (hx : Rel R x z) (hy : Rel S y z)
    (hfg : ∀ a b c, R a c → S b c → f a = g b) : f <$> x = g <$> y := by
  cases hx with
  | ok hac =>
      cases hy with
      | ok hbc => rw [map_ok, map_ok, hfg _ _ _ hac hbc]
  | fault =>
      cases hy with
      | fault => rfl
  | timeout =>
      cases hy with
      | timeout => rfl

end Run

inductive Step (σ β : Type u) where
  | next (state : σ)
  | done (result : β)
  deriving DecidableEq, Repr

def loop {σ β : Type u} (body : σ → Run (Step σ β)) : Nat → σ → Run β
  | 0, _ => .timeout
  | fuel + 1, s =>
      match body s with
      | .ok (.next s') => loop body fuel s'
      | .ok (.done b) => .ok b
      | .fault => .fault
      | .timeout => .timeout

section Loop

variable {σ β : Type u} {body : σ → Run (Step σ β)}

theorem loop_next {s s' : σ} (h : body s = .ok (.next s')) (fuel : Nat) :
    loop body (fuel + 1) s = loop body fuel s' := by
  simp only [loop, h]

theorem loop_done {s : σ} {b : β} (h : body s = .ok (.done b)) (fuel : Nat) :
    loop body (fuel + 1) s = .ok b := by
  simp only [loop, h]

theorem loop_mono {body' : σ → Run (Step σ β)}
    (hbody : ∀ s, Run.Le (body s) (body' s)) {m n : Nat} (hmn : m ≤ n) (s : σ) :
    Run.Le (loop body m s) (loop body' n s) := by
  induction m generalizing n s with
  | zero => exact .inl rfl
  | succ m ih =>
      obtain ⟨n, rfl⟩ : ∃ k, n = k + 1 := ⟨n - 1, by omega⟩
      rcases hbody s with h | h
      · left
        simp only [loop, h]
      · cases hs : body s with
        | ok result =>
            rw [hs] at h
            cases result with
            | next s' =>
                rw [loop_next hs, loop_next h.symm]
                exact ih (by omega) s'
            | done b =>
                rw [loop_done hs, loop_done h.symm]
                exact .refl _
        | fault =>
            rw [hs] at h
            right
            simp only [loop, hs, ← h]
        | timeout =>
            left
            simp only [loop, hs]

theorem loop_rel {σ' β' : Type u} {body' : σ' → Run (Step σ' β')}
    {R : σ → σ' → Prop} {S : β → β' → Prop}
    (hbody : ∀ s s', R s s' →
      Run.Rel (fun x y =>
        (∃ a b, x = .next a ∧ y = .next b ∧ R a b) ∨
        (∃ a b, x = .done a ∧ y = .done b ∧ S a b)) (body s) (body' s'))
    (fuel : Nat) {s : σ} {s' : σ'} (h : R s s') :
    Run.Rel S (loop body fuel s) (loop body' fuel s') := by
  induction fuel generalizing s s' with
  | zero => exact .timeout
  | succ fuel ih =>
      have hstep := hbody s s' h
      simp only [loop]
      generalize body s = x at hstep
      generalize body' s' = y at hstep
      cases hstep with
      | ok hab =>
          rcases hab with ⟨a, b, rfl, rfl, hab⟩ | ⟨a, b, rfl, rfl, hab⟩
          · exact ih hab
          · exact .ok hab
      | fault => exact .fault
      | timeout => exact .timeout

theorem loop_invariant (Inv : σ → Prop) (Post : β → Prop)
    (hnext : ∀ s s', Inv s → body s = .ok (.next s') → Inv s')
    (hdone : ∀ s b, Inv s → body s = .ok (.done b) → Post b)
    {fuel : Nat} {s : σ} {b : β} (hs : Inv s) (h : loop body fuel s = .ok b) :
    Post b := by
  induction fuel generalizing s with
  | zero => simp [loop] at h
  | succ fuel ih =>
      cases hb : body s with
      | ok result =>
          cases result with
          | next s' =>
              rw [loop_next hb] at h
              exact ih (hnext s s' hs hb) h
          | done b' =>
              rw [loop_done hb] at h
              cases h
              exact hdone s b hs hb
      | fault => simp [loop, hb] at h
      | timeout => simp [loop, hb] at h

/-- A measure below the fuel that drops at every head: the loop leaves, and as `Post` says. -/
theorem loop_of_measure (Inv : σ → Prop) (Post : β → Prop) (measure : σ → Nat)
    (hstep : ∀ s, Inv s →
      (∃ b, body s = .ok (.done b) ∧ Post b) ∨
      (∃ s', body s = .ok (.next s') ∧ Inv s' ∧ measure s' < measure s))
    {fuel : Nat} {s : σ} (hs : Inv s) (hfuel : measure s < fuel) :
    ∃ b, loop body fuel s = .ok b ∧ Post b := by
  induction fuel generalizing s with
  | zero => omega
  | succ fuel ih =>
      rcases hstep s hs with ⟨b, hdone, hb⟩ | ⟨s', hnext, hs', hlt⟩
      · exact ⟨b, loop_done hdone fuel, hb⟩
      · rw [loop_next hnext]
        exact ih hs' (by omega)

end Loop

/-! ## The heads a loop passes -/

section Trail

variable {σ β : Type u} {body : σ → Run (Step σ β)}

/-- The loop states in which a body is started, oldest first. -/
def trail (body : σ → Run (Step σ β)) : Nat → σ → List σ
  | 0, _ => []
  | fuel + 1, s =>
      s :: match body s with
        | .ok (.next s') => trail body fuel s'
        | _ => []

theorem trail_next {s s' : σ} (h : body s = .ok (.next s')) (fuel : Nat) :
    trail body (fuel + 1) s = s :: trail body fuel s' := by
  simp only [trail, h]

theorem trail_done {s : σ} {b : β} (h : body s = .ok (.done b)) (fuel : Nat) :
    trail body (fuel + 1) s = [s] := by
  simp only [trail, h]

/-- An invariant that knows the heads passed so far, and what it gives at the end. -/
theorem loop_trail (Inv : List σ → σ → Prop) (Post : List σ → β → Prop)
    (hnext : ∀ hs s s', Inv hs s → body s = .ok (.next s') → Inv (hs ++ [s]) s')
    (hdone : ∀ hs s b, Inv hs s → body s = .ok (.done b) → Post (hs ++ [s]) b)
    {fuel : Nat} {s : σ} {b : β} (hs : Inv [] s) (h : loop body fuel s = .ok b) :
    Post (trail body fuel s) b := by
  suffices hgen : ∀ fuel hs s, Inv hs s → loop body fuel s = .ok b →
      Post (hs ++ trail body fuel s) b from hgen fuel [] s hs h
  clear h hs
  intro fuel
  induction fuel with
  | zero =>
      intro hs s _ h
      simp [loop] at h
  | succ fuel ih =>
      intro hs s hinv h
      cases hb : body s with
      | ok result =>
          cases result with
          | next s' =>
              rw [loop_next hb] at h
              rw [trail_next hb, ← List.singleton_append, ← List.append_assoc]
              exact ih (hs ++ [s]) s' (hnext hs s s' hinv hb) h
          | done b' =>
              rw [loop_done hb] at h
              cases h
              rw [trail_done hb]
              exact hdone hs s b hinv hb
      | fault => simp [loop, hb] at h
      | timeout => simp [loop, hb] at h

theorem trail_invariant (Inv : σ → Prop)
    (hnext : ∀ s s', Inv s → body s = .ok (.next s') → Inv s') {fuel : Nat} {s t : σ}
    (hs : Inv s) (ht : t ∈ trail body fuel s) : Inv t := by
  induction fuel generalizing s with
  | zero => cases ht
  | succ fuel ih =>
      rcases List.mem_cons.mp ht with rfl | ht
      · exact hs
      · cases hb : body s with
        | ok result =>
            rw [hb] at ht
            cases result with
            | next s' => exact ih (hnext s s' hs hb) ht
            | done b => cases ht
        | fault =>
            rw [hb] at ht
            cases ht
        | timeout =>
            rw [hb] at ht
            cases ht

theorem trail_subset {body' : σ → Run (Step σ β)}
    (hbody : ∀ s, Run.Le (body s) (body' s)) {m n : Nat} (hmn : m ≤ n) (s : σ) :
    trail body m s ⊆ trail body' n s := by
  induction m generalizing n s with
  | zero => exact List.nil_subset _
  | succ m ih =>
      obtain ⟨n, rfl⟩ : ∃ k, n = k + 1 := ⟨n - 1, by omega⟩
      refine List.cons_subset.mpr ⟨List.mem_cons_self, ?_⟩
      cases hs : body s with
      | ok result =>
          have hs' := (hbody s).eq_ok hs
          cases result with
          | next s' =>
              rw [trail_next hs']
              exact List.subset_cons_of_subset s (ih (by omega) s')
          | done b => exact List.nil_subset _
      | fault => exact List.nil_subset _
      | timeout => exact List.nil_subset _

end Trail

/-! ## Loops that iterate a function until a test holds -/

section Until

variable {σ : Type u} {f : σ → σ} {stop : σ → Prop} [DecidablePred stop]

def untilBody (f : σ → σ) (stop : σ → Prop) [DecidablePred stop] (s : σ) :
    Run (Step σ σ) :=
  .ok (if stop (f s) then .done (f s) else .next (f s))

theorem loop_until_eq_ok {fuel : Nat} {s s' : σ} :
    loop (untilBody f stop) fuel s = .ok s' ↔
      ∃ k < fuel, s' = f^[k + 1] s ∧ stop s' ∧ ∀ i < k, ¬ stop (f^[i + 1] s) := by
  induction fuel generalizing s with
  | zero => simp [loop]
  | succ fuel ih =>
      by_cases hs : stop (f s)
      · have hbody : untilBody f stop s = .ok (.done (f s)) := by rw [untilBody, if_pos hs]
        rw [loop_done hbody]
        constructor
        · intro h
          cases h
          exact ⟨0, by omega, rfl, hs, by omega⟩
        · rintro ⟨k, -, rfl, -, hbefore⟩
          cases k with
          | zero => rfl
          | succ k => exact absurd hs (hbefore 0 (by omega))
      · have hbody : untilBody f stop s = .ok (.next (f s)) := by rw [untilBody, if_neg hs]
        rw [loop_next hbody, ih]
        constructor
        · rintro ⟨k, hk, rfl, hstop, hbefore⟩
          refine ⟨k + 1, by omega, rfl, hstop, fun i hi => ?_⟩
          cases i with
          | zero => exact hs
          | succ i => exact hbefore i (by omega)
        · rintro ⟨k, hk, rfl, hstop, hbefore⟩
          cases k with
          | zero => exact absurd hstop hs
          | succ k => exact ⟨k, by omega, rfl, hstop, fun i hi => hbefore (i + 1) (by omega)⟩

theorem loop_until_ne_fault (fuel : Nat) (s : σ) :
    loop (untilBody f stop) fuel s ≠ .fault := by
  induction fuel generalizing s with
  | zero => simp [loop]
  | succ fuel ih =>
      simp only [loop, untilBody]
      split_ifs
      · simp
      · exact ih (f s)

theorem exists_loop_until {s : σ} :
    (∃ fuel s', loop (untilBody f stop) fuel s = .ok s') ↔ ∃ k, stop (f^[k + 1] s) := by
  constructor
  · rintro ⟨fuel, s', h⟩
    obtain ⟨k, -, rfl, hstop, -⟩ := loop_until_eq_ok.mp h
    exact ⟨k, hstop⟩
  · intro h
    have hmin : ∀ i < Nat.find h, ¬ stop (f^[i + 1] s) := fun i hi => Nat.find_min h hi
    exact ⟨Nat.find h + 1, _, loop_until_eq_ok.mpr
      ⟨Nat.find h, by omega, rfl, Nat.find_spec h, hmin⟩⟩

end Until

/-! ## Loops whose body itself needs fuel -/

section Fuelled

variable {σ β : Type u} {body : Nat → σ → Run (Step σ β)}

def FuelMonotone (body : Nat → σ → Run (Step σ β)) : Prop :=
  ∀ ⦃m n⦄, m ≤ n → ∀ s, Run.Le (body m s) (body n s)

def Returns (body : Nat → σ → Run (Step σ β)) (s : σ) : Prop :=
  ∃ fuel b, loop (body fuel) fuel s = .ok b

def Next (body : Nat → σ → Run (Step σ β)) (s s' : σ) : Prop :=
  ∃ fuel, body fuel s = .ok (.next s')

abbrev Heads (body : Nat → σ → Run (Step σ β)) : σ → σ → Prop :=
  Relation.ReflTransGen (Next body)

/-- With enough fuel a loop passes every head it can get to. -/
theorem exists_mem_trail (hmono : FuelMonotone body) {s t : σ} (h : Heads body s t) :
    ∃ k, ∀ m n, k ≤ m → k ≤ n → t ∈ trail (body m) n s := by
  induction h using Relation.ReflTransGen.head_induction_on with
  | refl =>
      refine ⟨1, fun m n _ hn => ?_⟩
      obtain ⟨n, rfl⟩ : ∃ k, n = k + 1 := ⟨n - 1, by omega⟩
      exact List.mem_cons_self
  | head hnext _ ih =>
      obtain ⟨l, hnext⟩ := hnext
      obtain ⟨k, hk⟩ := ih
      refine ⟨max k l + 1, fun m n hm hn => ?_⟩
      obtain ⟨n, rfl⟩ : ∃ k, n = k + 1 := ⟨n - 1, by omega⟩
      rw [trail_next ((hmono (show l ≤ m by omega) _).eq_ok hnext)]
      exact List.mem_cons_of_mem _ (hk m n (by omega) (by omega))

theorem returns_of_done {s : σ} {b : β} {fuel : Nat}
    (h : body fuel s = .ok (.done b)) (hmono : FuelMonotone body) :
    Returns body s := by
  have h' := (hmono (Nat.le_succ fuel) s).eq_ok h
  exact ⟨fuel + 1, b, loop_done h' fuel⟩

theorem returns_of_next {s s' : σ} (hmono : FuelMonotone body)
    (h : Next body s s') (hs' : Returns body s') : Returns body s := by
  obtain ⟨m, hm⟩ := h
  obtain ⟨n, b, hn⟩ := hs'
  refine ⟨max m n + 1, b, ?_⟩
  have hbody := (hmono (show m ≤ max m n + 1 by omega) s).eq_ok hm
  rw [loop_next hbody]
  exact (loop_mono (hmono (show n ≤ max m n + 1 by omega))
    (Nat.le_max_right m n) s').eq_ok hn

/-- A measure that drops at every head makes the loop leave. -/
theorem returns_of_measure (hmono : FuelMonotone body) (Inv : σ → Prop)
    (measure : σ → Nat)
    (hstep : ∀ s, Inv s →
      (∃ fuel b, body fuel s = .ok (.done b)) ∨
      (∃ s', Next body s s' ∧ Inv s' ∧ measure s' < measure s))
    {s : σ} (hs : Inv s) : Returns body s := by
  induction hn : measure s using Nat.strongRecOn generalizing s with
  | ind n ih =>
      rcases hstep s hs with ⟨fuel, b, hdone⟩ | ⟨s', hnext, hs', hlt⟩
      · exact returns_of_done hdone hmono
      · exact returns_of_next hmono hnext (ih _ (by omega) hs' rfl)

/-- A set of heads that no completed body leaves traps the loop. -/
theorem not_returns_of_trap (Inv : σ → Prop)
    (hstep : ∀ s fuel result, Inv s → body fuel s = .ok result →
      ∃ s', result = .next s' ∧ Inv s')
    {s : σ} (hs : Inv s) : ¬ Returns body s := by
  rintro ⟨fuel, b, h⟩
  refine loop_invariant Inv (fun _ => False) ?_ ?_ hs h
  · intro s s' hinv hb
    obtain ⟨t, ht, hinv'⟩ := hstep s fuel _ hinv hb
    cases ht
    exact hinv'
  · intro s b hinv hb
    obtain ⟨t, ht, _⟩ := hstep s fuel _ hinv hb
    cases ht

end Fuelled

end SE4VM.Foundation
