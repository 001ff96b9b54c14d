import SE4VM.Foundation.Run
import Mathlib.Data.List.Infix

/-!
# Output that may break, input that is consumed

A writer is described by the list of everything it has been given and not lost, a
reader by the list of everything it still has to give.  `Appends` says what one
operation adds to a writer, `Reads` what one operation takes from a reader, and
`Faults` that an operation breaks on the way.  All of them compose, so that code
above them can be followed on lists alone.
-/

namespace SE4VM.Foundation

universe u

/-! ## Writers -/

section Writers

variable {σ : Type u} {α : Type u} {den : σ → List α} {broken : σ → Prop} {s s' s'' : σ}
  {xs ys : List α}

/-- From `s` to `s'` a writer is given `xs`; once broken it takes nothing any more. -/
structure Appends (den : σ → List α) (broken : σ → Prop) (xs : List α) (s s' : σ) : Prop where
  whole : ¬ broken s' → ¬ broken s ∧ den s' = den s ++ xs
  cut : den s' <+: den s ++ xs
  stuck : broken s → den s' <+: den s

namespace Appends

theorem of_same (hbroken : broken s → broken s') (hden : den s' = den s) :
    Appends den broken [] s s' where
  whole h := ⟨fun hs => h (hbroken hs), by rw [hden, List.append_nil]⟩
  cut := by rw [hden, List.append_nil]
  stuck _ := by rw [hden]

theorem refl (s : σ) : Appends den broken [] s s := of_same id rfl

theorem of_broken (h : broken s') (hden : den s' <+: den s) : Appends den broken xs s s' where
  whole hs := absurd h hs
  cut := hden.trans (List.prefix_append _ _)
  stuck _ := hden

theorem of_eq (h : ¬ broken s) (hden : den s' = den s ++ xs) : Appends den broken xs s s' where
  whole _ := ⟨h, hden⟩
  cut := by rw [hden]
  stuck hs := absurd hs h

theorem trans (h : Appends den broken xs s s') (h' : Appends den broken ys s' s'') :
    Appends den broken (xs ++ ys) s s'' where
  whole hs := by
    obtain ⟨hmid, hden'⟩ := h'.whole hs
    obtain ⟨hstart, hden⟩ := h.whole hmid
    exact ⟨hstart, by rw [hden', hden, List.append_assoc]⟩
  cut := by
    by_cases hmid : broken s'
    · rw [← List.append_assoc]
      exact ((h'.stuck hmid).trans h.cut).trans (List.prefix_append _ _)
    · rw [← List.append_assoc, ← (h.whole hmid).2]
      exact h'.cut
  stuck hs := by
    by_cases hmid : broken s'
    · exact (h'.stuck hmid).trans (h.stuck hs)
    · exact absurd hs (h.whole hmid).1

end Appends

end Writers

/-! ## Readers -/

section Readers

variable {σ : Type u} {α β γ : Type u} {content : σ → List α} {inv : σ → Prop}

/-- A reader that has `xs` and then `rest` to give is asked for just `xs`, and answers `b`. -/
def Reads (content : σ → List α) (inv : σ → Prop) (p : StateT σ Run β) (xs rest : List α)
    (b : β) : Prop :=
  ∀ s, inv s → content s = xs ++ rest → ∃ s', p s = .ok (b, s') ∧ inv s' ∧ content s' = rest

namespace Reads

theorem pure (rest : List α) (b : β) :
    Reads content inv (Pure.pure b : StateT σ Run β) [] rest b :=
  fun s hs h => ⟨s, rfl, hs, h⟩

theorem lift {x : Run β} {b : β} (h : x = .ok b) (rest : List α) :
    Reads content inv (StateT.lift x : StateT σ Run β) [] rest b := by
  subst h
  exact fun s hs hcontent => ⟨s, rfl, hs, hcontent⟩

theorem bind {p : StateT σ Run β} {q : β → StateT σ Run γ} {xs ys rest : List α} {b : β} {c : γ}
    (hp : Reads content inv p xs (ys ++ rest) b) (hq : Reads content inv (q b) ys rest c) :
    Reads content inv (p >>= q) (xs ++ ys) rest c := by
  intro s hs h
  rw [List.append_assoc] at h
  obtain ⟨s₁, hp₁, hs₁, hrest⟩ := hp s hs h
  obtain ⟨s₂, hq₂, hs₂, hlast⟩ := hq s₁ hs₁ hrest
  refine ⟨s₂, ?_, hs₂, hlast⟩
  show (p s >>= fun r => q r.1 r.2) = _
  rw [hp₁, Run.ok_bind, hq₂]

end Reads

/-- A reader that has `xs` and then `rest` to give faults on the way through `xs`. -/
def Faults (content : σ → List α) (inv : σ → Prop) (p : StateT σ Run β) (xs rest : List α) :
    Prop :=
  ∀ s, inv s → content s = xs ++ rest → p s = .fault

namespace Faults

theorem lift {x : Run β} (h : x = .fault) (rest : List α) :
    Faults content inv (StateT.lift x : StateT σ Run β) [] rest := by
  subst h
  exact fun _ _ _ => rfl

theorem bind {p : StateT σ Run β} {xs rest : List α} (hp : Faults content inv p xs rest)
    (q : β → StateT σ Run γ) : Faults content inv (p >>= q) xs rest := by
  intro s hs h
  show (p s >>= fun r => q r.1 r.2) = _
  rw [hp s hs h]
  rfl

theorem of_append {p : StateT σ Run β} {xs ys rest : List α}
    (hp : Faults content inv p xs (ys ++ rest)) : Faults content inv p (xs ++ ys) rest :=
  fun s hs h => hp s hs (by rw [h, List.append_assoc])

end Faults

theorem Reads.bind_faults {p : StateT σ Run β} {q : β → StateT σ Run γ} {xs ys rest : List α}
    {b : β} (hp : Reads content inv p xs (ys ++ rest) b) (hq : Faults content inv (q b) ys rest) :
    Faults content inv (p >>= q) (xs ++ ys) rest := by
  intro s hs h
  rw [List.append_assoc] at h
  obtain ⟨s₁, hp₁, hs₁, hrest⟩ := hp s hs h
  show (p s >>= fun r => q r.1 r.2) = _
  rw [hp₁, Run.ok_bind, hq s₁ hs₁ hrest]

/-- A loop whose body reads. -/
def readLoop (body : β → StateT σ Run (Step β γ)) : Nat → β → StateT σ Run γ
  | 0, _ => fun _ => .timeout
  | fuel + 1, b => do
      match ← body b with
      | .next b' => readLoop body fuel b'
      | .done c => Pure.pure c

theorem readLoop_next {body : β → StateT σ Run (Step β γ)} {b b' : β} {s s' : σ}
    (h : body b s = .ok (.next b', s')) (fuel : Nat) :
    readLoop body (fuel + 1) b s = readLoop body fuel b' s' := by
  show (body b s >>= _) = _
  rw [h]
  rfl

theorem readLoop_done {body : β → StateT σ Run (Step β γ)} {b : β} {c : γ} {s s' : σ}
    (h : body b s = .ok (.done c, s')) (fuel : Nat) :
    readLoop body (fuel + 1) b s = .ok (c, s') := by
  show (body b s >>= _) = _
  rw [h]
  rfl

namespace Reads

variable {body : β → StateT σ Run (Step β γ)} {xs ys rest : List α} {b b' : β} {c : γ}

theorem loop_next {fuel : Nat} (hnext : Reads content inv (body b) xs (ys ++ rest) (.next b'))
    (hloop : Reads content inv (readLoop body fuel b') ys rest c) :
    Reads content inv (readLoop body (fuel + 1) b) (xs ++ ys) rest c :=
  hnext.bind hloop

theorem loop_done (hdone : Reads content inv (body b) xs rest (.done c)) (fuel : Nat) :
    Reads content inv (readLoop body (fuel + 1) b) xs rest c := by
  rw [← List.append_nil xs]
  exact hdone.bind (.pure rest c)

end Reads

end Readers

end SE4VM.Foundation
