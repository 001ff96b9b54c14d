import SE4VM.E1000.Migration

/-!
# The link across a migration

`link_down` and the auto-negotiation timer are not saved.  `e1000_post_load`
infers both from `STATUS`, `PHY_CTRL` and `PHY_STATUS`, which is right unless the
guest or a save has changed the PHY bits while the timer is pending.
-/

namespace SE4VM.E1000

open SE4VM.Foundation

/--
The backend's link state is the same after the migration, and a negotiation that
was running towards a live backend is running again.
-/
def LinkSurvives (w : World) (down : Bool) : Prop :=
  (migrate w down).dev.linkDown = w.dev.linkDown ∧
    (w.dev.autonegTimer = true → w.dev.linkDown = false →
      (migrate w down).dev.autonegTimer = true)

instance (w : World) (down : Bool) : Decidable (LinkSurvives w down) :=
  inferInstanceAs (Decidable (_ ∧ _))

/--
The link survives just in case the PHY registers still show the negotiation that
is running towards a live backend.
-/
theorem linkSurvives_iff {w : World} (hw : Reachable w)
    (hflag : test w.dev.compatFlags e1000FlagAutoneg = true) (down : Bool) :
    LinkSurvives w down ↔
      (w.dev.autonegTimer = true → w.dev.linkDown = false →
        autonegPending w.dev = true ∧
          test (w.dev.phyReg Phy.status) miiSrAutonegComplete = false) := by
  obtain ⟨hlink, htimer⟩ := migrate_link hw down
  have hresumes : resumes w.dev = true ↔ autonegPending w.dev = true ∧
      test (w.dev.phyReg Phy.status) miiSrAutonegComplete = false := by
    simp [resumes, hflag]
  obtain ⟨hdown, hneg⟩ := hw.linkInv
  rw [LinkSurvives, hlink, htimer, ← hresumes]
  generalize resumes w.dev = r at *
  generalize w.dev.linkDown = d at *
  generalize w.dev.linkUp = u at *
  generalize w.dev.autonegTimer = t at *
  -- Four bits, of which the invariant excludes some combinations.
  revert hdown hneg
  clear hlink htimer hresumes
  revert r d u t
  decide

/-- A negotiation that the guest has just restarted goes on after the migration. -/
theorem linkSurvives_restarted :
    ∃ w, Reachable w ∧ w.dev.autonegTimer = true ∧ w.dev.linkDown = false ∧
      LinkSurvives w true := by
  have hrun : afterSetup 3 false Memory.blank [.mmioWrite 0x20 0x04201200]
      (fun w => test w.dev.compatFlags e1000FlagAutoneg && w.dev.autonegTimer &&
        !w.dev.linkDown && autonegPending w.dev &&
        !test (w.dev.phyReg Phy.status) miiSrAutonegComplete) = .ok true := by
    decide +kernel
  obtain ⟨w, hw, h⟩ := exists_reachable_of_afterSetup hrun
  simp only [Bool.and_eq_true, Bool.not_eq_true'] at h
  obtain ⟨⟨⟨⟨hflag, htimer⟩, hdown⟩, hpending⟩, hdone⟩ := h
  exact ⟨w, hw, htimer, hdown,
    (linkSurvives_iff hw hflag true).mpr fun _ _ => ⟨hpending, hdone⟩⟩

/--
The guest rewrites `PHY_CTRL` while the negotiation is pending: the copy has a
dead backend and no timer.  A save completes the negotiation while the backend is
down, and the backend comes up before the timer fires: the copy has no timer.
-/
theorem not_linkSurvives :
    (∃ w, Reachable w ∧ test w.dev.compatFlags e1000FlagAutoneg = true ∧
      (migrate w false).dev.linkDown ≠ w.dev.linkDown ∧ ¬ LinkSurvives w false) ∧
    (∃ w, Reachable w ∧ test w.dev.compatFlags e1000FlagAutoneg = true ∧
      w.dev.autonegTimer = true ∧ w.dev.linkDown = false ∧
      (migrate w false).dev.autonegTimer = false ∧ ¬ LinkSurvives w false) := by
  constructor
  · have hrun : afterSetup 3 false Memory.blank
        [.mmioWrite 0x20 0x04201200, .mmioWrite 0x20 0x04201140]
        (fun w => test w.dev.compatFlags e1000FlagAutoneg &&
          decide ((migrate w false).dev.linkDown ≠ w.dev.linkDown)) = .ok true := by
      decide +kernel
    obtain ⟨w, hw, h⟩ := exists_reachable_of_afterSetup hrun
    simp only [Bool.and_eq_true, decide_eq_true_eq] at h
    exact ⟨w, hw, h.1, h.2, fun hs => h.2 hs.1⟩
  · have hrun : afterSetup 3 true Memory.blank
        [.mmioWrite 0x20 0x04201200, .preSave, .linkStatus false]
        (fun w => test w.dev.compatFlags e1000FlagAutoneg && w.dev.autonegTimer &&
          !w.dev.linkDown && !(migrate w false).dev.autonegTimer) = .ok true := by
      decide +kernel
    obtain ⟨w, hw, h⟩ := exists_reachable_of_afterSetup hrun
    simp only [Bool.and_eq_true, Bool.not_eq_true'] at h
    obtain ⟨⟨⟨hflag, htimer⟩, hdown⟩, hlost⟩ := h
    refine ⟨w, hw, hflag, htimer, hdown, hlost, fun hs => ?_⟩
    rw [hs.2 htimer hdown] at hlost
    cases hlost

end SE4VM.E1000
