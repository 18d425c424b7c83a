import OsKernel.Library.Run

/-!
# Runs with one party's steps removed

A run is compared with the run from which the steps of a hidden party are removed. When hidden steps
keep the two states in agreement, and a visible step taken on both sides does too, they agree after
both runs.
-/

namespace OsKernel.Library

variable {S P E : Type*}

/-- The events without those of the hidden party. -/
def purge (hidden : E → Bool) (events : List E) : List E := events.filter fun e => !hidden e

variable {step : S → E → Option S} {purged : P → E → Option P} {cond : S → E → Prop} {hidden : E → Bool}
  {agree : S → P → Prop}

/-- A hidden event is removed. -/
theorem purge_cons_hidden {e : E} (he : hidden e = true) (rest : List E) :
    purge hidden (e :: rest) = purge hidden rest := by
  simp [purge, he]

/-- A visible event stays. -/
theorem purge_cons_visible {e : E} (he : hidden e = false) (rest : List E) :
    purge hidden (e :: rest) = e :: purge hidden rest := by
  simp [purge, he]

/-- Agreement is kept along a run and its purged run, when each step of the run meets a condition. -/
theorem run_purge
    (hhidden : ∀ s p e s', agree s p → cond s e → hidden e = true → step s e = some s' → agree s' p)
    (hvisible : ∀ s p e s', agree s p → cond s e → hidden e = false → step s e = some s' →
      ∃ p', purged p e = some p' ∧ agree s' p')
    {s s' : S} {p : P} {events : List E} (hagree : agree s p) (hcond : Along step cond s events)
    (hrun : run step s events = some s') :
    ∃ p', run purged p (purge hidden events) = some p' ∧ agree s' p' := by
  induction events generalizing s p with
  | nil =>
    cases hrun
    exact ⟨p, rfl, hagree⟩
  | cons e rest ih =>
    obtain ⟨m, hm, hrest⟩ := run_cons.mp hrun
    cases he : hidden e with
    | true =>
      rw [purge_cons_hidden he]
      exact ih (hhidden s p e m hagree hcond.1 he hm) (hcond.2 m hm) hrest
    | false =>
      obtain ⟨q, hq, hnext⟩ := hvisible s p e m hagree hcond.1 he hm
      obtain ⟨p', hrun', hlast⟩ := ih hnext (hcond.2 m hm) hrest
      rw [purge_cons_visible he]
      exact ⟨p', run_cons.mpr ⟨q, hq, hrun'⟩, hlast⟩

end OsKernel.Library
