import Mathlib.Data.Option.Basic
import Mathlib.Data.List.Basic
import Mathlib.Tactic.Common

/-!
# Runs of a partial step function

A step function returns `none` when the system cannot continue. A run feeds it a list of
events. The rules here transport a one-step fact to every run: a plain invariant, an
invariant that needs a condition on each step taken, the equivalence of two step conditions
along a run, and a value folded along it.
-/

namespace OsKernel.Library

variable {S E : Type*}

/-- Feed the events to the step function in order. -/
def run (step : S → E → Option S) : S → List E → Option S
  | s, [] => some s
  | s, e :: rest => (step s e).bind fun s' => run step s' rest

/-- Every step taken by the run meets the condition in the state where it is taken. -/
def Along (step : S → E → Option S) (cond : S → E → Prop) : S → List E → Prop
  | _, [] => True
  | s, e :: rest => cond s e ∧ ∀ s', step s e = some s' → Along step cond s' rest

variable {step : S → E → Option S} {cond cond' : S → E → Prop} {inv : S → Prop}

@[simp] theorem run_nil (s : S) : run step s [] = some s := rfl

/-- A nonempty run starts with one step. -/
theorem run_cons {s s' : S} {e : E} {rest : List E} :
    run step s (e :: rest) = some s' ↔ ∃ m, step s e = some m ∧ run step m rest = some s' := by
  simp only [run, Option.bind_eq_some_iff]

/-- A run over appended events is the second run after the first. -/
theorem run_append (s : S) (first second : List E) :
    run step s (first ++ second) = (run step s first).bind fun m => run step m second := by
  induction first generalizing s with
  | nil => rfl
  | cons e rest ih =>
    simp only [List.cons_append, run, Option.bind_assoc]
    congr 1
    funext m
    exact ih m

/-- Systems whose steps stay related have related runs. -/
theorem run_rel {T : Type*} {R : S → T → Prop} {step' : T → E → Option T}
    (hstep : ∀ s t, R s t → ∀ e, Option.Rel R (step s e) (step' t e)) {s : S} {t : T} (h : R s t) (events : List E) :
    Option.Rel R (run step s events) (run step' t events) := by
  induction events generalizing s t with
  | nil => exact .some h
  | cons e rest ih =>
    rw [run, run]
    have hnext := hstep s t h e
    generalize step s e = next at hnext
    generalize step' t e = next' at hnext
    cases hnext with
    | none => exact .none
    | some hrel => exact ih hrel

@[simp] theorem along_nil (s : S) : Along step cond s [] := trivial

/-- A condition along appended events holds along both parts. -/
theorem along_append {s : S} {first second : List E} :
    Along step cond s (first ++ second) ↔
      Along step cond s first ∧ ∀ m, run step s first = some m → Along step cond m second := by
  induction first generalizing s with
  | nil => simp [Along, run]
  | cons e rest ih =>
    simp only [List.cons_append, Along, run_cons]
    constructor
    · rintro ⟨hc, hrest⟩
      refine ⟨⟨hc, fun s' hs => (ih.mp (hrest s' hs)).1⟩, ?_⟩
      rintro m ⟨s', hs, hrun⟩
      exact (ih.mp (hrest s' hs)).2 m hrun
    · rintro ⟨⟨hc, hrest⟩, hlast⟩
      exact ⟨hc, fun s' hs => ih.mpr ⟨hrest s' hs, fun m hm => hlast m ⟨s', hs, hm⟩⟩⟩

/-- A condition along a run is met by its last step. -/
theorem Along.last {s m : S} {first : List E} {e : E} (hcond : Along step cond s (first ++ [e]))
    (hrun : run step s first = some m) : cond m e :=
  ((along_append.mp hcond).2 m hrun).1

/-- A run along which a condition does not hold takes a first step that breaks it. -/
theorem exists_of_not_along {s : S} {events : List E} (h : ¬Along step cond s events) :
    ∃ before e after m, events = before ++ e :: after ∧ Along step cond s before ∧ run step s before = some m ∧
      ¬cond m e := by
  induction events generalizing s with
  | nil => exact absurd trivial h
  | cons e rest ih =>
    by_cases hfirst : cond s e
    · obtain ⟨m, hm, hrest⟩ : ∃ m, step s e = some m ∧ ¬Along step cond m rest := by
        by_contra hall
        push Not at hall
        exact h ⟨hfirst, hall⟩
      obtain ⟨before, e', after, m', rfl, halong, hrun, hbroken⟩ := ih hrest
      refine ⟨e :: before, e', after, m', rfl, ⟨hfirst, fun s' hs' => ?_⟩, run_cons.mpr ⟨m, hm, hrun⟩, hbroken⟩
      obtain rfl := Option.some.inj (hm.symm.trans hs')
      exact halong
    · exact ⟨[], e, rest, s, rfl, trivial, rfl, hfirst⟩

/-- Whether a condition holds along a run can be computed. -/
instance Along.decidable [∀ s e, Decidable (cond s e)] : ∀ s events, Decidable (Along step cond s events)
  | _, [] => isTrue trivial
  | s, e :: rest =>
    match hstep : step s e with
    | none => decidable_of_iff (cond s e) (by simp [Along, hstep])
    | some s' =>
      have : Decidable (Along step cond s' rest) := Along.decidable s' rest
      decidable_of_iff (cond s e ∧ Along step cond s' rest) (by simp [Along, hstep])

/-- A run followed by one step. -/
theorem run_snoc {s s' : S} {first : List E} {e : E} :
    run step s (first ++ [e]) = some s' ↔ ∃ m, run step s first = some m ∧ step m e = some s' := by
  simp only [run_append, run, Option.bind_eq_some_iff, Option.some.injEq, exists_eq_right]

/-- A condition met in every state is met along every run. -/
theorem along_of_forall (h : ∀ s e, cond s e) (s : S) (events : List E) :
    Along step cond s events := by
  induction events generalizing s with
  | nil => trivial
  | cons e rest ih => exact ⟨h s e, fun s' _ => ih s'⟩

/-- An invariant that every conditioned step preserves holds after a conditioned run. -/
theorem run_invariant_of_along
    (hstep : ∀ s e s', inv s → cond s e → step s e = some s' → inv s')
    {s s' : S} {events : List E} (hs : inv s) (hcond : Along step cond s events)
    (hrun : run step s events = some s') : inv s' := by
  induction events generalizing s with
  | nil =>
    cases hrun
    exact hs
  | cons e rest ih =>
    obtain ⟨m, hm, hrest⟩ := run_cons.mp hrun
    exact ih (hstep s e m hs hcond.1 hm) (hcond.2 m hm) hrest

/-- An invariant that every step preserves holds after every run. -/
theorem run_invariant (hstep : ∀ s e s', inv s → step s e = some s' → inv s')
    {s s' : S} {events : List E} (hs : inv s) (hrun : run step s events = some s') : inv s' := by
  have hcond : Along step (fun _ _ => True) s events := along_of_forall (fun _ _ => trivial) s events
  exact run_invariant_of_along (fun s e s' hi _ => hstep s e s' hi) hs hcond hrun

/-- Under an invariant, one condition along a run gives any condition it implies stepwise. -/
theorem Along.imp (hstep : ∀ s e s', inv s → cond s e → step s e = some s' → inv s')
    (himp : ∀ s e, inv s → cond s e → cond' s e)
    {s : S} {events : List E} (hs : inv s) (hcond : Along step cond s events) :
    Along step cond' s events := by
  induction events generalizing s with
  | nil => trivial
  | cons e rest ih =>
    exact ⟨himp s e hs hcond.1,
      fun s' h => ih (hstep s e s' hs hcond.1 h) (hcond.2 s' h)⟩

/-- Two conditions that agree in every invariant state agree along every run, when either of
them keeps the invariant. -/
theorem along_congr (hstep : ∀ s e s', inv s → cond s e → step s e = some s' → inv s')
    (hiff : ∀ s e, inv s → (cond s e ↔ cond' s e))
    {s : S} {events : List E} (hs : inv s) :
    Along step cond s events ↔ Along step cond' s events := by
  constructor
  · exact Along.imp hstep (fun s e hi => (hiff s e hi).mp) hs
  · exact Along.imp (fun s e s' hi hc => hstep s e s' hi ((hiff s e hi).mpr hc))
      (fun s e hi => (hiff s e hi).mpr) hs

/-- With an invariant that never blocks a conditioned step, a conditioned run completes. -/
theorem run_isSome_of_along
    (hstep : ∀ s e s', inv s → cond s e → step s e = some s' → inv s')
    (hsome : ∀ s e, inv s → cond s e → (step s e).isSome)
    {s : S} {events : List E} (hs : inv s) (hcond : Along step cond s events) :
    ∃ s', run step s events = some s' ∧ inv s' := by
  induction events generalizing s with
  | nil => exact ⟨s, rfl, hs⟩
  | cons e rest ih =>
    obtain ⟨m, hm⟩ := Option.isSome_iff_exists.mp (hsome s e hs hcond.1)
    obtain ⟨s', hrun, hinv⟩ := ih (hstep s e m hs hcond.1 hm) (hcond.2 m hm)
    exact ⟨s', run_cons.mpr ⟨m, hm, hrun⟩, hinv⟩

/-- A value folded along a run, from the state and the event of each step. -/
def history {A : Type*} (step : S → E → Option S) (update : S → E → A → A) : S → A → List E → A
  | _, a, [] => a
  | s, a, e :: rest =>
    match step s e with
    | none => a
    | some s' => history step update s' (update s e a) rest

/-- What each step updates in the same way is, after a run, its folded history. -/
theorem run_history {A : Type*} {update : S → E → A → A} {view : S → A}
    (hstep : ∀ s e s', inv s → step s e = some s' → inv s')
    (hview : ∀ s e s', inv s → step s e = some s' → view s' = update s e (view s))
    {s s' : S} {events : List E} (hs : inv s) (hrun : run step s events = some s') :
    view s' = history step update s (view s) events := by
  induction events generalizing s with
  | nil =>
    cases hrun
    rfl
  | cons e rest ih =>
    obtain ⟨m, hm, hrest⟩ := run_cons.mp hrun
    rw [ih (hstep s e m hs hm) hrest, hview s e m hs hm, history, hm]

/-- When no step can fail and each keeps an invariant of the state and the folded value, every run
completes and keeps it. -/
theorem run_history_invariant {A : Type*} {update : S → E → A → A} {inv : S → A → Prop}
    (hstep : ∀ s e a, inv s a → ∃ s', step s e = some s' ∧ inv s' (update s e a))
    {s : S} {a : A} (hs : inv s a) (events : List E) :
    ∃ s', run step s events = some s' ∧ inv s' (history step update s a events) := by
  induction events generalizing s a with
  | nil => exact ⟨s, rfl, hs⟩
  | cons e rest ih =>
    obtain ⟨m, hm, hinv⟩ := hstep s e a hs
    obtain ⟨s', hrun, hlast⟩ := ih hinv
    refine ⟨s', run_cons.mpr ⟨m, hm, hrun⟩, ?_⟩
    rw [history, hm]
    exact hlast

/-- A run of total steps is a fold. -/
theorem run_some (f : S → E → S) (s : S) (events : List E) :
    run (fun s e => some (f s e)) s events = some (events.foldl f s) := by
  induction events generalizing s with
  | nil => rfl
  | cons e rest ih => exact ih (f s e)

/-- A run over images of events. -/
theorem run_map {D : Type*} (f : D → E) (s : S) (events : List D) :
    run step s (events.map f) = run (fun s d => step s (f d)) s events := by
  induction events generalizing s with
  | nil => rfl
  | cons d rest ih =>
    rw [List.map_cons, run, run]
    congr 1
    funext m
    exact ih m

/-- A run with more state shows what the run without it does, when each step shows that. -/
theorem run_view {G : Type*} {ghosted : G → E → Option G} {view : G → S}
    (hview : ∀ g e, (ghosted g e).map view = step (view g) e) (g : G) (events : List E) :
    (run ghosted g events).map view = run step (view g) events := by
  induction events generalizing g with
  | nil => rfl
  | cons e rest ih =>
    rw [run, run, ← hview g e, Option.map_bind, Option.bind_map]
    congr 1
    funext m
    exact ih m

/-- A step that simulates an abstract one where a condition holds does so along every run that meets
the condition. -/
theorem run_simulation_of_along {A : Type*} {abstract : A → E → A} {sim : S → A → Prop} {cond : A → E → Prop}
    (hstep : ∀ s a e, sim s a → cond a e → ∃ s', step s e = some s' ∧ sim s' (abstract a e))
    {s : S} {a : A} (hs : sim s a) {events : List E}
    (hcond : Along (fun a e => some (abstract a e)) cond a events) :
    ∃ s', run step s events = some s' ∧ sim s' (events.foldl abstract a) := by
  induction events generalizing s a with
  | nil => exact ⟨s, rfl, hs⟩
  | cons e rest ih =>
    obtain ⟨m, hm, hsim⟩ := hstep s a e hs hcond.1
    obtain ⟨s', hrun, hlast⟩ := ih hsim (hcond.2 _ rfl)
    exact ⟨s', run_cons.mpr ⟨m, hm, hrun⟩, hlast⟩

/-- A total step that simulates an abstract one does so along every run. -/
theorem run_simulation {A : Type*} {abstract : A → E → A} {sim : S → A → Prop}
    (hstep : ∀ s a e, sim s a → ∃ s', step s e = some s' ∧ sim s' (abstract a e))
    {s : S} {a : A} (hs : sim s a) (events : List E) :
    ∃ s', run step s events = some s' ∧ sim s' (events.foldl abstract a) :=
  run_simulation_of_along (fun s a e hsim _ => hstep s a e hsim) hs
    (along_of_forall (fun _ _ => trivial) a events)

/-- A fold of total steps keeps what each step keeps under its condition. -/
theorem foldl_invariant_of_along {A : Type*} {abstract : A → E → A} {inv : A → Prop} {cond : A → E → Prop}
    (hstep : ∀ a e, inv a → cond a e → inv (abstract a e)) {a : A} (ha : inv a) {events : List E}
    (hcond : Along (fun a e => some (abstract a e)) cond a events) : inv (events.foldl abstract a) := by
  induction events generalizing a with
  | nil => exact ha
  | cons e rest ih => exact ih (hstep a e ha hcond.1) (hcond.2 _ rfl)

end OsKernel.Library
