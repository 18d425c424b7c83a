import Mathlib.Data.Set.Basic
import Mathlib.Tactic.Common

/-!
# Programs that make calls

A program is a tree of calls: each call goes on in a way that depends on its reply. Against an environment
with one answer to each call it is run; an environment that may answer in several ways leaves it a
postcondition to ensure, whatever the answers are. Where all answers look the same from a view of the
environment, a run on the view tells what the program ensures.
-/

namespace OsKernel.Library

/-- A program that makes calls `C`, gets replies `R` and ends with an `A`; `stuck` has gone wrong. -/
inductive Dialogue (C R A : Type) where
  | done (result : A)
  | call (c : C) (next : R → Dialogue C R A)
  | stuck

namespace Dialogue

variable {C R A B S : Type}

/-- Go on with the result of a program. -/
def bind : Dialogue C R A → (A → Dialogue C R B) → Dialogue C R B
  | done a, next => next a
  | call c reply, next => call c fun r => (reply r).bind next
  | stuck, _ => stuck

instance : Monad (Dialogue C R) where
  pure := done
  bind := bind

/-- Make one call and take its reply. -/
def ask (c : C) : Dialogue C R R := call c done

/-- A value that is missing only when the program has gone wrong. -/
def expect : Option A → Dialogue C R A
  | some a => done a
  | none => stuck

/-- A loop whose body goes on with a new loop state or leaves; after `turns` turns it counts as stuck. -/
def loop (body : A → Dialogue C R (A ⊕ B)) : (turns : ℕ) → A → Dialogue C R B
  | 0, _ => stuck
  | turns + 1, a => (body a).bind fun
    | .inl a' => loop body turns a'
    | .inr b => done b

/-- Run a program against an environment that has one answer, or none, to each call. -/
def run (answer : S → C → Option (R × S)) : Dialogue C R A → S → Option (A × S)
  | done a, s => some (a, s)
  | call c next, s => (answer s c).bind fun r => run answer (next r.1) r.2
  | stuck, _ => none

/-- Whatever the replies are, the program ends, with a result and a state as wanted. -/
def Ensures (answers : S → C → Set (R × S)) : Dialogue C R A → (A → S → Prop) → S → Prop
  | done a, post, s => post a s
  | call c next, post, s =>
    (answers s c).Nonempty ∧ ∀ r ∈ answers s c, Ensures answers (next r.1) post r.2
  | stuck, _, _ => False

variable {answer : S → C → Option (R × S)} {s s' : S}

@[simp] theorem run_pure (a : A) : run answer (pure a : Dialogue C R A) s = some (a, s) := rfl

@[simp] theorem run_done (a : A) : run answer (done a : Dialogue C R A) s = some (a, s) := rfl

/-- A call on its own. -/
@[simp] theorem run_ask (c : C) : run answer (ask c) s = answer s c := by
  change ((answer s c).bind fun r => some (r.1, r.2)) = _
  cases answer s c <;> rfl

/-- An expected value is there. -/
@[simp] theorem run_expect (a : A) : run answer (expect (some a) : Dialogue C R A) s = some (a, s) := rfl

/-- A program followed by another runs the second where the first has ended. -/
@[simp] theorem run_bind (prog : Dialogue C R A) (next : A → Dialogue C R B) :
    run answer (prog >>= next) s = (run answer prog s).bind fun r => run answer (next r.1) r.2 := by
  change run answer (prog.bind next) s = _
  induction prog generalizing s with
  | done a => rfl
  | call c reply ih =>
    change ((answer s c).bind fun r => run answer ((reply r.1).bind next) r.2) = _
    rw [run, Option.bind_assoc]
    exact congrArg (Option.bind (answer s c)) (funext fun r => ih r.1)
  | stuck => rfl

/-- A loop whose turn goes on. -/
theorem run_loop_next {body : A → Dialogue C R (A ⊕ B)} {a a' : A} (turns : ℕ)
    (h : run answer (body a) s = some (.inl a', s')) :
    run answer (loop body (turns + 1) a) s = run answer (loop body turns a') s' := by
  change run answer (body a >>= _) s = _
  rw [run_bind, h]
  rfl

/-- A loop whose turn leaves it. -/
theorem run_loop_leave {body : A → Dialogue C R (A ⊕ B)} {a : A} {b : B} (turns : ℕ)
    (h : run answer (body a) s = some (.inr b, s')) :
    run answer (loop body (turns + 1) a) s = some (b, s') := by
  change run answer (body a >>= _) s = _
  rw [run_bind, h]
  rfl

/-- The rule of the loop: a turn that does not leave keeps the invariant with a smaller measure. -/
theorem run_loop (answer : S → C → Option (R × S)) {body : A → Dialogue C R (A ⊕ B)} (inv : ℕ → A → S → Prop)
    (post : B → S → Prop)
    (hturn : ∀ n a s, inv n a s → (∃ b s', run answer (body a) s = some (.inr b, s') ∧ post b s') ∨
      ∃ a' s', run answer (body a) s = some (.inl a', s') ∧ ∃ m < n, inv m a' s')
    {n turns : ℕ} {a : A} (hinv : inv n a s) (hturns : n < turns) :
    ∃ b s', run answer (loop body turns a) s = some (b, s') ∧ post b s' := by
  induction turns generalizing n a s with
  | zero => exact absurd hturns (Nat.not_lt_zero n)
  | succ turns ih =>
    rcases hturn n a s hinv with ⟨b, s', hrun, hpost⟩ | ⟨a', s', hrun, m, hm, hinv'⟩
    · exact ⟨b, s', run_loop_leave turns hrun, hpost⟩
    · obtain ⟨b, s'', hrest, hpost⟩ := ih hinv' (Nat.lt_of_lt_of_le hm (Nat.le_of_lt_succ hturns))
      exact ⟨b, s'', (run_loop_next turns hrun).trans hrest, hpost⟩

/-- When every answer to a call shows in the view as the one answer of the view, a program that ends on the
view ends so on the system, whatever the answers are. -/
theorem ensures_of_run {V : Type} {answers : S → C → Set (R × S)} {answer : V → C → Option (R × V)} {view : S → V}
    {inv : S → Prop} (hview : ∀ s c r v, inv s → answer (view s) c = some (r, v) →
      (answers s c).Nonempty ∧ ∀ q ∈ answers s c, q.1 = r ∧ view q.2 = v ∧ inv q.2)
    {prog : Dialogue C R A} {s : S} {a : A} {v : V} (hinv : inv s) (h : run answer prog (view s) = some (a, v)) :
    Ensures answers prog (fun b s' => b = a ∧ view s' = v ∧ inv s') s := by
  induction prog generalizing s with
  | done b =>
    obtain ⟨hresult, hstate⟩ := Prod.mk.inj (Option.some.inj h)
    exact ⟨hresult, hstate, hinv⟩
  | call c next ih =>
    obtain ⟨⟨r, v'⟩, hcall, hrest⟩ := Option.bind_eq_some_iff.mp h
    obtain ⟨hsome, hall⟩ := hview s c r v' hinv hcall
    refine ⟨hsome, fun q hq => ?_⟩
    obtain ⟨rfl, rfl, hinv'⟩ := hall q hq
    exact ih q.1 hinv' hrest
  | stuck => cases h

/-- A weaker postcondition is ensured. -/
theorem Ensures.mono {answers : S → C → Set (R × S)} {prog : Dialogue C R A} {post post' : A → S → Prop} {s : S}
    (h : Ensures answers prog post s) (himp : ∀ a s', post a s' → post' a s') : Ensures answers prog post' s := by
  induction prog generalizing s with
  | done a => exact himp a s h
  | call c next ih => exact ⟨h.1, fun r hr => ih r.1 (h.2 r hr)⟩
  | stuck => exact h

end Dialogue

end OsKernel.Library
