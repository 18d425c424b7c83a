import OsKernel.Library.Run
import Mathlib.Data.List.Count
import Mathlib.Data.List.Nodup

/-!
# Requests in the order of their priority

Lines raise requests that are latched until they are taken; one request is served at a time, and the next is the
first line in a fixed order that has one and that the enabled lines allow. No request is lost and none is served
twice: a line that was raised still waits or has been taken since, and it is taken no more often than it was raised.
-/

namespace OsKernel.Library

variable {L : Type*} [DecidableEq L]

/-- The latched requests, the enabled lines, the line being served and the lines taken so far. -/
structure Requests (L : Type*) where
  pending : L → Bool
  enabled : L → Bool
  serving : Option L
  taken : List L

/-- What can happen: a line is raised, enabled or disabled, the next request is taken, the one being served is
finished. -/
inductive RequestEvent (L : Type*) where
  | raise (l : L)
  | enable (l : L)
  | disable (l : L)
  | take
  | finish

namespace Requests

/-- The lines that can be taken, the next one first. -/
def queue (order : List L) (allows : (L → Bool) → L → Bool) (r : Requests L) : List L :=
  order.filter fun l => r.pending l && allows r.enabled l

/-- A request is taken. -/
def serve (r : Requests L) (l : L) : Requests L :=
  { r with pending := Function.update r.pending l false, serving := some l, taken := r.taken ++ [l] }

/-- One event. -/
def step (order : List L) (allows : (L → Bool) → L → Bool) (r : Requests L) : RequestEvent L → Option (Requests L)
  | .raise l => some { r with pending := Function.update r.pending l true }
  | .enable l => some { r with enabled := Function.update r.enabled l true }
  | .disable l => some { r with enabled := Function.update r.enabled l false }
  | .take => if r.serving.isSome then none else (r.queue order allows).head?.map r.serve
  | .finish => if r.serving.isSome then some { r with serving := none } else none

/-- Whether an event raises a line. -/
def raisesLine (l : L) : RequestEvent L → Bool
  | .raise m => m = l
  | .enable _ | .disable _ | .take | .finish => false

/-- How often a line was raised. -/
def raises (l : L) (events : List (RequestEvent L)) : ℕ := events.countP (raisesLine l)

variable {order : List L} {allows : (L → Bool) → L → Bool} {r r' : Requests L} {l : L}

/-- Without its first line the queue is the rest of it. -/
theorem queue_serve (hnodup : order.Nodup) {rest : List L} (h : r.queue order allows = l :: rest) :
    (r.serve l).queue order allows = rest := by
  have hsame : (r.serve l).queue order allows = (r.queue order allows).filter (· ≠ l) := by
    rw [queue, queue, List.filter_filter]
    refine List.filter_congr fun m _ => ?_
    by_cases hm : m = l
    · simp [serve, hm]
    · simp [serve, hm]
  have hqueue : (r.queue order allows).Nodup := hnodup.filter _
  rw [hsame, h]
  rw [h] at hqueue
  have hrest : ∀ m ∈ rest, decide (m ≠ l) = true := fun m hm =>
    decide_eq_true (fun heq => (List.nodup_cons.mp hqueue).1 (heq ▸ hm))
  rw [List.filter_cons_of_neg (by simp), List.filter_eq_self.mpr hrest]

/-- Taking the next request. -/
theorem step_take {rest : List L} (hidle : r.serving = none) (h : r.queue order allows = l :: rest) :
    step order allows r .take = some (r.serve l) := by
  rw [step, hidle, h]
  rfl

/-- As long as nothing is raised, the requests are served in the order of their lines, each of them once. -/
theorem run_serves (hnodup : order.Nodup) (hidle : r.serving = none) {n : ℕ} (hn : n ≤ (r.queue order allows).length) :
    ∃ r', run (step order allows) r (List.replicate n [RequestEvent.take, .finish]).flatten = some r' ∧
      r'.serving = none ∧ r'.taken = r.taken ++ (r.queue order allows).take n ∧
      r'.queue order allows = (r.queue order allows).drop n := by
  induction n generalizing r with
  | zero => exact ⟨r, rfl, hidle, (List.append_nil _).symm, rfl⟩
  | succ n ih =>
    obtain ⟨l, rest, hqueue⟩ := List.exists_cons_of_length_pos (Nat.lt_of_lt_of_le (Nat.succ_pos n) hn)
    rw [hqueue] at hn
    let m : Requests L := { r.serve l with serving := none }
    have hrest : m.queue order allows = rest := queue_serve hnodup hqueue
    obtain ⟨r', hrun, hidle', htaken, hleft⟩ := ih (r := m) rfl (by rw [hrest]; exact Nat.le_of_succ_le_succ hn)
    refine ⟨r', ?_, hidle', ?_, ?_⟩
    · have hfirst : run (step order allows) r [.take, .finish] = some m := by
        rw [run, step_take hidle hqueue]
        rfl
      rw [List.replicate_succ, List.flatten_cons, run_append, hfirst]
      exact hrun
    · rw [htaken, hrest, hqueue, List.take_succ_cons]
      exact List.append_assoc _ _ _
    · rw [hleft, hrest, hqueue, List.drop_succ_cons]

/-- What a step does to the requests of one line. -/
theorem step_line {e : RequestEvent L} (h : step order allows r e = some r') (l : L) :
    (∃ more, r'.taken = r.taken ++ more ∧ more.count l + (r'.pending l).toNat ≤ raises l [e] + (r.pending l).toNat ∧
      (r.pending l = true ∨ 0 < raises l [e] → r'.pending l = true ∨ l ∈ more)) := by
  cases e with
  | raise m =>
    cases h
    refine ⟨[], (List.append_nil _).symm, ?_⟩
    by_cases hm : m = l
    · subst hm
      simp [raises, raisesLine]
    · have hne : l ≠ m := fun heq => hm heq.symm
      simp [raises, raisesLine, hm, hne]
  | enable m =>
    cases h
    exact ⟨[], (List.append_nil _).symm, by simp [raises, raisesLine]⟩
  | disable m =>
    cases h
    exact ⟨[], (List.append_nil _).symm, by simp [raises, raisesLine]⟩
  | take =>
    rw [step] at h
    split at h
    · cases h
    · obtain ⟨m, hhead, rfl⟩ := Option.map_eq_some_iff.mp h
      have hmem := List.mem_filter.mp (List.mem_of_head? hhead)
      have hpending : r.pending m = true := (Bool.and_eq_true _ _ ▸ hmem.2).1
      refine ⟨[m], rfl, ?_⟩
      by_cases hm : m = l
      · subst hm
        simp [serve, raises, raisesLine, hpending]
      · have hne : l ≠ m := fun heq => hm heq.symm
        simp [serve, raises, raisesLine, hm, hne]
  | finish =>
    rw [step] at h
    split at h
    · cases h
      exact ⟨[], (List.append_nil _).symm, by simp [raises, raisesLine]⟩
    · cases h

/-- Along a run a line is taken no more often than it is raised, and what is raised waits until it is taken. -/
theorem run_line {events : List (RequestEvent L)} (h : run (step order allows) r events = some r') (l : L) :
    ∃ more, r'.taken = r.taken ++ more ∧
      more.count l + (r'.pending l).toNat ≤ raises l events + (r.pending l).toNat ∧
      (r.pending l = true ∨ 0 < raises l events → r'.pending l = true ∨ l ∈ more) := by
  induction events generalizing r with
  | nil =>
    cases h
    exact ⟨[], (List.append_nil _).symm, by simp [raises]⟩
  | cons e rest ih =>
    obtain ⟨m, hstep, hrest⟩ := run_cons.mp h
    obtain ⟨first, htaken, hcount, hfirst⟩ := step_line hstep l
    obtain ⟨more, htaken', hcount', hmore⟩ := ih hrest
    have hsplit : raises l (e :: rest) = raises l [e] + raises l rest := by
      rw [raises, raises, raises, ← List.countP_append]
      rfl
    refine ⟨first ++ more, by rw [htaken', htaken, List.append_assoc], ?_, fun hwaits => ?_⟩
    · rw [List.count_append, hsplit]
      omega
    · rw [List.mem_append]
      -- the request was made before the rest of the run, or in it
      by_cases hbefore : r.pending l = true ∨ 0 < raises l [e]
      · rcases hfirst hbefore with hpending | htaken
        · exact (hmore (.inl hpending)).imp_right .inr
        · exact .inr (.inl htaken)
      · have hlate : 0 < raises l rest := by
          rcases hwaits with hpending | hraised
          · exact absurd (.inl hpending) hbefore
          · have hnone := mt Or.inr hbefore
            omega
        exact (hmore (.inr hlate)).imp_right .inr

end Requests

end OsKernel.Library
