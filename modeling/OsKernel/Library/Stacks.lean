import Mathlib.Logic.Function.Basic
import Mathlib.Data.List.Basic
import Mathlib.Data.List.Nodup
import Mathlib.Tactic.Common

/-!
# Disjoint stacks linked through a table

A family of stacks that share no element, each read off a table of links: the link of an element
names the one below it, except at anchors, where nothing is said. Pushing an unused element and
popping the top keep both.
-/

namespace OsKernel.Library

variable {T P : Type*}

/-- No element occurs twice, in one stack or in two. -/
structure SeparateStacks (family : T → List P) : Prop where
  nodup : ∀ t, (family t).Nodup
  unique : ∀ t u x, x ∈ family t → x ∈ family u → t = u

/-- The link of each element that is no anchor is the element below it, if any. -/
def Linked (link : P → Option P) (anchor : P → Prop) : List P → Prop
  | [] => True
  | x :: rest => (anchor x ∨ link x = rest.head?) ∧ Linked link anchor rest

section Linked

variable {link link' : P → Option P} {anchor : P → Prop}

/-- Links of other elements may change. -/
theorem Linked.congr {stack : List P} (h : Linked link anchor stack)
    (hsame : ∀ x ∈ stack, link' x = link x) : Linked link' anchor stack := by
  induction stack with
  | nil => trivial
  | cons x rest ih =>
    refine ⟨?_, ih h.2 fun y hy => hsame y (List.mem_cons_of_mem x hy)⟩
    rw [hsame x List.mem_cons_self]
    exact h.1

/-- The element below one that is no anchor, found through its link. -/
theorem Linked.below {stack rest : List P} {x : P} (h : Linked link anchor (stack ++ x :: rest))
    (hanchor : ¬anchor x) : link x = rest.head? := by
  induction stack with
  | nil => exact h.1.resolve_left hanchor
  | cons y stack ih => exact ih h.2

/-- A stack with a single anchor at the bottom is linked all the way down. -/
theorem Linked.isChain {stack : List P} (h : Linked link anchor stack)
    (hanchor : ∀ x ∈ stack.dropLast, ¬anchor x) : stack.IsChain fun x y => link x = some y := by
  induction stack with
  | nil => exact List.IsChain.nil
  | cons x rest ih =>
    cases rest with
    | nil => exact List.IsChain.singleton x
    | cons y rest =>
      have hx : ¬anchor x := hanchor x (by simp)
      refine List.isChain_cons_cons.mpr ⟨h.1.resolve_left hx, ih h.2 fun z hz => hanchor z ?_⟩
      rw [List.dropLast_cons_cons]
      exact List.mem_cons_of_mem x hz

end Linked

/-- A stack without repetitions whose top is its bottom has one element. -/
theorem eq_singleton_of_head_of_last {stack : List P} {x : P} (hnodup : stack.Nodup)
    (htop : stack.head? = some x) (hbottom : stack.getLast? = some x) : stack = [x] := by
  obtain ⟨rest, rfl⟩ := List.head?_eq_some_iff.mp htop
  cases rest with
  | nil => rfl
  | cons y rest =>
    rw [List.getLast?_cons_cons] at hbottom
    exact absurd (List.mem_of_getLast? hbottom) (List.nodup_cons.mp hnodup).1

/-- An element below another is not the top of a stack without repetitions. -/
theorem head_ne_of_adjacent {above below : List P} {c p : P} (hnodup : (above ++ c :: p :: below).Nodup) :
    (above ++ c :: p :: below).head? ≠ some p := by
  intro hhead
  cases above with
  | nil =>
    cases hhead
    simp at hnodup
  | cons x above =>
    cases hhead
    simp at hnodup

/-- The element above a given one is unique in a stack without repetitions. -/
theorem above_unique {above below rest : List P} {c c' p : P} (hnodup : (above ++ c :: p :: below).Nodup)
    (h : above ++ c :: p :: below = c' :: p :: rest) : c' = c := by
  cases above with
  | nil => exact (List.cons.inj h).1.symm
  | cons x above =>
    have hrest := (List.cons.inj h).2
    rw [List.cons_append] at hnodup
    exact absurd (congrArg List.head? hrest) (head_ne_of_adjacent (List.nodup_cons.mp hnodup).2)

/-- The bottom of a stack without repetitions is not above itself. -/
theorem ne_bottom_of_mem_dropLast {stack : List P} {x b : P} (hnodup : stack.Nodup)
    (hbottom : stack.getLast? = some b) (hx : x ∈ stack.dropLast) : x ≠ b := by
  rintro rfl
  rw [← List.dropLast_append_getLast? x (Option.mem_def.mpr hbottom)] at hnodup
  exact List.disjoint_of_nodup_append hnodup hx (List.mem_singleton_self x)

section Update

variable [DecidableEq T] {family : T → List P}

/-- Membership in a family with one stack replaced. -/
theorem mem_update {t u : T} {x : P} {stack : List P} :
    x ∈ Function.update family t stack u ↔ (u = t ∧ x ∈ stack) ∨ (u ≠ t ∧ x ∈ family u) := by
  by_cases h : u = t
  · subst u
    simp
  · simp [h]

/-- Pushing an element no stack has keeps the stacks separate. -/
theorem SeparateStacks.push (h : SeparateStacks family) {t : T} {x : P} (hfresh : ∀ u, x ∉ family u) :
    SeparateStacks (Function.update family t (x :: family t)) where
  nodup u := by
    by_cases hu : u = t
    · subst u
      simpa using ⟨hfresh t, h.nodup t⟩
    · simpa [hu] using h.nodup u
  unique u v y hy hv := by
    have hold (w : T) (hw : y ∈ Function.update family t (x :: family t) w) :
        (w = t ∧ y = x) ∨ y ∈ family w := by
      rcases mem_update.mp hw with ⟨rfl, hw⟩ | ⟨-, hw⟩
      · exact (List.mem_cons.mp hw).imp (fun heq => ⟨rfl, heq⟩) id
      · exact Or.inr hw
    rcases hold u hy with ⟨hut, hux⟩ | hyu <;> rcases hold v hv with ⟨hvt, hvx⟩ | hyv
    · rw [hut, hvt]
    · exact absurd hyv (hux ▸ hfresh v)
    · exact absurd hyu (hvx ▸ hfresh u)
    · exact h.unique u v y hyu hyv

/-- Popping keeps the stacks separate. -/
theorem SeparateStacks.pop (h : SeparateStacks family) {t : T} {x : P} {rest : List P}
    (ht : family t = x :: rest) : SeparateStacks (Function.update family t rest) where
  nodup u := by
    by_cases hu : u = t
    · subst u
      have hnodup := h.nodup t
      rw [ht] at hnodup
      simpa using (List.nodup_cons.mp hnodup).2
    · simpa [hu] using h.nodup u
  unique u v y hy hv := by
    have hmem (w : T) (hw : y ∈ Function.update family t rest w) : y ∈ family w := by
      rcases mem_update.mp hw with ⟨hwt, hrest⟩ | ⟨-, hold⟩
      · rw [hwt, ht]
        exact List.mem_cons_of_mem x hrest
      · exact hold
    exact h.unique u v y (hmem u hy) (hmem v hv)

/-- A popped element is in no stack. -/
theorem SeparateStacks.not_mem_pop (h : SeparateStacks family) {t : T} {x : P} {rest : List P}
    (ht : family t = x :: rest) (u : T) : x ∉ Function.update family t rest u := by
  intro hu
  have hnodup := h.nodup t
  rw [ht] at hnodup
  rcases mem_update.mp hu with ⟨-, hrest⟩ | ⟨hne, hu⟩
  · exact (List.nodup_cons.mp hnodup).1 hrest
  · exact hne (h.unique u t x hu (by simp [ht]))

/-- Pushing keeps the bottoms of stacks that are not empty. -/
theorem bottom_push {t u : T} {x b : P} (h : (family u).getLast? = some b) :
    (Function.update family t (x :: family t) u).getLast? = some b := by
  by_cases hu : u = t
  · subst u
    rw [Function.update_self, List.getLast?_cons, h]
    rfl
  · rw [Function.update_of_ne hu, h]

/-- Popping all but the last element keeps the bottoms. -/
theorem bottom_pop {t u : T} {x y b : P} {rest : List P} (ht : family t = x :: y :: rest)
    (h : (family u).getLast? = some b) : (Function.update family t (y :: rest) u).getLast? = some b := by
  by_cases hu : u = t
  · subst u
    rw [ht, List.getLast?_cons_cons] at h
    simpa using h
  · rw [Function.update_of_ne hu, h]

end Update

end OsKernel.Library
