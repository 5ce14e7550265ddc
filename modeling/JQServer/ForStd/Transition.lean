import Mathlib.Tactic.TypeStar

/-!
# Labelled transition systems with guarded runs

A `System` computes its steps: `step s a` is `none` when the action `a` is not
enabled in `s`. `Reach C s` says that some run ends in `s` whose every step `a`
was taken in a state `t` with `C t a`; with `C` always true it is plain
reachability, and a `C` that excludes a class of steps turns "in every run whose
steps all meet the condition" into a statement about states.

`Reach.invariant` packages the induction over runs, `Reach.run_invariant` that over the
rest of a run, and `Reach.of_run` obtains a reachable state from a run that can be
computed. `Leads` says that some run gets from one state to another. `withHistory` carries
along a record of the run, for properties and conditions that look back.
-/

namespace Transition

/-- A transition system whose steps are computed. -/
structure System (σ α : Type*) where
  init : σ → Prop
  step : σ → α → Option σ

variable {σ α : Type*}

namespace System

/-- The state after a list of actions, if they are all enabled in turn. -/
def run (M : System σ α) : σ → List α → Option σ
  | s, [] => some s
  | s, a :: as => (M.step s a).bind fun s' => M.run s' as

/-- Every step of the run along the list meets `C` in the state before it. -/
def Meets (M : System σ α) (C : σ → α → Prop) : σ → List α → Prop
  | _, [] => True
  | s, a :: as => C s a ∧ ∀ s', M.step s a = some s' → M.Meets C s' as

@[simp] theorem run_nil (M : System σ α) (s : σ) : M.run s [] = some s := rfl

theorem run_cons (M : System σ α) (s : σ) (a : α) (as : List α) :
    M.run s (a :: as) = (M.step s a).bind fun s' => M.run s' as := rfl

/-- A run that succeeds takes its first step and goes on from there. -/
theorem run_cons_some {M : System σ α} {s s' : σ} {a : α} {as : List α}
    (h : M.run s (a :: as) = some s') :
    ∃ t, M.step s a = some t ∧ M.run t as = some s' :=
  Option.bind_eq_some_iff.mp h

/-- The empty run meets any condition. -/
theorem Meets.nil {M : System σ α} {C : σ → α → Prop} {s : σ} : M.Meets C s [] := trivial

/-- A run whose first step is known to lead to `t` goes on from `t`. -/
theorem Meets.cons {M : System σ α} {C : σ → α → Prop} {s t : σ} {a : α} {as : List α}
    (hs : M.step s a = some t) (hc : C s a) (h : M.Meets C t as) : M.Meets C s (a :: as) :=
  ⟨hc, fun _ hs' => Option.some.inj (hs.symm.trans hs') ▸ h⟩

/-- Running two lists of actions one after the other. -/
theorem run_append (M : System σ α) (s : σ) (as bs : List α) :
    M.run s (as ++ bs) = (M.run s as).bind fun t => M.run t bs := by
  induction as generalizing s with
  | nil => rfl
  | cons a as ih =>
    simp only [List.cons_append, run_cons]
    cases M.step s a with
    | none => rfl
    | some t => exact ih t

/-- One more step after a run. -/
theorem run_snoc {M : System σ α} {s t u : σ} {as : List α} {a : α} (h : M.run s as = some t)
    (hs : M.step t a = some u) : M.run s (as ++ [a]) = some u := by
  rw [run_append, h, Option.bind_some, run_cons, hs, Option.bind_some, run_nil]

/-- Some run whose actions all meet `P` leads from one state to another. -/
def Leads (M : System σ α) (P : α → Prop) (s s' : σ) : Prop :=
  ∃ as, (∀ a ∈ as, P a) ∧ M.run s as = some s'

theorem Leads.refl {M : System σ α} {P : α → Prop} {s : σ} : M.Leads P s s := ⟨[], nofun, rfl⟩

theorem Leads.single {M : System σ α} {P : α → Prop} {s s' : σ} {a : α} (hP : P a)
    (hs : M.step s a = some s') : M.Leads P s s' := by
  refine ⟨[a], List.forall_mem_singleton.mpr hP, ?_⟩
  rw [run_cons, hs]
  rfl

theorem Leads.trans {M : System σ α} {P : α → Prop} {s t u : σ} (h : M.Leads P s t)
    (h' : M.Leads P t u) : M.Leads P s u := by
  obtain ⟨as, has, h⟩ := h
  obtain ⟨bs, hbs, h'⟩ := h'
  refine ⟨as ++ bs, List.forall_mem_append.mpr ⟨has, hbs⟩, ?_⟩
  rw [run_append, h, Option.bind_some, h']

/-- The system together with a record of its run: it starts as `start` says, and each
    step adds to it. -/
def withHistory {η : Type*} (M : System σ α) (start : σ → η) (record : η → σ → α → σ → η) :
    System (σ × η) α where
  init p := M.init p.1 ∧ p.2 = start p.1
  step p a := (M.step p.1 a).map fun s' => (s', record p.2 p.1 a s')

/-- A step with a record is a step of the system. -/
theorem withHistory_step {η : Type*} {M : System σ α} {start : σ → η}
    {record : η → σ → α → σ → η} {p p' : σ × η} {a : α}
    (h : (M.withHistory start record).step p a = some p') :
    M.step p.1 a = some p'.1 ∧ p'.2 = record p.2 p.1 a p'.1 := by
  obtain ⟨s', hs, rfl⟩ := Option.map_eq_some_iff.mp h
  exact ⟨hs, rfl⟩

end System

/-- `s` is reached by a run from an initial state in which every step meets `C`. -/
inductive Reach (M : System σ α) (C : σ → α → Prop) : σ → Prop
  | init {s : σ} : M.init s → Reach M C s
  | step {s s' : σ} {a : α} : Reach M C s → C s a → M.step s a = some s' → Reach M C s'

/-- Reachability with no condition on the steps. -/
abbrev Reachable (M : System σ α) : σ → Prop := Reach M fun _ _ => True

variable {M : System σ α} {C D : σ → α → Prop}

/-- An invariant holds in every state reached, if it holds initially and every
    step from a reached state that meets the condition preserves it. -/
theorem Reach.invariant {I : σ → Prop} (h0 : ∀ s, M.init s → I s)
    (hstep : ∀ s a s', Reach M C s → I s → C s a → M.step s a = some s' → I s')
    {s : σ} (h : Reach M C s) : I s := by
  induction h with
  | init hi => exact h0 _ hi
  | step hr hc hs ih => exact hstep _ _ _ hr ih hc hs

/-- A run under a stronger condition is a run under a weaker one. -/
theorem Reach.mono (hCD : ∀ s a, C s a → D s a) {s : σ} (h : Reach M C s) :
    Reach M D s := by
  induction h with
  | init hi => exact .init hi
  | step _ hc hs ih => exact .step ih (hCD _ _ hc) hs

/-- Forgetting the condition. -/
theorem Reach.reachable {s : σ} (h : Reach M C s) : Reachable M s :=
  h.mono fun _ _ _ => trivial

/-- A computed run whose steps meet the condition extends reachability. -/
theorem Reach.run {s s' : σ} {as : List α} (h : Reach M C s) (hm : M.Meets C s as)
    (hr : M.run s as = some s') : Reach M C s' := by
  induction as generalizing s with
  | nil => exact Option.some.inj hr ▸ h
  | cons a as ih =>
    obtain ⟨t, hst, hrt⟩ := System.run_cons_some hr
    exact ih (.step h hm.1 hst) (hm.2 t hst) hrt

/-- What the steps of a run preserve, from the state it starts in to the one it ends in. -/
theorem Reach.run_invariant {I : σ → Prop} {P : α → Prop}
    (hstep : ∀ s a s', Reach M C s → I s → C s a → P a → M.step s a = some s' → I s')
    {s s' : σ} {as : List α} (h : Reach M C s) (hm : M.Meets C s as) (hP : ∀ a ∈ as, P a)
    (hr : M.run s as = some s') (h0 : I s) : I s' := by
  induction as generalizing s with
  | nil => exact Option.some.inj hr ▸ h0
  | cons a as ih =>
    obtain ⟨t, hst, hrt⟩ := System.run_cons_some hr
    exact ih (.step h hm.1 hst) (hm.2 t hst) (fun b hb => hP b (List.mem_cons_of_mem a hb)) hrt
      (hstep s a t h h0 hm.1 (hP a List.mem_cons_self) hst)

/-- A run with a record is a run of the system. -/
theorem Reach.forget {η : Type*} {start : σ → η} {record : η → σ → α → σ → η}
    {E : σ × η → α → Prop} {p : σ × η} (hE : ∀ p a, E p a → D p.1 a)
    (h : Reach (M.withHistory start record) E p) : Reach M D p.1 := by
  induction h with
  | init hi => exact .init hi.1
  | step _ hc hs ih => exact .step ih (hE _ _ hc) (System.withHistory_step hs).1

/-- A run meets both or neither of two conditions that agree on every step from a reachable
    state. -/
theorem Reach.meets_congr {s s' : σ} {as : List α} (h : Reachable M s)
    (hr : M.run s as = some s')
    (hCD : ∀ s a s', Reachable M s → M.step s a = some s' → (C s a ↔ D s a)) :
    M.Meets C s as ↔ M.Meets D s as := by
  induction as generalizing s with
  | nil => exact Iff.rfl
  | cons a as ih =>
    obtain ⟨t, hst, hrt⟩ := System.run_cons_some hr
    have hfirst : C s a ↔ D s a := hCD s a t h hst
    have hrest : M.Meets C t as ↔ M.Meets D t as := ih (.step h trivial hst) hrt
    constructor
    · rintro ⟨hc, hm⟩
      exact .cons hst (hfirst.mp hc) (hrest.mp (hm t hst))
    · rintro ⟨hd, hm⟩
      exact .cons hst (hfirst.mpr hd) (hrest.mpr (hm t hst))

/-- A run meets a condition that holds of its actions in every state. -/
theorem System.meets_of_mem (M : System σ α) {as : List α} (hC : ∀ a ∈ as, ∀ s, C s a) (s : σ) :
    M.Meets C s as := by
  induction as generalizing s with
  | nil => trivial
  | cons a as ih =>
    exact ⟨hC a List.mem_cons_self s,
      fun t _ => ih (fun b hb => hC b (List.mem_cons_of_mem a hb)) t⟩

/-- A computed run without a condition ends in a reachable state. -/
theorem Reachable.of_run {s s' : σ} {as : List α} (hi : M.init s)
    (hr : M.run s as = some s') : Reachable M s' :=
  Reach.run (.init hi) (M.meets_of_mem (fun _ _ _ => trivial) s) hr

end Transition
