import JQServer.ForStd.Transition
import Mathlib.Data.List.Induction

/-!
# Forward simulation with stuttering

A system `N` says what a system `M` is for. Every step of `M` is matched by a run of `N`:
`image s a` are the actions of `N` that the step `a` of `M` from `s` stands for, none if the
step is internal. `Simulation.run` lifts the match of one step to runs, so that what is
proved of the runs of `N` holds of the `trace` of every run of `M`. `Simulation.comp` puts
two levels together, when the upper one is found in the state of the lower one.
-/

namespace Transition

variable {σ τ υ α β γ : Type*}

namespace System

/-- What a run does, in the actions of another system. -/
def trace (M : System σ α) (image : σ → α → List β) : σ → List α → List β
  | _, [] => []
  | s, a :: as => image s a ++ (M.step s a).elim [] fun s' => M.trace image s' as

variable {M : System σ α} {image : σ → α → List β}

@[simp] theorem trace_nil (s : σ) : M.trace image s [] = [] := rfl

/-- The trace of a run that takes its first step. -/
theorem trace_cons {s t : σ} {a : α} {as : List α} (hs : M.step s a = some t) :
    M.trace image s (a :: as) = image s a ++ M.trace image t as := by
  rw [trace, hs]
  rfl

/-- The trace of a single step. -/
theorem trace_singleton (s : σ) (a : α) : M.trace image s [a] = image s a := by
  cases hs : M.step s a with
  | none => rw [trace, hs, Option.elim_none, List.append_nil]
  | some t => rw [trace_cons hs, trace_nil, List.append_nil]

/-- Some of what a run does. -/
theorem trace_filterMap (f : β → Option γ) (s : σ) (as : List α) :
    M.trace (fun s a => (image s a).filterMap f) s as = (M.trace image s as).filterMap f := by
  induction as generalizing s with
  | nil => rfl
  | cons a as ih =>
    cases hs : M.step s a with
    | none =>
      simp only [trace, hs, Option.elim_none, List.append_nil]
    | some t => rw [trace_cons hs, trace_cons hs, ih, List.filterMap_append]

/-- The trace of two runs one after the other. -/
theorem trace_append {s t : σ} {as : List α} (bs : List α) (hr : M.run s as = some t) :
    M.trace image s (as ++ bs) = M.trace image s as ++ M.trace image t bs := by
  induction as generalizing s with
  | nil =>
    obtain rfl := Option.some.inj hr
    rfl
  | cons a as ih =>
    obtain ⟨u, hs, hr⟩ := run_cons_some hr
    rw [List.cons_append, trace_cons hs, trace_cons hs, ih hr, List.append_assoc]

/-- The conditions on two runs one after the other. -/
theorem Meets.append {C : σ → α → Prop} {s t : σ} {as bs : List α} (h : M.Meets C s as)
    (hr : M.run s as = some t) (h' : M.Meets C t bs) : M.Meets C s (as ++ bs) := by
  induction as generalizing s with
  | nil =>
    obtain rfl := Option.some.inj hr
    exact h'
  | cons a as ih =>
    obtain ⟨u, hs, hr⟩ := run_cons_some hr
    exact .cons hs h.1 (ih (h.2 u hs) hr)

/-- A run that meets a condition, without its last step. -/
theorem Meets.of_snoc {C : σ → α → Prop} {s : σ} {as : List α} {a : α}
    (h : M.Meets C s (as ++ [a])) : M.Meets C s as ∧ ∀ t, M.run s as = some t → C t a := by
  induction as generalizing s with
  | nil =>
    refine ⟨trivial, fun t ht => ?_⟩
    obtain rfl := Option.some.inj ht
    exact h.1
  | cons b as ih =>
    refine ⟨⟨h.1, fun u hu => (ih (h.2 u hu)).1⟩, fun t ht => ?_⟩
    obtain ⟨u, hu, ht⟩ := run_cons_some ht
    exact (ih (h.2 u hu)).2 t ht

/-- The trace of a run with one more step. -/
theorem trace_snoc {s t u : σ} {as : List α} {a : α} (hr : M.run s as = some t)
    (hs : M.step t a = some u) : M.trace image s (as ++ [a]) = M.trace image s as ++ image t a := by
  rw [trace_append _ hr, trace_cons hs, trace_nil, List.append_nil]

/-- Induction over the runs from a state, by their last step. -/
theorem run_induction {C : σ → α → Prop} {s₀ : σ} {P : List α → σ → Prop} (h0 : P [] s₀)
    (hstep : ∀ as s a s', M.Meets C s₀ as → M.run s₀ as = some s → P as s → C s a →
      M.step s a = some s' → P (as ++ [a]) s')
    {as : List α} {s : σ} (hm : M.Meets C s₀ as) (hr : M.run s₀ as = some s) : P as s := by
  induction as using List.reverseRecOn generalizing s with
  | nil =>
    obtain rfl := Option.some.inj hr
    exact h0
  | append_singleton as a ih =>
    rw [run_append] at hr
    obtain ⟨t, ht, hr⟩ := Option.bind_eq_some_iff.mp hr
    obtain ⟨u, hu, hr⟩ := run_cons_some hr
    obtain rfl := Option.some.inj hr
    obtain ⟨hm, hlast⟩ := Meets.of_snoc hm
    exact hstep as t a u hm ht (ih hm ht) (hlast t ht) hu

end System

/-- Every step of `M` that meets `C` is matched by a run of `N` that meets `D`, as long as
    their states are related by `R`. -/
structure Simulation (M : System σ α) (C : σ → α → Prop) (N : System τ β)
    (D : τ → β → Prop) (image : σ → α → List β) (R : σ → τ → Prop) : Prop where
  init : ∀ s, M.init s → ∃ t, N.init t ∧ R s t
  step : ∀ s a s' t, Reach M C s → C s a → M.step s a = some s' → R s t →
    ∃ t', N.run t (image s a) = some t' ∧ N.Meets D t (image s a) ∧ R s' t'

namespace Simulation

variable {M : System σ α} {N : System τ β} {L : System υ γ} {C : σ → α → Prop}
  {D : τ → β → Prop} {E : υ → γ → Prop} {image : σ → α → List β} {R : σ → τ → Prop}

/-- A run of `M` is matched by the run of `N` along its trace. -/
theorem run (h : Simulation M C N D image R) {s s' : σ} {t : τ} {as : List α}
    (hreach : Reach M C s) (hm : M.Meets C s as) (hr : M.run s as = some s') (hR : R s t) :
    ∃ t', N.run t (M.trace image s as) = some t' ∧ N.Meets D t (M.trace image s as) ∧
      R s' t' := by
  induction as generalizing s t with
  | nil =>
    obtain rfl := Option.some.inj hr
    exact ⟨t, rfl, trivial, hR⟩
  | cons a as ih =>
    obtain ⟨u, hs, hr⟩ := System.run_cons_some hr
    obtain ⟨v, hv, hvm, hRv⟩ := h.step s a u t hreach hm.1 hs hR
    obtain ⟨t', ht', htm, hR'⟩ := ih (.step hreach hm.1 hs) (hm.2 u hs) hr hRv
    refine ⟨t', ?_, ?_, hR'⟩
    · rw [System.trace_cons hs, System.run_append, hv]
      exact ht'
    · rw [System.trace_cons hs]
      exact hvm.append hv htm

/-- The same for a run from the start. -/
theorem run_init (h : Simulation M C N D image R) {s s' : σ} {as : List α} (hi : M.init s)
    (hm : M.Meets C s as) (hr : M.run s as = some s') :
    ∃ t t', N.init t ∧ R s t ∧ N.run t (M.trace image s as) = some t' ∧
      N.Meets D t (M.trace image s as) ∧ R s' t' := by
  obtain ⟨t, ht, hR⟩ := h.init s hi
  obtain ⟨t', hr', hm', hR'⟩ := h.run (.init hi) hm hr hR
  exact ⟨t, t', ht, hR, hr', hm', hR'⟩

/-- Every state of `M` is related to a state that `N` reaches. -/
theorem reach (h : Simulation M C N D image R) {s : σ} (hs : Reach M C s) :
    ∃ t, Reach N D t ∧ R s t := by
  induction hs with
  | init hi =>
    obtain ⟨t, ht, hR⟩ := h.init _ hi
    exact ⟨t, .init ht, hR⟩
  | step hreach hc hstep ih =>
    obtain ⟨t, ht, hR⟩ := ih
    obtain ⟨t', hr, hm, hR'⟩ := h.step _ _ _ t hreach hc hstep hR
    exact ⟨t', ht.run hm hr, hR'⟩

/-- Two levels: the state of `N` is a part `π s` of the state of `M`, and `L` simulates `N`. -/
theorem comp {π : σ → τ} {image' : τ → β → List γ} {R' : τ → υ → Prop}
    (h : Simulation M C N D image fun s t => t = π s) (h' : Simulation N D L E image' R') :
    Simulation M C L E (fun s a => N.trace image' (π s) (image s a)) fun s u => R' (π s) u where
  init s hi := by
    obtain ⟨t, ht, rfl⟩ := h.init s hi
    exact h'.init (π s) ht
  step s a s' u hreach hc hs hR := by
    obtain ⟨t, ht, rfl⟩ := h.reach hreach
    obtain ⟨t', hr, hm, rfl⟩ := h.step s a s' (π s) hreach hc hs rfl
    exact h'.run ht hm hr hR

end Simulation

end Transition
