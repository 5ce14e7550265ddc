import JQServer.ForStd.Fifo
import JQServer.ForStd.Simulation
import Mathlib.Data.List.Enum
import Mathlib.Data.List.Nodup
import Mathlib.Logic.Function.Basic

/-!
# Work queues

A `WorkQueue` is a queue with expiry and any number of workers that take its entries, run
them and let go of them, as a transition system on labelled events. It says what a job
queue is for, with no memory, locks or semaphores. An entry is numbered by those that
joined before it.

What a client may rely on is stated on the events of a run (`told`): entries are taken in
the order they joined, each at most once, and only what was taken is run, once.
-/

/-- What a worker has. -/
inductive Hold (ε : Type*) where
  | idle
  | holding (e : ε)
  | ran (e : ε)

/-- A queue and what each worker has. -/
structure WorkQueue (ε : Type*) where
  fifo : Fifo (ε × Nat)
  held : Nat → Hold (ε × Nat)

namespace WorkQueue

open Transition

variable {ε : Type*}

/-- The events. -/
inductive Event (ε : Type*) where
  /-- An entry joins. -/
  | add (e : ε)
  /-- The entries at the old end that satisfy `p` leave. -/
  | expire (p : ε × Nat → Bool)
  /-- Worker `w` takes the oldest entry, which is `e`. -/
  | take (w : Nat) (e : ε × Nat)
  /-- Worker `w` runs the entry `e` that it has taken. -/
  | run (w : Nat) (e : ε × Nat)
  /-- Worker `w` lets go of an entry it has run. -/
  | release (w : Nat)
  /-- All entries leave. -/
  | clear

/-- No entries, and nobody has one. -/
def empty : WorkQueue ε := ⟨.empty, fun _ => .idle⟩

/-- Worker `w` has `h`. -/
def hold (q : WorkQueue ε) (w : Nat) (h : Hold (ε × Nat)) : WorkQueue ε :=
  { q with held := Function.update q.held w h }

@[simp] theorem hold_fifo (q : WorkQueue ε) (w : Nat) (h : Hold (ε × Nat)) :
    (q.hold w h).fifo = q.fifo := rfl

/-- One event. -/
inductive Step (q : WorkQueue ε) : Event ε → WorkQueue ε → Prop
  | add {e : ε} : Step q (.add e) { q with fifo := q.fifo.add (e, q.fifo.entries.length) }
  | expire {p : ε × Nat → Bool} : Step q (.expire p) { q with fifo := q.fifo.expire p }
  | take {w : Nat} {e : ε × Nat} (hw : q.held w = .idle) (he : q.fifo.queue.head? = some e) :
      Step q (.take w e) ({ q with fifo := q.fifo.take }.hold w (.holding e))
  | run {w : Nat} {e : ε × Nat} (hw : q.held w = .holding e) : Step q (.run w e) (q.hold w (.ran e))
  | release {w : Nat} {e : ε × Nat} (hw : q.held w = .ran e) : Step q (.release w) (q.hold w .idle)
  | clear : Step q .clear { q with fifo := q.fifo.drop q.fifo.queue.length }

/-- An event has at most one outcome. -/
theorem Step.unique {q q₁ q₂ : WorkQueue ε} {a : Event ε} (h₁ : q.Step a q₁) (h₂ : q.Step a q₂) :
    q₁ = q₂ := by
  cases h₁ <;> cases h₂ <;> rfl

open Classical in
/-- Work queues as a transition system. -/
noncomputable def system (ε : Type*) : System (WorkQueue ε) (Event ε) where
  init q := q = .empty
  step q a := if h : ∃ q', q.Step a q' then some h.choose else none

/-- The steps of the system. -/
theorem step_iff {q q' : WorkQueue ε} {a : Event ε} :
    (system ε).step q a = some q' ↔ q.Step a q' := by
  simp only [system]
  constructor
  · intro h
    split at h
    · rename_i hex
      exact Option.some.inj h ▸ hex.choose_spec
    · exact nomatch h
  · intro h
    have hex : ∃ q', q.Step a q' := ⟨q', h⟩
    rw [dif_pos hex, hex.choose_spec.unique h]

/-- A single event as a run. -/
theorem Step.run_single {q q' : WorkQueue ε} {a : Event ε} (h : q.Step a q') :
    (system ε).run q [a] = some q' := by
  rw [System.run_cons, step_iff.mpr h]
  rfl

/-! ### What the events of a run say -/

/-- What joined. -/
def Event.added : Event ε → Option ε
  | .add e => some e
  | _ => none

/-- What was taken. -/
def Event.taken : Event ε → Option (ε × Nat)
  | .take _ e => some e
  | _ => none

/-- What was run. -/
def Event.ran : Event ε → Option (ε × Nat)
  | .run _ e => some e
  | _ => none

/-- The state after what was added, taken and run. -/
structure Told (q : WorkQueue ε) (added : List ε) (taken ran : List (ε × Nat)) : Prop where
  entries : q.fifo.entries = added.zipIdx
  removed : taken.Sublist q.fifo.removed
  subset : ran ⊆ taken
  once : ran.Nodup
  holding : ∀ w e, q.held w = .holding e → e ∈ taken ∧ e ∉ ran
  exclusive : ∀ w w' e, q.held w = .holding e → q.held w' = .holding e → w = w'

variable {q q' : WorkQueue ε} {added : List ε} {taken ran : List (ε × Nat)}

theorem told_empty : Told (.empty : WorkQueue ε) [] [] [] where
  entries := rfl
  removed := .refl []
  subset := List.Subset.refl []
  once := List.nodup_nil
  holding _ _ h := nomatch h
  exclusive _ _ _ h := nomatch h

/-- The entries have different numbers. -/
theorem Told.nodup (h : q.Told added taken ran) : q.fifo.entries.Nodup := by
  rw [h.entries]
  apply List.Nodup.of_map Prod.snd
  rw [List.zipIdx_map_snd]
  exact List.nodup_range'

/-- What is in the queue was not taken. -/
theorem Told.not_taken {e : ε × Nat} (h : q.Told added taken ran) (he : e ∈ q.fifo.queue) :
    e ∉ taken := by
  intro hmem
  have hdisjoint := (List.nodup_append.mp h.nodup).2.2
  exact hdisjoint e (h.removed.subset hmem) e he rfl

/-- Entries leave the queue and nobody takes them. -/
theorem Told.drop (h : q.Told added taken ran) (n : Nat) :
    Told { q with fifo := q.fifo.drop n } added taken ran where
  entries := by rw [Fifo.entries_drop, h.entries]
  removed := h.removed.trans (List.sublist_append_left _ _)
  subset := h.subset
  once := h.once
  holding := h.holding
  exclusive := h.exclusive

/-- A worker goes on to something that it does not hold. -/
theorem Told.move {w : Nat} {hd : Hold (ε × Nat)} (h : q.Told added taken ran)
    (hhd : ∀ e, hd ≠ .holding e) : (q.hold w hd).Told added taken ran := by
  have hheld : ∀ v e, (q.hold w hd).held v = .holding e → q.held v = .holding e := by
    intro v e hv
    by_cases hvw : v = w
    · subst hvw
      simp only [hold, Function.update_self] at hv
      exact absurd hv (hhd e)
    · simpa only [hold, Function.update_of_ne hvw] using hv
  exact {
    entries := h.entries
    removed := h.removed
    subset := h.subset
    once := h.once
    holding := fun v e hv => h.holding v e (hheld v e hv)
    exclusive := fun v v' e hv hv' => h.exclusive v v' e (hheld v e hv) (hheld v' e hv') }

/-- A worker takes the oldest entry. -/
theorem Told.take {w : Nat} {e : ε × Nat} (h : q.Told added taken ran)
    (he : q.fifo.queue.head? = some e) :
    Told ({ q with fifo := q.fifo.take }.hold w (.holding e)) added (taken ++ [e]) ran := by
  obtain ⟨es, hq⟩ : ∃ es, q.fifo.queue = e :: es := List.head?_eq_some_iff.mp he
  have hnew : e ∉ taken := h.not_taken (hq ▸ List.mem_cons_self)
  -- Nobody had this entry before
  have hheld : ∀ v e', ({ q with fifo := q.fifo.take }.hold w (.holding e)).held v = .holding e' →
      v = w ∧ e' = e ∨ v ≠ w ∧ q.held v = .holding e' := by
    intro v e' hv
    by_cases hvw : v = w
    · subst hvw
      simp only [hold, Function.update_self, Hold.holding.injEq] at hv
      exact .inl ⟨rfl, hv.symm⟩
    · simp only [hold, Function.update_of_ne hvw] at hv
      exact .inr ⟨hvw, hv⟩
  have hother : ∀ v, q.held v ≠ .holding e := fun v hv => hnew (h.holding v e hv).1
  exact {
    entries := (Fifo.entries_take q.fifo).trans h.entries
    removed := by
      show (taken ++ [e]).Sublist (q.fifo.removed ++ q.fifo.queue.take 1)
      rw [hq]
      exact h.removed.append (.refl [e])
    subset := fun x hx => List.mem_append_left _ (h.subset hx)
    once := h.once
    holding := by
      intro v e' hv
      obtain ⟨-, rfl⟩ | ⟨-, hv⟩ := hheld v e' hv
      · exact ⟨by simp, fun hran => hnew (h.subset hran)⟩
      · obtain ⟨htaken, hran⟩ := h.holding v e' hv
        exact ⟨List.mem_append_left _ htaken, hran⟩
    exclusive := by
      intro v v' e' hv hv'
      obtain ⟨rfl, rfl⟩ | ⟨-, hold⟩ := hheld v e' hv
      · obtain ⟨rfl, -⟩ | ⟨-, hold'⟩ := hheld v' _ hv'
        · rfl
        · exact absurd hold' (hother v')
      · obtain ⟨-, rfl⟩ | ⟨-, hold'⟩ := hheld v' e' hv'
        · exact absurd hold (hother v)
        · exact h.exclusive v v' e' hold hold' }

/-- A worker runs what it holds. -/
theorem Told.run {w : Nat} {e : ε × Nat} (h : q.Told added taken ran)
    (hw : q.held w = .holding e) : (q.hold w (.ran e)).Told added taken (ran ++ [e]) := by
  obtain ⟨htaken, hran⟩ := h.holding w e hw
  have hmove : (q.hold w (.ran e)).Told added taken ran := h.move nofun
  exact { hmove with
    subset := List.append_subset.mpr ⟨h.subset, by simpa using htaken⟩
    once := by
      rw [List.nodup_append]
      refine ⟨h.once, List.nodup_singleton e, ?_⟩
      intro x hx y hy hxy
      obtain rfl := List.mem_singleton.mp hy
      exact hran (hxy ▸ hx)
    holding := by
      intro v e' hv
      obtain ⟨htaken', hran'⟩ := hmove.holding v e' hv
      refine ⟨htaken', ?_⟩
      intro hmem
      obtain hmem | hmem := List.mem_append.mp hmem
      · exact hran' hmem
      · obtain rfl := List.mem_singleton.mp hmem
        -- Only `w` held the entry, and it does no longer
        by_cases hvw : v = w
        · subst hvw
          simp [hold] at hv
        · simp only [hold, Function.update_of_ne hvw] at hv
          exact hvw (h.exclusive v w _ hv hw) }

/-- One event. -/
theorem Told.step {a : Event ε} (h : q.Told added taken ran) (hs : q.Step a q') :
    q'.Told (added ++ a.added.toList) (taken ++ a.taken.toList) (ran ++ a.ran.toList) := by
  cases hs with
  | @add e =>
    simp only [Event.added, Event.taken, Event.ran, Option.toList_some, Option.toList_none,
      List.append_nil]
    exact {
      entries := by
        rw [Fifo.entries_add, h.entries, List.zipIdx_append, List.length_zipIdx, Nat.zero_add]
        rfl
      removed := h.removed
      subset := h.subset
      once := h.once
      holding := h.holding
      exclusive := h.exclusive }
  | expire =>
    simp only [Event.added, Event.taken, Event.ran, Option.toList_none, List.append_nil]
    exact h.drop _
  | take hw he =>
    simp only [Event.added, Event.taken, Event.ran, Option.toList_some, Option.toList_none,
      List.append_nil]
    exact h.take he
  | run hw =>
    simp only [Event.added, Event.taken, Event.ran, Option.toList_some, Option.toList_none,
      List.append_nil]
    exact h.run hw
  | release hw =>
    simp only [Event.added, Event.taken, Event.ran, Option.toList_none, List.append_nil]
    exact h.move nofun
  | clear =>
    simp only [Event.added, Event.taken, Event.ran, Option.toList_none, List.append_nil]
    exact h.drop _

private theorem filterMap_cons_toList {β γ : Type*} (f : β → Option γ) (a : β) (as : List β) :
    (a :: as).filterMap f = (f a).toList ++ as.filterMap f := by
  cases hf : f a with
  | none => rw [List.filterMap_cons_none hf, Option.toList_none, List.nil_append]
  | some c => rw [List.filterMap_cons_some hf, Option.toList_some, List.singleton_append]

/-- The events of a run, from a state on. -/
theorem Told.run_events {as : List (Event ε)} (h : q.Told added taken ran)
    (hr : (system ε).run q as = some q') :
    q'.Told (added ++ as.filterMap Event.added) (taken ++ as.filterMap Event.taken)
      (ran ++ as.filterMap Event.ran) := by
  induction as generalizing q added taken ran with
  | nil =>
    obtain rfl := Option.some.inj hr
    simpa using h
  | cons a as ih =>
    obtain ⟨t, hs, hr⟩ := System.run_cons_some hr
    have hnext := ih (h.step (step_iff.mp hs)) hr
    simpa only [filterMap_cons_toList, List.append_assoc] using hnext

/-- What a client may rely on: the entries are those added, numbered from 0; those taken
    have left in the order they joined; only these are run, each once. -/
theorem told {as : List (Event ε)} (hr : (system ε).run .empty as = some q) :
    q.Told (as.filterMap Event.added) (as.filterMap Event.taken) (as.filterMap Event.ran) := by
  simpa using told_empty.run_events hr

/-- Entries are taken in the order they were added, each at most once. -/
theorem taken_sublist {as : List (Event ε)} (hr : (system ε).run .empty as = some q) :
    (as.filterMap Event.taken).Sublist (as.filterMap Event.added).zipIdx := by
  have h := told hr
  rw [← h.entries]
  exact h.removed.trans (List.sublist_append_left _ _)

end WorkQueue
