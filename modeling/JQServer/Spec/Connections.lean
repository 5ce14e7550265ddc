import JQServer.Spec.ServerMoves
import Mathlib.Data.List.Count

/-!
# The life of a connection

A connection is open while a descriptor denotes it. `accept` numbers connections in
order, a descriptor that is open is not handed out again, and `closesocket` is the only
call that ends a connection: so a connection has at most one descriptor, and it is
closed at most once.
-/

namespace JQServer

/-- The effect is the closing of connection `c`. -/
def Effect.closes (c : Nat) : Effect → Bool
  | .closed _ actual | .acceptClosed _ actual => actual = some c
  | _ => false

namespace Server

variable {s s' : Server}

/-- How often connection `c` was closed. -/
def closings (s : Server) (c : Nat) : Nat := s.effects.countP (Effect.closes c)

/-- What a step does to the open descriptors: nothing, or it opens one for the next
    connection, or it closes one. -/
theorem step_fds {a : Action} (h : s.step a = some s') :
    (s'.fds = s.fds ∧ s'.conns = s.conns ∧ ∀ c, s'.closings c = s.closings c) ∨
    (∃ fd, s.fds fd = none ∧ s'.fds = Function.update s.fds fd (some s.conns) ∧
      s'.conns = s.conns + 1 ∧ s'.effects = s.effects) ∨
    (∃ fd, s'.fds = Function.update s.fds fd none ∧ s'.conns = s.conns ∧
      ∀ c, s'.closings c = s.closings c + if s.fds fd = some c then 1 else 0) := by
  -- Either thread counts a close of the connection that the descriptor denotes
  have hclose : ∀ (t : Server) fd e, (∀ c x, (e x).closes c = decide (x = some c)) → ∀ c,
      (t.closesocket fd e).closings c = t.closings c + if t.fds fd = some c then 1 else 0 := by
    intro t fd e he c
    simp only [closings, closesocket, List.countP_cons, he, decide_eq_true_eq]
  rcases (step_moves h).2 with hm | hm | hm
  · cases hm with
    | @accept p hpc hfd hfree => exact .inr (.inl ⟨p.fd, hfree, rfl, rfl, rfl⟩)
    | @closeFailed c slot hpc =>
      refine .inr (.inr ⟨c.fd, rfl, rfl, hclose s c.fd _ fun _ _ => rfl⟩)
    | _ => exact .inl ⟨rfl, rfl, fun _ => rfl⟩
  · cases hm with
    | @op op ops _ ho hop =>
      cases hop with
      | @close fd conn =>
        exact .inr (.inr ⟨fd, rfl, rfl, hclose { s with ops := ops } fd _ fun _ _ => rfl⟩)
      | _ => exact .inl ⟨rfl, rfl, fun _ => rfl⟩
    | _ => exact .inl ⟨rfl, rfl, fun _ => rfl⟩
  · refine .inl ⟨hm.sameNet.fds, hm.sameNet.conns, fun c => ?_⟩
    have hcons : ∀ e : Effect, e.closes c = false →
        (e :: s.effects).countP (Effect.closes c) = s.effects.countP (Effect.closes c) := by
      intro e he
      simp only [List.countP_cons, he, Bool.false_eq_true, ↓reduceIte, Nat.add_zero]
    cases hm with
    | copy | sent => exact hcons _ rfl
    | @handshake w arg index =>
      cases index with
      | none => rfl
      | some i => exact hcons _ rfl
    | _ => rfl

/-- Connections are numbered in order, each has one descriptor at most and is closed once
    at most. -/
structure LifeInv (s : Server) : Prop where
  issued : ∀ fd c, s.fds fd = some c → c < s.conns
  injective : ∀ fd fd' c, s.fds fd = some c → s.fds fd' = some c → fd = fd'
  opened : ∀ fd c, s.fds fd = some c → s.closings c = 0
  fresh : ∀ c, s.conns ≤ c → s.closings c = 0
  once : ∀ c, s.closings c ≤ 1

/-- It holds at the start. -/
theorem lifeInv_start (t n : Int) : (start t n).LifeInv where
  issued := nofun
  injective := nofun
  opened := nofun
  fresh _ _ := rfl
  once _ := Nat.zero_le 1

/-- Every step keeps it. -/
theorem LifeInv.step {a : Action} (h : s.LifeInv) (hs : s.step a = some s') : s'.LifeInv := by
  rcases step_fds hs with ⟨hfds, hconns, hc⟩ | ⟨fd, hfree, hfds, hconns, heff⟩ |
    ⟨fd, hfds, hconns, hc⟩
  · -- Nothing is opened or closed
    refine ⟨?_, ?_, ?_, ?_, ?_⟩
    · rw [hfds, hconns]; exact h.issued
    · rw [hfds]; exact h.injective
    · rw [hfds]; exact fun fd c hfd => (hc c).trans (h.opened fd c hfd)
    · rw [hconns]; exact fun c hle => (hc c).trans (h.fresh c hle)
    · exact fun c => (hc c).symm ▸ h.once c
  · -- A descriptor is opened for a connection with a new number
    have hcl : ∀ c, s'.closings c = s.closings c := fun c => by rw [closings, heff, closings]
    have hcases : ∀ fd' c, s'.fds fd' = some c →
        (fd' = fd ∧ c = s.conns) ∨ (s.fds fd' = some c ∧ c < s.conns) := by
      intro fd' c hfd'
      rw [hfds] at hfd'
      by_cases heq : fd' = fd
      · rw [heq, Function.update_self, Option.some.injEq] at hfd'
        exact .inl ⟨heq, hfd'.symm⟩
      · rw [Function.update_of_ne heq] at hfd'
        exact .inr ⟨hfd', h.issued fd' c hfd'⟩
    refine ⟨fun fd' c hfd' => ?_, fun f f' c hf hf' => ?_, fun fd' c hfd' => ?_, fun c hle => ?_,
      fun c => ?_⟩
    · rcases hcases fd' c hfd' with ⟨-, rfl⟩ | ⟨-, hlt⟩ <;> omega
    · rcases hcases f c hf with ⟨rfl, rfl⟩ | ⟨hf, hlt⟩
      · rcases hcases f' s.conns hf' with ⟨rfl, -⟩ | ⟨-, hlt⟩
        · rfl
        · omega
      · rcases hcases f' c hf' with ⟨-, rfl⟩ | ⟨hf', -⟩
        · omega
        · exact h.injective f f' c hf hf'
    · rw [hcl]
      rcases hcases fd' c hfd' with ⟨-, rfl⟩ | ⟨hfd', -⟩
      · exact h.fresh _ (Nat.le_refl _)
      · exact h.opened fd' c hfd'
    · rw [hcl]
      exact h.fresh c (by omega)
    · rw [hcl]
      exact h.once c
  · -- A descriptor is closed, and its connection has no other one
    have hcases : ∀ fd' c, s'.fds fd' = some c → fd' ≠ fd ∧ s.fds fd' = some c := by
      intro fd' c hfd'
      rw [hfds] at hfd'
      by_cases heq : fd' = fd
      · rw [heq, Function.update_self] at hfd'
        cases hfd'
      · rw [Function.update_of_ne heq] at hfd'
        exact ⟨heq, hfd'⟩
    have hother : ∀ c, s.fds fd ≠ some c → s'.closings c = s.closings c := by
      intro c hne
      rw [hc, if_neg hne, Nat.add_zero]
    refine ⟨fun fd' c hfd' => ?_, fun f f' c hf hf' => ?_, fun fd' c hfd' => ?_, fun c hle => ?_,
      fun c => ?_⟩
    · rw [hconns]
      exact h.issued fd' c (hcases fd' c hfd').2
    · exact h.injective f f' c (hcases f c hf).2 (hcases f' c hf').2
    · obtain ⟨hne, hfd'⟩ := hcases fd' c hfd'
      rw [hother c fun hfd => hne (h.injective fd' fd c hfd' hfd)]
      exact h.opened fd' c hfd'
    · rw [hconns] at hle
      rw [hother c fun hfd => absurd (h.issued fd c hfd) (by omega)]
      exact h.fresh c hle
    · by_cases hfd : s.fds fd = some c
      · rw [hc, if_pos hfd, h.opened fd c hfd]
      · rw [hother c hfd]
        exact h.once c

/-- It holds in every state of every run. -/
theorem lifeInv_of_reach {C : Server → Action → Prop} (h : Transition.Reach system C s) :
    s.LifeInv := by
  refine h.invariant ?_ fun s a s' _ hinv _ hs => hinv.step hs
  rintro s ⟨t, n, rfl⟩
  exact lifeInv_start t n

/-- A connection that was closed is not open. -/
theorem LifeInv.closed_not_open {c : Nat} (h : s.LifeInv) (hc : s.closings c ≠ 0) (fd : Int) :
    s.fds fd ≠ some c :=
  fun hfd => hc (h.opened fd c hfd)

end Server

end JQServer
