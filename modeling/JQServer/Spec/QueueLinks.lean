import JQServer.ForStd.Transition
import JQServer.Spec.JobQueue

/-!
# Both directions of the job queue

The operations of the pool read the queue from `tail` along `prev`. `Closed` says that the
other direction is kept as well: `next` from `head` visits the same jobs, and no pointer of
the queue refers to a freed job. `thpool_job_enqueue` and `thpool_jobqueue_removelast`
restore both directions. `delete_timeout_job` moves `tail` and nothing else, so a sweep
that deletes a job leaves its address behind, in `head` if it was the last job and else in
the `next` of the new tail (`queue_links_closed_iff`).
-/

namespace JQServer

open Transition

namespace Thpool

variable {α : Type} {s s' : Thpool α} {l : List Nat}

/-- The `next` field at an address. -/
def nextLink (s : Thpool α) (p : Nat) : Option Nat := (s.heap p).bind (·.next)

/-- The queue is linked in both directions, and no pointer of it refers to a freed job. -/
structure Closed (s : Thpool α) : Prop where
  empty : s.jobN = 0 → s.head = none ∧ s.tail = none
  linked : s.jobN ≠ 0 → ∃ l : List Nat, l.length = s.jobN ∧ l.Nodup ∧
    (∀ p ∈ l, ∃ job, s.heap p = some job) ∧
    LinkChain s.link s.tail l ∧ l.getLast? = s.head ∧
    LinkChain s.nextLink s.head l.reverse ∧ l.reverse.getLast? = s.tail
  live : ∀ l, LinkChain s.link s.tail l → ∀ p,
    (s.head = some p ∨ s.tail = some p ∨ ∃ q ∈ l, s.link q = some p ∨ s.nextLink q = some p) →
    ∃ job, s.heap p = some job

/-- The queue holds the jobs of `l` and is linked in both directions. -/
structure LinkedWf (s : Thpool α) (l : List Nat) : Prop where
  wf : s.QueueWf l
  next : LinkChain s.nextLink s.head l.reverse

/-- The queue as a transition system. -/
def queueSystem (α : Type) : System (Thpool α) (QueueOp α) where
  init s := ∃ n, s = thpoolInit n
  step s op := (s.queueStep op).map Prod.snd

/-- A sweep deletes no job: the queue is empty, or its oldest job is not overdue. -/
def SweepKeeps (s : Thpool α) : QueueOp α → Prop
  | .deleteTimeoutJob now timeOut =>
    s.jobN ≠ 0 → ∀ c job, s.tail = some c → s.heap c = some job →
      ¬ now - job.jobCreateTime > timeOut
  | _ => True

/-- The queue made by `thpool_init` is linked. -/
theorem linkedWf_init (n : Int) : (thpoolInit n : Thpool α).LinkedWf [] where
  wf := queueWf_init n
  next := rfl

/-- A linked queue is closed. -/
theorem LinkedWf.closed (h : s.LinkedWf l) : s.Closed where
  empty := by
    intro hn
    have hnil : l = [] := List.length_eq_zero_iff.mp (h.wf.length.trans hn)
    subst hnil
    exact ⟨h.next, h.wf.chain⟩
  linked := by
    intro _
    refine ⟨l, h.wf.length, h.wf.nodup, h.wf.live, h.wf.chain, ?_, h.next, ?_⟩
    · rw [h.next.head?, List.head?_reverse]
    · rw [h.wf.chain.head?, List.getLast?_reverse]
  live := by
    intro l' hl' p hp
    -- The tail leads to one list of records only
    obtain rfl := hl'.unique h.wf.chain
    refine h.wf.live p ?_
    rcases hp with hp | hp | ⟨q, hq, hp | hp⟩
    · rw [h.next.head?] at hp
      exact List.mem_reverse.mp (List.mem_of_mem_head? hp)
    · rw [h.wf.chain.head?] at hp
      exact List.mem_of_mem_head? hp
    · exact h.wf.chain.mem_of_link hq hp
    · exact List.mem_reverse.mp (h.next.mem_of_link (List.mem_reverse.mpr hq) hp)

/-! ### Enqueue and dequeue -/

/-- An enqueue links the new job to the old head in both directions. -/
theorem LinkedWf.addWork (h : s.LinkedWf l) (now : Int) (arg : α) :
    ∃ s', s.thpoolAddWork now arg = some s' ∧ s'.LinkedWf (l ++ [s.allocated]) := by
  obtain ⟨s', hs', hwf, -⟩ := h.wf.addWork now arg
  refine ⟨s', hs', hwf, ?_⟩
  rw [List.reverse_append, List.reverse_singleton, List.singleton_append]
  have hlen := h.wf.length
  have hnext := h.next
  cases hrev : l.reverse with
  | nil =>
    rw [List.reverse_eq_nil_iff.mp hrev, List.length_nil] at hlen
    simp only [thpoolAddWork, thpoolJobEnqueue, ← hlen] at hs'
    obtain rfl := Option.some.inj hs'
    refine ⟨rfl, ?_⟩
    simp only [nextLink, Function.update_self, Option.bind_some, LinkChain.nil_iff]
  | cons f r =>
    rw [hrev] at hnext
    have hmem : ∀ p ∈ f :: r, p ∈ l := fun p hp => List.mem_reverse.mp (hrev ▸ hp)
    obtain ⟨first, hf⟩ := h.wf.live f (hmem f List.mem_cons_self)
    obtain ⟨n, hn⟩ : ∃ n, s.jobN = n + 1 := by
      refine Nat.exists_eq_succ_of_ne_zero ?_
      rw [← hlen, ← List.length_reverse, hrev]
      exact Nat.succ_ne_zero _
    simp only [thpoolAddWork, thpoolJobEnqueue, hn, hnext.1, hf, Option.bind_eq_bind,
      Option.bind_some] at hs'
    obtain rfl := Option.some.inj hs'
    refine ⟨rfl, ?_⟩
    simp only [nextLink, Function.update_self, Option.bind_some]
    -- The old jobs keep their `next`
    refine LinkChain.congr (f := s.nextLink) ⟨rfl, hnext.2⟩ fun p hp => ?_
    have hpn : p ≠ s.allocated := by
      rintro rfl
      obtain ⟨job, hjob⟩ := h.wf.live _ (hmem _ hp)
      cases hjob.symm.trans (h.wf.fresh _ (Nat.le_refl _))
    simp only [nextLink, Function.update_of_ne hpn]
    by_cases hpf : p = f
    · rw [hpf, Function.update_self, hf, Option.bind_some, Option.bind_some]
    · rw [Function.update_of_ne hpf]

/-- A dequeue unlinks the oldest job in both directions. -/
theorem LinkedWf.removelast (h : s.LinkedWf l) :
    ∃ r s', s.thpoolJobqueueRemovelast = some (r, s') ∧ s'.LinkedWf l.tail := by
  have hnext := h.next
  cases l with
  | nil => exact ⟨-1, s, removelast_empty h.wf.length.symm, h⟩
  | cons c l =>
    obtain ⟨s', hs', hwf, -⟩ := h.wf.removelast
    refine ⟨0, s', hs', hwf, ?_⟩
    have hlen := h.wf.length
    cases l with
    | nil =>
      rw [List.length_cons, List.length_nil] at hlen
      simp only [thpoolJobqueueRemovelast, ← hlen, Nat.zero_add] at hs'
      obtain rfl := (Prod.mk.inj (Option.some.inj hs')).2
      rfl
    | cons q l =>
      obtain ⟨job, hjob⟩ := h.wf.live c List.mem_cons_self
      obtain ⟨prevJob, hq⟩ := h.wf.live q (List.mem_cons_of_mem c List.mem_cons_self)
      have hprev : job.prev = some q := by
        have hlink := h.wf.chain.2.1
        rwa [link, hjob, Option.bind_some] at hlink
      rw [List.length_cons, List.length_cons] at hlen
      simp only [thpoolJobqueueRemovelast, ← hlen, h.wf.chain.1, hjob, hprev, hq,
        Option.bind_eq_bind, Option.bind_some] at hs'
      obtain rfl := (Prod.mk.inj (Option.some.inj hs')).2
      -- The chain of `next` is cut behind the new tail
      simp only [List.reverse_cons, List.append_assoc, List.tail_cons] at hnext ⊢
      refine LinkChain.truncate (r := [c]) (f := s.nextLink) hnext (fun p hp => ?_) ?_
      · have hpq : p ≠ q := by
          rintro rfl
          have hnodup := (List.nodup_cons.mp h.wf.nodup).2
          exact (List.nodup_cons.mp hnodup).1 (List.mem_reverse.mp hp)
        simp only [nextLink, Function.update_of_ne hpq]
      · simp only [nextLink, Function.update_self, Option.bind_some]

/-! ### The sweep -/

/-- The loop of `delete_timeout_job`, started at the tail, frees some of the oldest jobs
    and leaves everything else on the heap, and `head`, as it is. -/
theorem QueueWf.deleteTimeoutLoop_heap (h : s.QueueWf l) (now timeOut : Int) :
    ∃ s' k, Thpool.deleteTimeoutLoop now timeOut s.jobN s.tail s = some s' ∧
      s'.QueueWf (l.drop k) ∧ s'.head = s.head ∧ (∀ p ∈ l.take k, s'.heap p = none) ∧
      ∀ p, p ∉ l.take k → s'.heap p = s.heap p := by
  induction l generalizing s with
  | nil =>
    have hn : s.jobN = 0 := h.length.symm
    rw [hn]
    exact ⟨s, 0, rfl, h, rfl, fun p hp => absurd hp List.not_mem_nil, fun _ _ => rfl⟩
  | cons c l ih =>
    obtain ⟨job, hjob⟩ := h.live c List.mem_cons_self
    rw [← h.length, h.chain.1]
    simp only [List.length_cons, Thpool.deleteTimeoutLoop_some, hjob, Option.bind_some]
    split
    · -- Overdue: freed, and the loop goes on with its `prev`
      obtain ⟨s', k, hs', hwf, hhead, hfreed, hother⟩ :=
        ih (h.removeTail (f := fun t => { t with swept := t.swept + 1 }) hjob)
      refine ⟨s', k + 1, hs', hwf, hhead, fun p hp => ?_, fun p hp => ?_⟩
      · rw [List.take_succ_cons] at hp
        by_cases hpk : p ∈ l.take k
        · exact hfreed p hpk
        · obtain rfl := (List.mem_cons.mp hp).resolve_right hpk
          rw [hother p hpk]
          simp only [release, Function.update_self]
      · rw [List.take_succ_cons, List.mem_cons, not_or] at hp
        rw [hother p hp.2]
        simp only [release, count, Function.update_of_ne hp.1]
    -- The oldest is not overdue: nothing is freed
    · exact ⟨s, 0, rfl, h, rfl, fun p hp => absurd hp List.not_mem_nil, fun _ _ => rfl⟩

/-- A sweep of a queue whose oldest job is overdue frees that one, and some that follow. -/
private theorem QueueWf.sweep_deletes {c : Nat} {job : ThpoolJob α} {now timeOut : Int}
    (h : s.QueueWf (c :: l)) (hjob : s.heap c = some job)
    (hexp : now - job.jobCreateTime > timeOut) :
    ∃ s' k, s.deleteTimeoutJob s.tail now timeOut = some s' ∧ s'.QueueWf (l.drop k) ∧
      s'.head = s.head ∧ (∀ p ∈ c :: l.take k, s'.heap p = none) ∧
      ∀ p, p ∉ c :: l.take k → s'.heap p = s.heap p := by
  obtain ⟨s', k, hs', hwf, hhead, hfreed, hother⟩ :=
    (h.removeTail (f := fun t => { t with swept := t.swept + 1 }) hjob).deleteTimeoutLoop_heap
      now timeOut
  refine ⟨s', k, ?_, hwf, hhead, fun p hp => ?_, fun p hp => ?_⟩
  · rw [deleteTimeoutJob, ← h.length, h.chain.1]
    simp only [List.length_cons, Thpool.deleteTimeoutLoop_some, hjob, Option.bind_some, if_pos hexp]
    exact hs'
  · by_cases hpk : p ∈ l.take k
    · exact hfreed p hpk
    · obtain rfl := (List.mem_cons.mp hp).resolve_right hpk
      rw [hother p hpk]
      simp only [release, Function.update_self]
  · rw [List.mem_cons, not_or] at hp
    rw [hother p hp.2]
    simp only [release, count, Function.update_of_ne hp.1]

/-- A sweep that deletes a job leaves its address in `head` or in a `next`. -/
private theorem LinkedWf.sweep_leaves_dangling {c : Nat} {job : ThpoolJob α} {now timeOut : Int}
    (h : s.LinkedWf (c :: l)) (hjob : s.heap c = some job)
    (hexp : now - job.jobCreateTime > timeOut) :
    ∃ s', s.deleteTimeoutJob s.tail now timeOut = some s' ∧ ¬ s'.Closed := by
  obtain ⟨s', k, hs', hwf, hhead, hfreed, hother⟩ := h.wf.sweep_deletes hjob hexp
  refine ⟨s', hs', fun hclosed => ?_⟩
  have hsplit : (c :: l.take k) ++ l.drop k = c :: l := by
    rw [List.cons_append, List.take_append_drop]
  cases hleft : l.drop k with
  | nil =>
    -- Everything is deleted, and `head` is the youngest of the freed jobs
    rw [hleft] at hwf
    have hnone := (hclosed.empty hwf.length.symm).1
    rw [hhead, h.next.head?, List.head?_reverse] at hnone
    exact absurd (List.getLast?_eq_none_iff.mp hnone) (List.cons_ne_nil c l)
  | cons q r =>
    -- The new tail is linked to the youngest of the freed jobs
    obtain ⟨pre, d, hpre⟩ : ∃ pre d, c :: l.take k = pre ++ [d] :=
      ⟨_, _, (List.dropLast_append_getLast (List.cons_ne_nil c (l.take k))).symm⟩
    have hnodup := h.wf.nodup
    have hnext := h.next
    rw [← hsplit, hleft] at hnodup hnext
    have hqd : q ∉ c :: l.take k := by
      intro hq
      exact (List.nodup_append.mp hnodup).2.2 q hq q List.mem_cons_self rfl
    rw [hpre] at hnext
    have hlink : s.nextLink q = some d := by
      refine LinkChain.link_eq (l := r.reverse) (r := pre.reverse) (p := s.head) ?_
      simpa only [List.reverse_append, List.reverse_cons, List.reverse_nil, List.nil_append,
        List.append_assoc, List.singleton_append, List.cons_append] using hnext
    have hlink' : s'.nextLink q = some d := by
      rwa [nextLink, hother q hqd]
    have hdead : s'.heap d = none := hfreed d (by rw [hpre]; exact List.mem_append_cons_self)
    obtain ⟨job', hjob'⟩ := hclosed.live _ hwf.chain d
      (.inr (.inr ⟨q, hleft ▸ List.mem_cons_self, .inr hlink'⟩))
    cases hdead.symm.trans hjob'

/-- A sweep that deletes no job changes nothing. -/
private theorem LinkedWf.sweep_keeps {now timeOut : Int} (h : s.LinkedWf l)
    (hkeep : s.SweepKeeps (.deleteTimeoutJob now timeOut)) :
    s.deleteTimeoutJob s.tail now timeOut = some s := by
  have hlen := h.wf.length
  cases l with
  | nil =>
    rw [deleteTimeoutJob, ← hlen]
    rfl
  | cons c l =>
    obtain ⟨job, hjob⟩ := h.wf.live c List.mem_cons_self
    have hnot := hkeep (by rw [← hlen]; exact Nat.succ_ne_zero _) c job h.wf.chain.1 hjob
    rw [deleteTimeoutJob, ← hlen, h.wf.chain.1]
    simp only [List.length_cons, Thpool.deleteTimeoutLoop_some, hjob, Option.bind_some, if_neg hnot]

/-! ### Sequences of operations -/

/-- An operation that deletes no job keeps both directions. -/
theorem LinkedWf.step (h : s.LinkedWf l) {op : QueueOp α} (hkeep : s.SweepKeeps op) :
    ∃ s' l', (queueSystem α).step s op = some s' ∧ s'.LinkedWf l' := by
  cases op with
  | addWork now arg =>
    obtain ⟨s', hs', hwf⟩ := h.addWork now arg
    exact ⟨s', _, by simp [queueSystem, queueStep, hs'], hwf⟩
  | dequeue =>
    obtain ⟨r, s', hs', hwf⟩ := h.removelast
    exact ⟨s', _, by simp [queueSystem, queueStep, hs'], hwf⟩
  | deleteTimeoutJob now timeOut =>
    exact ⟨s, l, by simp [queueSystem, queueStep, h.sweep_keeps hkeep], h⟩

/-- A sweep that deletes a job does not. -/
theorem LinkedWf.step_fails (h : s.LinkedWf l) {op : QueueOp α} (hdel : ¬ s.SweepKeeps op) :
    ∃ s', (queueSystem α).step s op = some s' ∧ ¬ s'.Closed := by
  cases op with
  | addWork now arg => exact absurd trivial hdel
  | dequeue => exact absurd trivial hdel
  | deleteTimeoutJob now timeOut =>
    simp only [SweepKeeps, not_forall, not_not] at hdel
    obtain ⟨hn, c, job, htail, hjob, hexp⟩ := hdel
    cases l with
    | nil => exact absurd h.wf.length.symm hn
    | cons c' l =>
      obtain rfl : c' = c := Option.some.inj (h.wf.chain.1.symm.trans htail)
      obtain ⟨s', hs', hopen⟩ := h.sweep_leaves_dangling hjob hexp
      exact ⟨s', by simp [queueSystem, queueStep, hs'], hopen⟩

/-- From a linked queue, the states along a run are closed exactly if no sweep in it
    deletes a job. -/
theorem LinkedWf.closed_iff (h : s.LinkedWf l) (ops : List (QueueOp α)) :
    (∀ k t, (queueSystem α).run s (ops.take k) = some t → t.Closed) ↔
      (queueSystem α).Meets SweepKeeps s ops := by
  induction ops generalizing s l with
  | nil =>
    refine iff_of_true (fun k t ht => ?_) trivial
    rw [List.take_nil] at ht
    obtain rfl := Option.some.inj ht
    exact h.closed
  | cons op ops ih =>
    by_cases hkeep : s.SweepKeeps op
    · obtain ⟨s', l', hs', hwf⟩ := h.step hkeep
      constructor
      · intro hall
        refine System.Meets.cons hs' hkeep ((ih hwf).mp fun k t ht => hall (k + 1) t ?_)
        rw [List.take_succ_cons, System.run_cons, hs', Option.bind_some]
        exact ht
      · intro hmeets k t ht
        cases k with
        | zero =>
          obtain rfl := Option.some.inj ht
          exact h.closed
        | succ k =>
          rw [List.take_succ_cons, System.run_cons, hs', Option.bind_some] at ht
          exact (ih hwf).mpr (hmeets.2 s' hs') k t ht
    -- The state after this operation is not closed
    · obtain ⟨s', hs', hopen⟩ := h.step_fails hkeep
      refine iff_of_false (fun hall => hopen (hall 1 s' ?_)) fun hmeets => hkeep hmeets.1
      rw [List.take_succ_cons, List.take_zero, System.run_cons, hs', Option.bind_some,
        System.run_nil]

/-- The queue made by `thpool_init` is closed after every operation of a sequence exactly
    if no sweep of the sequence deletes a job. -/
theorem queue_links_closed_iff (n : Int) (ops : List (QueueOp α)) :
    (∀ k t, (queueSystem α).run (thpoolInit n) (ops.take k) = some t → t.Closed) ↔
      (queueSystem α).Meets SweepKeeps (thpoolInit n) ops :=
  (linkedWf_init n).closed_iff ops

/-- One job is added and deleted by a sweep 100 seconds later: `head` still refers to it. -/
theorem queue_links_dangling :
    ¬ ∀ (ops : List (QueueOp Nat)) (t : Thpool Nat),
      (queueSystem Nat).run (thpoolInit 15) ops = some t → t.Closed := by
  intro h
  have hhead := ((h [.addWork 0 7, .deleteTimeoutJob 100 60] _ rfl).empty rfl).1
  exact absurd hhead (by decide)

end Thpool

end JQServer
