import JQServer.Spec.QueueLinks

/-!
# What the timeout sweep removes

`delete_timeout_job` starts at the oldest job and stops at the first that is not overdue.
The time of a job is read before it is enqueued, and nothing but the event loop enqueues,
so with a clock that does not go back the times along the queue are sorted: the jobs it
stops before are exactly the overdue ones. Dequeues and earlier sweeps take jobs off the
old end and leave the rest sorted.
-/

namespace JQServer

/-- The reading of the clock that an operation makes. -/
def Thpool.QueueOp.time {α : Type} : QueueOp α → Option Int
  | .addWork now _ | .deleteTimeoutJob now _ => some now
  | .dequeue => none

namespace Thpool

variable {α : Type} {s s' : Thpool α} {l : List ((α × Int) × Nat)}

/-- The linked queue holds the entries of `l`, oldest first. -/
structure Queues (s : Thpool α) (l : List ((α × Int) × Nat)) : Prop where
  chain : LinkChain s.link s.tail (l.map Prod.snd)
  length : l.length = s.jobN
  entries : ∀ e ∈ l, s.entry e.2 = some e

/-- A sweep of the queue `l` that returns `deleteNumber`: exactly the overdue jobs are
    freed, the others stay in order, and their number goes down by what is returned. -/
structure SweepsOverdue (s s' : Thpool α) (l : List ((α × Int) × Nat)) (now timeOut : Int)
    (deleteNumber : Nat) : Prop where
  kept : s'.Queues (l.filter fun e => !overdue now timeOut e)
  freed : ∀ e ∈ l, overdue now timeOut e = true → s'.heap e.2 = none
  number : deleteNumber = (l.filter (overdue now timeOut)).length
  jobN : s'.jobN + deleteNumber = s.jobN

/-- `delete_number` counts the jobs that are removed. -/
theorem deleteNumberLoop_eq {now timeOut : Int} {n : Nat} {cur : Option Nat}
    (h : deleteTimeoutLoop now timeOut n cur s = some s') (hn : s.jobN = n) (k : Nat) :
    deleteNumberLoop now timeOut n cur k s = some (k + (n - s'.jobN), s') ∧ s'.jobN ≤ n := by
  induction n generalizing s cur k with
  | zero =>
    obtain rfl := Option.some.inj h
    refine ⟨?_, Nat.le_of_eq hn⟩
    rw [deleteNumberLoop, Nat.zero_sub, Nat.add_zero]
  | succ n ih =>
    cases cur with
    | none =>
      obtain rfl := Option.some.inj h
      refine ⟨?_, Nat.le_of_eq hn⟩
      rw [deleteNumberLoop, hn, Nat.sub_self, Nat.add_zero]
    | some c =>
      rw [deleteTimeoutLoop_some] at h
      obtain ⟨job, hjob, h⟩ := Option.bind_eq_some_iff.mp h
      simp only [deleteNumberLoop, hjob, Option.bind_eq_bind, Option.bind_some]
      split at h
      · rename_i hexp
        -- A job is overdue: it is removed, and the rest is counted from `k + 1` on
        obtain ⟨heq, hle⟩ := ih h rfl (k + 1)
        rw [if_pos hexp, heq]
        refine ⟨?_, Nat.le_succ_of_le hle⟩
        congr 2
        omega
      · rename_i hexp
        obtain rfl := Option.some.inj h
        rw [if_neg hexp, hn, Nat.sub_self, Nat.add_zero]
        exact ⟨rfl, Nat.le_refl _⟩

/-! ### The queue is sorted by time -/

/-- The times of the jobs that are added are among the readings of the clock. -/
private theorem inserted_times_sublist (ops : List (QueueOp α)) :
    ((ops.filterMap QueueOp.inserted).map Prod.snd).Sublist (ops.filterMap QueueOp.time) := by
  induction ops with
  | nil => exact List.Sublist.slnil
  | cons op ops ih =>
    cases op with
    | addWork now arg =>
      simp only [List.filterMap_cons, QueueOp.inserted, QueueOp.time, List.map_cons]
      exact ih.cons_cons now
    | dequeue =>
      simp only [List.filterMap_cons, QueueOp.inserted, QueueOp.time]
      exact ih
    | deleteTimeoutJob now timeOut =>
      simp only [List.filterMap_cons, QueueOp.inserted, QueueOp.time]
      exact ih.cons now

/-- With a clock that does not go back, the queue is sorted by time. -/
theorem fifoRun_sorted {ops : List (QueueOp α)}
    (hclock : (ops.filterMap QueueOp.time).Pairwise (· ≤ ·)) :
    (fifoRun .empty ops).2.queue.Pairwise fun a b => a.1.2 ≤ b.1.2 := by
  have hentries : (fifoRun .empty ops).2.removed ++ (fifoRun .empty ops).2.queue =
      (ops.filterMap QueueOp.inserted).zipIdx := by
    have h := fifoRun_entries .empty ops
    rwa [Fifo.entries_empty, List.nil_append] at h
  have hall : ((ops.filterMap QueueOp.inserted).zipIdx.map fun e => e.1.2).Pairwise (· ≤ ·) := by
    have hmap : (ops.filterMap QueueOp.inserted).zipIdx.map (fun e => e.1.2) =
        (ops.filterMap QueueOp.inserted).map Prod.snd := by
      rw [← List.zipIdx_map_fst 0 (ops.filterMap QueueOp.inserted), List.map_map,
        List.zipIdx_map_fst]
      rfl
    rw [hmap]
    exact hclock.sublist (inserted_times_sublist ops)
  -- What is queued is the end of what was inserted
  rw [List.pairwise_map, ← hentries] at hall
  exact (List.pairwise_append.mp hall).2.1

/-! ### The sweep -/

/-- The sweep of a sorted queue. -/
theorem Represents.sweepsOverdue {q : Fifo ((α × Int) × Nat)} (h : s.Represents q)
    (hsorted : q.queue.Pairwise fun a b => a.1.2 ≤ b.1.2) (now timeOut : Int) :
    ∃ deleteNumber s', s.deleteTimeoutJobNumber s.tail now timeOut = some (deleteNumber, s') ∧
      s.SweepsOverdue s' q.queue now timeOut deleteNumber := by
  obtain ⟨s', hs', hrep⟩ := h.deleteTimeoutLoop now timeOut
  obtain ⟨hnumber, hle⟩ := deleteNumberLoop_eq hs' rfl 0
  -- An overdue job has only overdue jobs in front of it
  obtain ⟨hqueue, hexpired⟩ := Fifo.expire_eq_filter (q := q) (p := overdue now timeOut)
    (hsorted.imp fun hab hb => by
      simp only [overdue, decide_eq_true_eq] at hb ⊢
      omega)
  have hkept : s'.Queues (q.queue.filter fun e => !overdue now timeOut e) := by
    rw [← hqueue]
    exact ⟨hrep.wf.chain, by rw [← hrep.wf.length, List.length_map], hrep.entries⟩
  have hlen : q.queue.length = s.jobN := by rw [← h.wf.length, List.length_map]
  have hsplit : (q.queue.filter (overdue now timeOut)).length +
      (q.queue.filter fun e => !overdue now timeOut e).length = q.queue.length :=
    (List.length_eq_length_filter_add _).symm
  have hleft := hkept.length
  refine ⟨_, s', hnumber, hkept, fun e he hover => ?_, by omega, by omega⟩
  -- What is not on the chain any more was freed
  obtain ⟨t, k, ht, hwf, -, hfreed, -⟩ := h.wf.deleteTimeoutLoop_heap now timeOut
  obtain rfl := Option.some.inj (hs'.symm.trans ht)
  have haddr : (q.queue.map Prod.snd).drop k =
      (q.queue.filter fun e => !overdue now timeOut e).map Prod.snd :=
    hwf.chain.unique hkept.chain
  have hmem : e.2 ∈ (q.queue.map Prod.snd).take k ++ (q.queue.map Prod.snd).drop k := by
    rw [List.take_append_drop]
    exact List.mem_map_of_mem he
  rcases List.mem_append.mp hmem with hmem | hmem
  · exact hfreed e.2 hmem
  · rw [haddr] at hmem
    obtain ⟨e', he', haddr'⟩ := List.mem_map.mp hmem
    obtain ⟨hq', hnot⟩ := List.mem_filter.mp he'
    have hsame : e' = e := by
      have hentry := h.entries e' hq'
      rw [haddr', h.entries e he] at hentry
      exact (Option.some.inj hentry).symm
    rw [hsame, hover] at hnot
    cases hnot

/-- After any sequence of operations whose readings of the clock do not go back, a sweep
    removes exactly the overdue jobs, wherever they are, and returns their number. -/
theorem delete_timeout_job_removes_overdue (n : Int) {ops : List (QueueOp α)}
    (hclock : (ops.filterMap QueueOp.time).Pairwise (· ≤ ·)) (now timeOut : Int) :
    ∃ rs s l deleteNumber s', (thpoolInit n).queueRun ops = some (rs, s) ∧ s.Queues l ∧
      s.deleteTimeoutJobNumber s.tail now timeOut = some (deleteNumber, s') ∧
      s.SweepsOverdue s' l now timeOut deleteNumber := by
  have hinit : (thpoolInit n : Thpool α).Represents .empty :=
    ⟨queueWf_init n, fun e he => absurd he List.not_mem_nil, rfl⟩
  obtain ⟨s, hs, hrep⟩ := hinit.run ops
  obtain ⟨deleteNumber, s', hs', hsweep⟩ := hrep.sweepsOverdue (fifoRun_sorted hclock) now timeOut
  refine ⟨_, s, _, deleteNumber, s', hs, ?_, hs', hsweep⟩
  exact ⟨hrep.wf.chain, by rw [← hrep.wf.length, List.length_map], hrep.entries⟩

/-- Three jobs, the oldest dequeued; of the two others one is 61 seconds old. -/
theorem delete_timeout_job_one_of_two :
    ∃ rs s l deleteNumber s', (thpoolInit 15 : Thpool Nat).queueRun
        [.addWork 0 7, .addWork 39 8, .dequeue, .deleteTimeoutJob 40 60, .addWork 99 9] =
          some (rs, s) ∧ s.Queues l ∧
      s.deleteTimeoutJobNumber s.tail 100 60 = some (deleteNumber, s') ∧
      s.SweepsOverdue s' l 100 60 deleteNumber :=
  delete_timeout_job_removes_overdue 15 (by decide) 100 60

end Thpool

end JQServer
