import Mathlib.Data.List.Basic

/-!
# Queues with expiry

`Fifo ε` is a queue, oldest entry first, together with what has left it. Entries join
at the young end; they leave at the old end, one by one (`take`) or all up to the
first that is not expired (`expire`), which are all that are expired if the queue is
sorted (`expire_eq_filter`). `entries` is everything that ever joined: no
operation but `add` changes it, so nothing is lost, doubled or put out of order.
-/

/-- A queue, oldest entry first, and what has left it, in the order of leaving. -/
structure Fifo (ε : Type*) where
  removed : List ε
  queue : List ε

namespace Fifo

variable {ε : Type*}

/-- The empty queue. -/
def empty : Fifo ε := ⟨[], []⟩

/-- Everything that ever joined. -/
def entries (q : Fifo ε) : List ε := q.removed ++ q.queue

/-- An entry joins. -/
def add (q : Fifo ε) (e : ε) : Fifo ε := ⟨q.removed, q.queue ++ [e]⟩

/-- The `n` oldest entries leave. -/
def drop (q : Fifo ε) (n : Nat) : Fifo ε := ⟨q.removed ++ q.queue.take n, q.queue.drop n⟩

/-- The oldest entry leaves. -/
def take (q : Fifo ε) : Fifo ε := q.drop 1

/-- How many entries are expired with all that are older. -/
def expired (q : Fifo ε) (p : ε → Bool) : Nat := (q.queue.takeWhile p).length

/-- The expired entries at the old end leave. -/
def expire (q : Fifo ε) (p : ε → Bool) : Fifo ε := q.drop (q.expired p)

@[simp] theorem entries_empty : (empty : Fifo ε).entries = [] := rfl

@[simp] theorem entries_add (q : Fifo ε) (e : ε) : (q.add e).entries = q.entries ++ [e] := by
  simp only [entries, add, List.append_assoc]

@[simp] theorem entries_drop (q : Fifo ε) (n : Nat) : (q.drop n).entries = q.entries := by
  simp only [entries, drop, List.append_assoc, List.take_append_drop]

@[simp] theorem entries_take (q : Fifo ε) : q.take.entries = q.entries := entries_drop q 1

@[simp] theorem entries_expire (q : Fifo ε) (p : ε → Bool) : (q.expire p).entries = q.entries :=
  entries_drop q _

/-- Nothing leaves if the oldest entry is not expired. -/
theorem expired_of_not {q : Fifo ε} {p : ε → Bool} {e : ε} {es : List ε} (hq : q.queue = e :: es)
    (hp : p e = false) : q.expired p = 0 := by
  simp only [expired, hq, List.takeWhile_cons, hp, Bool.false_eq_true, ↓reduceIte, List.length_nil]

/-- An expired entry leaves, and so do those that are expired behind it. -/
theorem expired_cons {q : Fifo ε} {p : ε → Bool} {e : ε} {es : List ε} (hq : q.queue = e :: es)
    (hp : p e = true) : q.expired p = q.take.expired p + 1 := by
  simp only [expired, hq, List.takeWhile_cons, hp, ↓reduceIte, List.length_cons, take, drop,
    List.drop_one, List.tail_cons]

/-- Leaving in two steps. -/
theorem drop_drop (q : Fifo ε) (m n : Nat) : (q.drop m).drop n = q.drop (m + n) := by
  simp only [drop, List.drop_drop, List.append_assoc, List.take_add]

/-- An expired entry leaves first, and then the rest. -/
theorem expire_cons {q : Fifo ε} {p : ε → Bool} {e : ε} {es : List ε} (hq : q.queue = e :: es)
    (hp : p e = true) : q.expire p = q.take.expire p := by
  rw [expire, expired_cons hq hp, expire, take, drop_drop, Nat.add_comm 1]

/-- Nothing leaves an empty queue. -/
theorem drop_of_empty {q : Fifo ε} (hq : q.queue = []) (n : Nat) : q.drop n = q := by
  cases q
  simp only at hq
  simp only [drop, hq, List.take_nil, List.append_nil, List.drop_nil]

/-- Nothing leaves. -/
@[simp] theorem drop_zero (q : Fifo ε) : q.drop 0 = q := by
  cases q
  simp only [drop, List.take_zero, List.append_nil, List.drop_zero]

/-! ### Sorted queues -/

/-- If every entry in front of one that satisfies `p` satisfies it too, the entries that do
    are those up to the first that does not. -/
theorem takeWhile_eq_filter {p : ε → Bool} {es : List ε}
    (h : es.Pairwise fun a b => p b = true → p a = true) :
    es.takeWhile p = es.filter p ∧
      es.drop (es.takeWhile p).length = es.filter fun e => !p e := by
  induction es with
  | nil => exact ⟨rfl, rfl⟩
  | cons e es ih =>
    obtain ⟨hhead, htail⟩ := List.pairwise_cons.mp h
    obtain ⟨htake, hdrop⟩ := ih htail
    cases hp : p e with
    | true =>
      simp only [List.takeWhile_cons, List.filter_cons, hp, ↓reduceIte, List.length_cons,
        List.drop_succ_cons, Bool.not_true, Bool.false_eq_true]
      exact ⟨congrArg (e :: ·) htake, hdrop⟩
    | false =>
      -- Nothing behind `e` satisfies `p`
      have hnone : ∀ b ∈ es, p b = false := by
        intro b hb
        cases hpb : p b with
        | false => rfl
        | true => cases hp.symm.trans (hhead b hb hpb)
      have hfilter : es.filter p = [] := by
        refine List.filter_eq_nil_iff.mpr fun b hb => ?_
        rw [hnone b hb]
        exact Bool.false_ne_true
      have hall : es.filter (fun e => !p e) = es := by
        refine List.filter_eq_self.mpr fun b hb => ?_
        rw [hnone b hb]
        rfl
      simp only [List.takeWhile_cons, List.filter_cons, hp, Bool.false_eq_true, ↓reduceIte,
        List.length_nil, List.drop_zero, Bool.not_false, hfilter, hall, and_self]

/-- In a queue where what is expired is in front, exactly the expired entries leave. -/
theorem expire_eq_filter {q : Fifo ε} {p : ε → Bool}
    (h : q.queue.Pairwise fun a b => p b = true → p a = true) :
    (q.expire p).queue = q.queue.filter (fun e => !p e) ∧
      q.expired p = (q.queue.filter p).length := by
  obtain ⟨htake, hdrop⟩ := takeWhile_eq_filter h
  exact ⟨hdrop, congrArg List.length htake⟩

end Fifo
