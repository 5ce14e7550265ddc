import Mathlib.Algebra.BigOperators.Group.Finset.Piecewise
import Mathlib.Data.Finset.Card
import Mathlib.Data.Fintype.Card

/-!
# Searching and counting in finite tables

`firstIndex p` is the index a loop `for (k = 0; k < n; k++) if (p(k)) return k;`
returns. `card_filter_update` says how a count of entries changes when one entry
is overwritten.
-/

namespace Finset

/-- One more element is counted if it satisfies `p`. -/
theorem card_filter_insert {ι : Type*} [DecidableEq ι] {s : Finset ι} {i : ι} (p : ι → Prop)
    [DecidablePred p] (hi : i ∉ s) :
    ((insert i s).filter p).card = (s.filter p).card + if p i then 1 else 0 := by
  rw [filter_insert]
  split
  · exact card_insert_of_notMem fun hmem => hi (mem_filter.mp hmem).1
  · rfl

/-- When some elements cease to satisfy a predicate and others start to, what is left and
    what has ceased is what there was and what has started. -/
theorem card_filter_change {ι : Type*} (s : Finset ι) (p q : ι → Prop) [DecidablePred p]
    [DecidablePred q] :
    (s.filter q).card + (s.filter fun i => p i ∧ ¬ q i).card =
      (s.filter p).card + (s.filter fun i => ¬ p i ∧ q i).card := by
  have hp : ((s.filter p).filter q).card + ((s.filter p).filter fun i => ¬ q i).card =
      (s.filter p).card := card_filter_add_card_filter_not q
  have hq : ((s.filter q).filter p).card + ((s.filter q).filter fun i => ¬ p i).card =
      (s.filter q).card := card_filter_add_card_filter_not p
  simp only [filter_filter] at hp hq
  have hpq : (s.filter fun i => p i ∧ q i).card = (s.filter fun i => q i ∧ p i).card :=
    congrArg card (filter_congr fun i _ => and_comm)
  have hnew : (s.filter fun i => q i ∧ ¬ p i).card = (s.filter fun i => ¬ p i ∧ q i).card :=
    congrArg card (filter_congr fun i _ => and_comm)
  omega

end Finset

namespace Fin

variable {n : Nat}

/-- The loop of `firstIndex`, from index `k` with `fuel` iterations left. -/
def firstFrom (p : Fin n → Bool) : Nat → Nat → Option (Fin n)
  | 0, _ => none
  | fuel + 1, k =>
    if h : k < n then
      if p ⟨k, h⟩ then some ⟨k, h⟩ else firstFrom p fuel (k + 1)
    else none

/-- The lowest index whose entry satisfies `p`. -/
def firstIndex (p : Fin n → Bool) : Option (Fin n) := firstFrom p n 0

/-- What the loop finds satisfies `p`, and no index between the start and it does. -/
private theorem firstFrom_some {p : Fin n → Bool} {fuel k : Nat} {i : Fin n}
    (h : firstFrom p fuel k = some i) :
    p i = true ∧ ∀ j : Fin n, k ≤ j.val → j < i → p j = false := by
  induction fuel generalizing k with
  | zero => exact nomatch h
  | succ fuel ih =>
    rw [firstFrom] at h
    split at h
    · rename_i hk
      split at h
      · rename_i hp
        obtain rfl := Option.some.inj h
        exact ⟨hp, fun j hkj hji => absurd (Fin.lt_def.mp hji) (by simp only; omega)⟩
      · rename_i hp
        obtain ⟨hi, hlt⟩ := ih h
        refine ⟨hi, fun j hkj hji => ?_⟩
        by_cases hjk : j.val = k
        · have : j = ⟨k, hk⟩ := Fin.ext hjk
          rw [this]; simpa using hp
        · exact hlt j (by omega) hji
    · exact nomatch h

/-- When the loop finds nothing, no index it visited satisfies `p`. -/
private theorem firstFrom_none {p : Fin n → Bool} {fuel k : Nat}
    (h : firstFrom p fuel k = none) (hfuel : n ≤ k + fuel) (j : Fin n) (hkj : k ≤ j.val) :
    p j = false := by
  induction fuel generalizing k with
  | zero => have := j.isLt; omega
  | succ fuel ih =>
    have hk : k < n := Nat.lt_of_le_of_lt hkj j.isLt
    simp only [firstFrom, hk, ↓reduceDIte] at h
    split at h
    · exact nomatch h
    · rename_i hp
      by_cases hjk : j.val = k
      · have : j = ⟨k, hk⟩ := Fin.ext hjk
        rw [this]; simpa using hp
      · exact ih h (by omega) (by omega)

/-- Characterisation of the search: the entry found, and that it is the first. -/
theorem firstIndex_eq_some_iff {p : Fin n → Bool} {i : Fin n} :
    firstIndex p = some i ↔ p i = true ∧ ∀ j < i, p j = false := by
  constructor
  · intro h
    obtain ⟨hi, hlt⟩ := firstFrom_some h
    exact ⟨hi, fun j hj => hlt j (Nat.zero_le _) hj⟩
  · intro ⟨hi, hlt⟩
    cases hf : firstIndex p with
    | none =>
      have := firstFrom_none hf (by omega) i (Nat.zero_le _)
      simp [hi] at this
    | some j =>
      obtain ⟨hj, hjlt⟩ := firstFrom_some hf
      rcases lt_trichotomy i j with hij | hij | hij
      · exact absurd (hjlt i (Nat.zero_le _) hij) (by simp [hi])
      · rw [hij]
      · exact absurd (hlt j hij) (by simp [hj])

/-- The search fails exactly when no entry satisfies `p`. -/
theorem firstIndex_eq_none_iff {p : Fin n → Bool} :
    firstIndex p = none ↔ ∀ i, p i = false := by
  constructor
  · intro h i
    exact firstFrom_none h (by omega) i (Nat.zero_le _)
  · intro h
    cases hf : firstIndex p with
    | none => rfl
    | some j => exact absurd (firstFrom_some hf).1 (by simp [h j])

/-- The entry the search returns satisfies `p`. -/
theorem firstIndex_spec {p : Fin n → Bool} {i : Fin n} (h : firstIndex p = some i) :
    p i = true :=
  (firstIndex_eq_some_iff.mp h).1

/-- The search succeeds as soon as one entry satisfies `p`. -/
theorem exists_firstIndex {p : Fin n → Bool} {i : Fin n} (h : p i = true) :
    ∃ j, firstIndex p = some j := by
  cases hf : firstIndex p with
  | none => exact absurd (firstIndex_eq_none_iff.mp hf i) (by simp [h])
  | some j => exact ⟨j, rfl⟩

/-- The indices below `k`. -/
def below (n k : Nat) : Finset (Fin n) := Finset.univ.filter fun j => j.val < k

/-- The indices from `k` on. -/
def upFrom (n k : Nat) : Finset (Fin n) := Finset.univ.filter fun j => k ≤ j.val

theorem mem_below {k : Nat} {j : Fin n} : j ∈ below n k ↔ j.val < k := by simp [below]

theorem mem_upFrom {k : Nat} {j : Fin n} : j ∈ upFrom n k ↔ k ≤ j.val := by simp [upFrom]

@[simp] theorem below_zero : below n 0 = ∅ := by simp [below]

@[simp] theorem upFrom_zero : upFrom n 0 = Finset.univ := by simp [upFrom]

/-- Every index is below an index behind the last one. -/
theorem below_of_le {k : Nat} (h : n ≤ k) : below n k = Finset.univ := by
  apply Finset.eq_univ_of_forall
  intro i
  rw [mem_below]
  omega

/-- There is nothing behind the last index. -/
theorem upFrom_of_le {k : Nat} (h : n ≤ k) : upFrom n k = ∅ := by
  apply Finset.eq_empty_of_forall_notMem
  intro i hi
  rw [mem_upFrom] at hi
  omega

/-- Below `k + 1` there is `k` too. -/
theorem card_below_succ (p : Fin n → Prop) [DecidablePred p] {k : Nat} (hk : k < n) :
    ((below n (k + 1)).filter p).card =
      ((below n k).filter p).card + if p ⟨k, hk⟩ then 1 else 0 := by
  have hinsert : below n (k + 1) = insert ⟨k, hk⟩ (below n k) := by
    ext j
    simp only [mem_below, Finset.mem_insert, Fin.ext_iff]
    omega
  rw [hinsert, Finset.card_filter_insert _ (by simp [mem_below])]

/-- From `k` on there is `k` and what is from `k + 1` on. -/
theorem card_upFrom (p : Fin n → Prop) [DecidablePred p] {k : Nat} (hk : k < n) :
    ((upFrom n k).filter p).card =
      ((upFrom n (k + 1)).filter p).card + if p ⟨k, hk⟩ then 1 else 0 := by
  have hinsert : upFrom n k = insert ⟨k, hk⟩ (upFrom n (k + 1)) := by
    ext j
    simp only [mem_upFrom, Finset.mem_insert, Fin.ext_iff]
    omega
  rw [hinsert, Finset.card_filter_insert _ (by simp [mem_upFrom])]

/-- At most `n` indices below `n` satisfy `p`. -/
theorem card_filter_le (p : Fin n → Prop) [DecidablePred p] :
    (Finset.univ.filter p).card ≤ n := by
  simpa using Finset.card_filter_le Finset.univ p

/-- Fewer than `n` indices below `n` satisfy `p` exactly when one does not. -/
theorem card_filter_lt_iff (p : Fin n → Prop) [DecidablePred p] :
    (Finset.univ.filter p).card < n ↔ ∃ i, ¬ p i := by
  constructor
  · intro hlt
    by_contra hall
    rw [Finset.filter_true_of_mem fun i _ => not_not.mp (not_exists.mp hall i)] at hlt
    simp at hlt
  · rintro ⟨i, hi⟩
    have hss : Finset.univ.filter p ⊂ Finset.univ :=
      Finset.filter_ssubset.mpr ⟨i, Finset.mem_univ i, hi⟩
    simpa using Finset.card_lt_card hss

end Fin

namespace Finset

variable {ι β : Type*} [DecidableEq ι]

/-- Overwriting entry `i` changes a count of entries by what `i` counted before
    and what it counts now. -/
theorem card_filter_update (s : Finset ι) (f : ι → β) (i : ι) (b : β) (P : β → Prop)
    [DecidablePred P] (hi : i ∈ s) :
    (s.filter fun j => P (Function.update f i b j)).card + (if P (f i) then 1 else 0) =
      (s.filter fun j => P (f j)).card + (if P b then 1 else 0) := by
  have hne : ∀ j ∈ s.erase i, (P (Function.update f i b j) ↔ P (f j)) := by
    intro j hj
    rw [Function.update_of_ne (Finset.ne_of_mem_erase hj)]
  have key : ∀ g : ι → β, (s.filter fun j => P (g j)).card =
      ((s.erase i).filter fun j => P (g j)).card + (if P (g i) then 1 else 0) := by
    intro g
    conv_lhs => rw [← Finset.insert_erase hi, Finset.filter_insert]
    split
    · rw [Finset.card_insert_of_notMem (by simp)]
    · rfl
  rw [key, key f, Finset.filter_congr hne, Function.update_self]
  omega

/-- Overwriting entry `i` changes a sum over the entries by what `i` added before and what it
    adds now. -/
theorem sum_apply_update (s : Finset ι) (f : ι → β) (i : ι) (b : β) (g : β → Nat) (hi : i ∈ s) :
    ∑ j ∈ s, g (Function.update f i b j) + g (f i) = ∑ j ∈ s, g (f j) + g b := by
  have hcomp : ∀ j, g (Function.update f i b j) = Function.update (fun j => g (f j)) i (g b) j :=
    fun j => Function.apply_update (fun _ => g) f i b j
  have hold := add_sum_erase s (fun j => g (f j)) hi
  have hnew := sum_update_of_mem hi (fun j => g (f j)) (g b)
  rw [sdiff_singleton_eq_erase] at hnew
  simp only [hcomp, hnew]
  omega

end Finset
