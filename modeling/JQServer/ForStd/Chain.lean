import Mathlib.Data.List.Basic
import Mathlib.Logic.Function.Basic

/-!
# Chains of links

`LinkChain link p l` says that starting at the (nullable) pointer `p` and following
`link` visits exactly the addresses of `l`, in order, and then reaches null. The
lemmas say what overwriting a link does to a chain: nothing when its address is
not on the chain (`LinkChain.congr`), and an extension at the end when the last
address is linked to a fresh one (`LinkChain.snoc`), and a cut behind an address whose
link becomes null (`LinkChain.truncate`).
-/

variable {ι : Type*}

/-- Following `link` from `p` visits `l` and ends at null. -/
def LinkChain (link : ι → Option ι) : Option ι → List ι → Prop
  | p, [] => p = none
  | p, a :: l => p = some a ∧ LinkChain link (link a) l

namespace LinkChain

variable {f g : ι → Option ι} {p : Option ι} {a : ι} {l : List ι}

@[simp] theorem nil_iff : LinkChain f p [] ↔ p = none := Iff.rfl

@[simp] theorem cons_iff : LinkChain f p (a :: l) ↔ p = some a ∧ LinkChain f (f a) l :=
  Iff.rfl

/-- The start of a chain is its first address. -/
theorem head? (h : LinkChain f p l) : p = l.head? := by
  cases l with
  | nil => exact h
  | cons a l => exact h.1

/-- A pointer starts at most one chain. -/
theorem unique {l' : List ι} (h : LinkChain f p l) (h' : LinkChain f p l') : l = l' := by
  induction l generalizing p l' with
  | nil =>
    cases l' with
    | nil => rfl
    | cons b l' => rw [nil_iff.mp h] at h'; exact nomatch h'.1
  | cons a l ih =>
    cases l' with
    | nil => rw [nil_iff.mp h'] at h; exact nomatch h.1
    | cons b l' =>
      obtain rfl : a = b := Option.some.inj (h.1.symm.trans h'.1)
      rw [ih h.2 h'.2]

/-- A chain only depends on the links of its own addresses. -/
theorem congr (h : LinkChain f p l) (heq : ∀ a ∈ l, g a = f a) : LinkChain g p l := by
  induction l generalizing p with
  | nil => exact h
  | cons a l ih =>
    refine ⟨h.1, ?_⟩
    rw [heq a List.mem_cons_self]
    exact ih h.2 fun b hb => heq b (List.mem_cons_of_mem a hb)

/-- Linking the last address of a chain to a fresh one, whose own f is null,
    extends the chain by it. -/
theorem snoc {b : ι} (h : LinkChain f p (l ++ [a]))
    (hl : ∀ x ∈ l, g x = f x) (ha : g a = some b) (hb : g b = none) :
    LinkChain g p (l ++ [a] ++ [b]) := by
  induction l generalizing p with
  | nil => exact ⟨h.1, ha, hb⟩
  | cons x l ih =>
    refine ⟨h.1, ?_⟩
    rw [hl x List.mem_cons_self]
    exact ih h.2 fun y hy => hl y (List.mem_cons_of_mem x hy)

/-- Setting the link of an address on a chain to null cuts the chain behind it. -/
theorem truncate {r : List ι} (h : LinkChain f p (l ++ a :: r)) (hl : ∀ x ∈ l, g x = f x)
    (ha : g a = none) : LinkChain g p (l ++ [a]) := by
  induction l generalizing p with
  | nil => exact ⟨h.1, ha⟩
  | cons x l ih =>
    refine ⟨h.1, ?_⟩
    rw [hl x List.mem_cons_self]
    exact ih h.2 fun y hy => hl y (List.mem_cons_of_mem x hy)

/-- An address is linked to the one that follows it on a chain. -/
theorem link_eq {b : ι} {r : List ι} (h : LinkChain f p (l ++ a :: b :: r)) : f a = some b := by
  induction l generalizing p with
  | nil => exact h.2.1
  | cons x l ih => exact ih h.2

/-- The last address of a chain is linked to null. -/
theorem link_last (h : LinkChain f p (l ++ [a])) : f a = none := by
  induction l generalizing p with
  | nil => exact h.2
  | cons x l ih => exact ih h.2

/-- The addresses of a chain are only linked to one another. -/
theorem mem_of_link {b : ι} (h : LinkChain f p l) (ha : a ∈ l) (hb : f a = some b) : b ∈ l := by
  obtain ⟨pre, post, rfl⟩ := List.append_of_mem ha
  cases post with
  | nil => cases h.link_last.symm.trans hb
  | cons c post =>
    obtain rfl : c = b := Option.some.inj (h.link_eq.symm.trans hb)
    exact List.mem_append_right _ (List.mem_cons_of_mem a List.mem_cons_self)

end LinkChain
