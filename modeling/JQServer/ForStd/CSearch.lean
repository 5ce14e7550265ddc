import JQServer.ForStd.CString

/-!
# Searching C strings

`strchr` and `strstr` return the rest of the string from the first occurrence on, and
`atol` reads a decimal number. `strstr_of_occursOnce` says what is found when there is one
occurrence only, wherever it is, and `atol_of_isDecimal` that a number is read as it was
written. A string is given without its NUL.
-/

namespace CString

/-- `strchr` for a character other than NUL. -/
def strchr (c : UInt8) : List UInt8 → Option (List UInt8)
  | [] => none
  | b :: s => if b = c then some (b :: s) else strchr c s

/-- `strstr` -/
def strstr (needle : List UInt8) : List UInt8 → Option (List UInt8)
  | [] => if needle = [] then some [] else none
  | b :: s => if needle <+: b :: s then some (b :: s) else strstr needle s

/-- The string occurs at one place only. -/
def OccursOnce (needle s : List UInt8) : Prop := ∃! i, needle <+: s.drop i

variable {c : UInt8} {s l r needle : List UInt8}

/-! ### Searches -/

/-- The first occurrence of a character. -/
theorem strchr_append (h : c ∉ l) : strchr c (l ++ c :: r) = some (c :: r) := by
  induction l with
  | nil => rw [List.nil_append, strchr, if_pos rfl]
  | cons b l ih =>
    obtain ⟨hb, hl⟩ := not_or.mp (mt List.mem_cons.mpr h)
    rw [List.cons_append, strchr, if_neg (Ne.symm hb), ih hl]

/-- A character that is there is found. -/
theorem strchr_ne_none (h : c ∈ s) : strchr c s ≠ none := by
  induction s with
  | nil => exact absurd h List.not_mem_nil
  | cons b s ih =>
    rw [strchr]
    split
    · simp
    · rename_i hb
      exact ih ((List.mem_cons.mp h).resolve_left (Ne.symm hb))

/-- A character that is not there is not found. -/
theorem strchr_of_notMem (h : c ∉ s) : strchr c s = none := by
  induction s with
  | nil => rfl
  | cons b s ih =>
    obtain ⟨hb, hs⟩ := not_or.mp (mt List.mem_cons.mpr h)
    rw [strchr, if_neg (Ne.symm hb), ih hs]

/-- `strchr` finds exactly the characters that are there. -/
theorem strchr_ne_none_iff : strchr c s ≠ none ↔ c ∈ s := by
  constructor
  · intro h
    by_contra hnot
    exact h (strchr_of_notMem hnot)
  · exact strchr_ne_none

/-- What is found starts with the character, which does not stand before it. -/
theorem strchr_eq_some (h : strchr c s = some r) : ∃ l t, r = c :: t ∧ s = l ++ c :: t ∧ c ∉ l := by
  induction s with
  | nil => exact nomatch h
  | cons b s ih =>
    rw [strchr] at h
    split at h
    · rename_i hb
      exact ⟨[], s, by rw [← Option.some.inj h, hb], by rw [hb, List.nil_append],
        List.not_mem_nil⟩
    · rename_i hb
      obtain ⟨l, t, hr, hs, hl⟩ := ih h
      refine ⟨b :: l, t, hr, by rw [hs, List.cons_append], fun hmem => ?_⟩
      exact (List.mem_cons.mp hmem).elim (fun hc => hb hc.symm) hl

/-- The first occurrence of a string. -/
theorem strstr_append (h : needle <+: r) (hfirst : ∀ i < l.length, ¬ needle <+: (l ++ r).drop i) :
    strstr needle (l ++ r) = some r := by
  induction l with
  | nil =>
    cases r with
    | nil => rw [List.nil_append, strstr, if_pos (List.prefix_nil.mp h)]
    | cons b r => rw [List.nil_append, strstr, if_pos h]
  | cons b l ih =>
    have hb : ¬ needle <+: b :: (l ++ r) := hfirst 0 (Nat.zero_lt_succ _)
    rw [List.cons_append, strstr, if_neg hb]
    exact ih fun i hi => hfirst (i + 1) (Nat.succ_lt_succ hi)

/-- The only occurrence of a string is found. -/
theorem strstr_of_occursOnce (h : OccursOnce needle (l ++ (needle ++ r))) :
    strstr needle (l ++ (needle ++ r)) = some (needle ++ r) := by
  refine strstr_append (List.prefix_append _ _) fun i hi hocc => ?_
  have hat : needle <+: (l ++ (needle ++ r)).drop l.length := by
    rw [List.drop_left]
    exact List.prefix_append _ _
  exact absurd (h.unique hocc hat) (Nat.ne_of_lt hi)

/-- What is found in a string is found there if another one follows. -/
theorem strchr_append_of_some (h : strchr c s = some l) : strchr c (s ++ r) = some (l ++ r) := by
  obtain ⟨pre, t, rfl, rfl, hpre⟩ := strchr_eq_some h
  rw [List.append_assoc, List.cons_append]
  exact strchr_append hpre

/-- What is not found in a string is searched in the one that follows. -/
theorem strchr_append_of_none (h : strchr c s = none) : strchr c (s ++ r) = strchr c r := by
  induction s with
  | nil => rfl
  | cons b s ih =>
    rw [strchr] at h
    split at h
    · exact nomatch h
    · rename_i hb
      rw [List.cons_append, strchr, if_neg hb, ih h]

/-- A string without some character stands at the start of another one before the character. -/
theorem prefix_append_sep {b : UInt8} (hb : b ∉ needle) :
    needle <+: l ++ b :: r ↔ needle <+: l := by
  constructor
  · intro h
    rcases List.prefix_or_prefix_of_prefix h (List.prefix_append l (b :: r)) with h' | ⟨m, rfl⟩
    · exact h'
    · cases m with
      | nil => exact ⟨[], by rw [List.append_nil, List.append_nil]⟩
      | cons a m =>
        obtain ⟨rfl, -⟩ := List.cons_prefix_cons.mp ((List.prefix_append_right_inj l).mp h)
        exact absurd (List.mem_append_right l List.mem_cons_self) hb
  · exact fun h => h.trans (List.prefix_append l (b :: r))

/-- A string without some character is found before the character or after it. -/
theorem strstr_append_sep {b : UInt8} (hb : b ∉ needle) (hne : needle ≠ []) :
    strstr needle (l ++ b :: r) =
      match strstr needle l with
      | some p => some (p ++ b :: r)
      | none => strstr needle r := by
  induction l with
  | nil =>
    -- An occurrence at the separator would have to be empty
    have hnot : ¬ needle <+: b :: r := by
      intro h
      exact hne (List.prefix_nil.mp ((prefix_append_sep (l := []) hb).mp h))
    have hnil : strstr needle [] = none := if_neg hne
    have hcons : strstr needle (b :: r) = strstr needle r := if_neg hnot
    rw [List.nil_append, hnil, hcons]
  | cons a l ih =>
    have hocc : needle <+: a :: (l ++ b :: r) ↔ needle <+: a :: l :=
      prefix_append_sep (l := a :: l) hb
    rw [List.cons_append, strstr, strstr]
    by_cases h : needle <+: a :: l
    · rw [if_pos h, if_pos (hocc.mpr h)]
      rfl
    · rw [if_neg h, if_neg (mt hocc.mp h), ih]

/-- What is found stands in the string, and nothing is found before it. -/
theorem strstr_eq_some (h : strstr needle s = some r) :
    needle <+: r ∧ ∃ l, s = l ++ r ∧ ∀ i < l.length, ¬ needle <+: s.drop i := by
  induction s with
  | nil =>
    simp only [strstr] at h
    split at h
    · rename_i hnil
      obtain rfl : [] = r := Option.some.inj h
      exact ⟨hnil ▸ List.prefix_rfl, [], rfl, nofun⟩
    · cases h
  | cons b s ih =>
    simp only [strstr] at h
    split at h
    · rename_i hocc
      obtain rfl : b :: s = r := Option.some.inj h
      exact ⟨hocc, [], rfl, nofun⟩
    · rename_i hnot
      obtain ⟨hocc, l, rfl, hfirst⟩ := ih h
      refine ⟨hocc, b :: l, rfl, fun i hi => ?_⟩
      cases i with
      | zero => exact hnot
      | succ i => exact hfirst i (Nat.lt_of_succ_lt_succ hi)

/-- What is not found does not occur. -/
theorem strstr_eq_none (h : strstr needle s = none) (i : Nat) : ¬ needle <+: s.drop i := by
  induction s generalizing i with
  | nil =>
    simp only [strstr] at h
    split at h
    · cases h
    · rename_i hne
      rw [List.drop_nil]
      exact fun hocc => hne (List.prefix_nil.mp hocc)
  | cons b s ih =>
    simp only [strstr] at h
    split at h
    · cases h
    · rename_i hnot
      cases i with
      | zero => exact hnot
      | succ i => exact ih h i

/-- A string that is found, and not a second time after that. -/
theorem occursOnce_of_strstr (h : strstr needle s ≠ none)
    (hrest : ∀ r ∈ strstr needle s, strstr needle r.tail = none) : OccursOnce needle s := by
  obtain ⟨r, hr⟩ := Option.ne_none_iff_exists'.mp h
  obtain ⟨hocc, l, rfl, hfirst⟩ := strstr_eq_some hr
  have hat : needle <+: (l ++ r).drop l.length := by
    rw [List.drop_left]
    exact hocc
  refine ⟨l.length, hat, fun i hi => ?_⟩
  rcases Nat.lt_trichotomy i l.length with hlt | heq | hgt
  · exact absurd hi (hfirst i hlt)
  · exact heq
  · -- A later occurrence is one in the tail
    obtain ⟨k, rfl⟩ := Nat.exists_eq_add_of_lt hgt
    have hdrop : (l ++ r).drop (l.length + k + 1) = r.tail.drop k := by
      rw [Nat.add_assoc, List.drop_length_add_append, List.drop_tail]
    rw [hdrop] at hi
    exact absurd hi (strstr_eq_none (hrest r hr) k)

/-! ### Numbers -/

/-- `isspace` -/
def isSpace (b : UInt8) : Bool := b = 32 || (9 ≤ b && b ≤ 13)

/-- `isdigit` -/
def isDigit (b : UInt8) : Bool := 48 ≤ b && b ≤ 57

/-- The value of a sequence of digits. -/
def digitsValue (digits : List UInt8) : Nat :=
  digits.foldl (fun n d => 10 * n + (d.toNat - 48)) 0

/-- The number at the start of a string, with blanks and a sign before it. -/
def leadingNumber (s : List UInt8) : Int :=
  let s := s.dropWhile isSpace
  if s.head? = some 45 then -(digitsValue (s.tail.takeWhile isDigit) : Int)
  else if s.head? = some 43 then digitsValue (s.tail.takeWhile isDigit)
  else digitsValue (s.takeWhile isDigit)

/-- `atol`, which is `strtol` to base 10: beyond the bounds of a `long` it gives the bound. -/
def atol (s : List UInt8) : Int :=
  max (-0x8000000000000000) (min (leadingNumber s) 0x7fffffffffffffff)

/-- `atoi`, which is `strtol` too, converted to an `int`. -/
def atoi (s : List UInt8) : Int := (atol s).bmod (2 ^ 32)

/-- A number that a `long` can hold is read as it is. -/
theorem atol_eq_leadingNumber (hlo : -0x8000000000000000 ≤ leadingNumber s)
    (hhi : leadingNumber s ≤ 0x7fffffffffffffff) : atol s = leadingNumber s := by
  rw [atol, Int.min_eq_left hhi, Int.max_eq_right hlo]

/-- A decimal number with an optional sign. -/
inductive IsDecimal : List UInt8 → Int → Prop
  | unsigned {digits : List UInt8} (hne : digits ≠ []) (h : ∀ d ∈ digits, isDigit d = true) :
      IsDecimal digits (digitsValue digits)
  | plus {digits : List UInt8} (hne : digits ≠ []) (h : ∀ d ∈ digits, isDigit d = true) :
      IsDecimal (43 :: digits) (digitsValue digits)
  | minus {digits : List UInt8} (hne : digits ≠ []) (h : ∀ d ∈ digits, isDigit d = true) :
      IsDecimal (45 :: digits) (-(digitsValue digits : Int))

/-- The characters of a number. -/
theorem IsDecimal.chars {x : Int} (h : IsDecimal s x) :
    s ≠ [] ∧ ∀ b ∈ s, b = 43 ∨ b = 45 ∨ isDigit b = true := by
  cases h with
  | unsigned hne h => exact ⟨hne, fun b hb => .inr (.inr (h b hb))⟩
  | plus hne h =>
    refine ⟨List.cons_ne_nil _ _, fun b hb => ?_⟩
    exact (List.mem_cons.mp hb).imp id fun hb => .inr (h b hb)
  | minus hne h =>
    refine ⟨List.cons_ne_nil _ _, fun b hb => .inr ?_⟩
    exact (List.mem_cons.mp hb).imp id (h b)

/-- A digit is none of the other characters that `atol` looks for. -/
private theorem isDigit_ne {b : UInt8} (h : isDigit b = true) :
    b ≠ 45 ∧ b ≠ 43 ∧ isSpace b = false := by
  simp only [isDigit, Bool.and_eq_true, decide_eq_true_eq, UInt8.le_iff_toNat_le] at h
  obtain ⟨hlo, hhi⟩ := h
  have hlo' : 48 ≤ b.toNat := hlo
  refine ⟨?_, ?_, ?_⟩
  · rintro rfl
    exact absurd hlo' (by decide)
  · rintro rfl
    exact absurd hlo' (by decide)
  · have hne : b ≠ 32 := by
      rintro rfl
      exact absurd hlo' (by decide)
    have hgt : ¬ b ≤ 13 := by
      intro hle
      have hle' : b.toNat ≤ 13 := UInt8.le_iff_toNat_le.mp hle
      omega
    simp [isSpace, hne, hgt]

/-- The number that was written is found. -/
theorem leadingNumber_of_isDecimal {x : Int} (h : IsDecimal s x) : leadingNumber s = x := by
  have htake : ∀ {digits : List UInt8}, (∀ d ∈ digits, isDigit d = true) →
      digits.takeWhile isDigit = digits := fun hd => List.takeWhile_eq_self_iff.mpr hd
  cases h with
  | plus hne h =>
    have hspace : isSpace 43 = false := by decide
    simp [leadingNumber, hspace, htake h]
  | minus hne h =>
    have hspace : isSpace 45 = false := by decide
    simp [leadingNumber, hspace, htake h]
  | unsigned hne h =>
    obtain ⟨d, ds, rfl⟩ := List.exists_cons_of_ne_nil hne
    obtain ⟨h45, h43, hspace⟩ := isDigit_ne (h d List.mem_cons_self)
    simp [leadingNumber, hspace, h45, h43, htake h]

/-- `atol` reads the number that was written, if it is in the range of a `long`. -/
theorem atol_of_isDecimal {x : Int} (h : IsDecimal s x) (hlo : -0x8000000000000000 ≤ x)
    (hhi : x ≤ 0x7fffffffffffffff) : atol s = x := by
  have hx := leadingNumber_of_isDecimal h
  rw [atol_eq_leadingNumber (hx.symm ▸ hlo) (hx.symm ▸ hhi), hx]

/-- The text of a digit. -/
private theorem ascii_repr_digit :
    ∀ n < 10, ∃ d, ascii (Nat.repr n) = [d] ∧ isDigit d = true ∧ d.toNat - 48 = n := by
  intro n hn
  have hdigit : ∀ k : Fin 10, ascii (Nat.repr k) = [(48 + k.val).toUInt8] ∧
      isDigit (48 + k.val).toUInt8 = true ∧ (48 + k.val).toUInt8.toNat - 48 = k.val := by decide
  exact ⟨_, hdigit ⟨n, hn⟩⟩

/-- The text of a number is a sequence of digits with this value. -/
private theorem digits_repr (n : Nat) :
    ascii n.repr ≠ [] ∧ (∀ d ∈ ascii n.repr, isDigit d = true) ∧
      digitsValue (ascii n.repr) = n := by
  induction n using Nat.strongRecOn with
  | ind n ih =>
    by_cases hn : n < 10
    · obtain ⟨d, htext, hd, hv⟩ := ascii_repr_digit n hn
      simp [htext, hd, digitsValue, hv]
    · -- All digits but the last, then the last
      obtain ⟨hne, hd, hv⟩ := ih (n / 10) (by omega)
      obtain ⟨d, htext, hd', hv'⟩ := ascii_repr_digit (n % 10) (Nat.mod_lt n (by decide))
      have happ : ascii n.repr = ascii (n / 10).repr ++ [d] := by
        rw [Nat.repr_eq_repr_append_repr (Nat.not_lt.mp hn), ← htext, ascii, String.toList_append,
          List.map_append, ascii, ascii]
      refine ⟨by simp [happ], fun b hb => ?_, ?_⟩
      · rw [happ] at hb
        exact (List.mem_append.mp hb).elim (hd b) fun hb => List.mem_singleton.mp hb ▸ hd'
      · unfold digitsValue at hv ⊢
        rw [happ, List.foldl_append, hv, List.foldl_cons, List.foldl_nil, hv']
        exact Nat.div_add_mod n 10

/-- The text of a number is a decimal number. -/
theorem isDecimal_toString (x : Int) : IsDecimal (ascii (toString x)) x := by
  cases x with
  | ofNat n =>
    obtain ⟨hne, hd, hv⟩ := digits_repr n
    have h := IsDecimal.unsigned hne hd
    rw [hv] at h
    exact h
  | negSucc n =>
    obtain ⟨hne, hd, hv⟩ := digits_repr (n + 1)
    have h := IsDecimal.minus hne hd
    rw [hv] at h
    have htext : ascii (toString (Int.negSucc n)) = 45 :: ascii (n + 1).repr := by
      rw [Int.toString_eq_repr, Int.repr_eq_if, if_neg (Int.not_le.mpr (Int.negSucc_lt_zero n)),
        ascii, ascii, String.toList_append, List.map_append]
      rfl
    rw [htext]
    exact h

end CString
