import JQServer.ForStd.CSearch

/-!
# Pointers into an allocation

A `char *` is the list of the bytes from its address to the end of the allocation: what it
points to is the head of the list, the next address is the tail, and a read beyond the
allocation is one at the empty list. The functions here read byte by byte as the C library
says they do, and return `none` when they read beyond the allocation.

A pointer at which a string and its NUL stand is safe to search: each function stops at the
NUL at the latest and returns what the search of the string returns.
-/

namespace Pointer

/-- `strchr` for a character other than NUL; `some none` is NULL. -/
def strchr (c : UInt8) : List UInt8 → Option (Option (List UInt8))
  | [] => none
  | b :: p => if b = c then some (some (b :: p)) else if b = 0 then some none else strchr c p

/-- The comparison of a string with what stands at a pointer, up to the first difference. -/
def startsWith : List UInt8 → List UInt8 → Option Bool
  | [], _ => some true
  | _ :: _, [] => none
  | c :: needle, b :: p => if b = c then startsWith needle p else some false

/-- `strstr`; `some none` is NULL. -/
def strstr (needle : List UInt8) : List UInt8 → Option (Option (List UInt8))
  | [] => none
  | b :: p =>
    match startsWith needle (b :: p) with
    | none => none
    | some true => some (some (b :: p))
    | some false => if b = 0 then some none else strstr needle p

/-- The string at a pointer, without its NUL. -/
def string : List UInt8 → Option (List UInt8)
  | [] => none
  | b :: p => if b = 0 then some [] else (string p).map (b :: ·)

/-- The pointer after a run of characters of a kind: `while (f(*p)) p++`. -/
def skip (f : UInt8 → Bool) : List UInt8 → Option (List UInt8)
  | [] => none
  | b :: p => if f b then skip f p else some (b :: p)

variable {c : UInt8} {s rest needle : List UInt8}

/-- `strchr` stops at the NUL. -/
theorem strchr_string (hc : c ≠ 0) (h : 0 ∉ s) :
    strchr c (s ++ 0 :: rest) = some ((CString.strchr c s).map (· ++ 0 :: rest)) := by
  induction s with
  | nil =>
    show (if 0 = c then _ else _) = _
    rw [if_neg (Ne.symm hc), if_pos rfl]
    rfl
  | cons b s ih =>
    obtain ⟨hb, hs⟩ := not_or.mp (mt List.mem_cons.mpr h)
    rw [List.cons_append, strchr, CString.strchr]
    split
    · rfl
    · rw [if_neg (Ne.symm hb), ih hs]

/-- The comparison stops at the NUL, where the string differs. -/
theorem startsWith_string (hneedle : 0 ∉ needle) :
    startsWith needle (s ++ 0 :: rest) = some (decide (needle <+: s)) := by
  induction needle generalizing s with
  | nil => simp [startsWith]
  | cons c needle ih =>
    obtain ⟨hc, hneedle⟩ := not_or.mp (mt List.mem_cons.mpr hneedle)
    cases s with
    | nil => simp [startsWith, hc]
    | cons b s =>
      rw [List.cons_append, startsWith, ih hneedle]
      by_cases hb : b = c
      · simp [hb]
      · simp [hb, Ne.symm hb]

/-- `strstr` stops at the NUL. -/
theorem strstr_string (hneedle : 0 ∉ needle) (hne : needle ≠ []) (h : 0 ∉ s) :
    strstr needle (s ++ 0 :: rest) = some ((CString.strstr needle s).map (· ++ 0 :: rest)) := by
  induction s with
  | nil =>
    have hfirst : startsWith needle (0 :: rest) = some false := by
      have hnil : startsWith needle ([] ++ 0 :: rest) = some (decide (needle <+: [])) :=
        startsWith_string hneedle
      simpa [hne] using hnil
    rw [List.nil_append, strstr, hfirst, CString.strstr, if_neg hne]
    rfl
  | cons b s ih =>
    obtain ⟨hb, hs⟩ := not_or.mp (mt List.mem_cons.mpr h)
    have hfirst : startsWith needle (b :: s ++ 0 :: rest) =
        some (decide (needle <+: b :: s)) := startsWith_string hneedle
    rw [List.cons_append] at hfirst ⊢
    rw [strstr, hfirst, CString.strstr]
    by_cases hocc : needle <+: b :: s
    · simp [hocc]
    · simp [hocc, Ne.symm hb, ih hs]

/-- A string that has its NUL is read up to it. -/
theorem string_eq_some (h : 0 ∈ s) : string s = some (CString.str s) := by
  induction s with
  | nil => exact absurd h List.not_mem_nil
  | cons b s ih =>
    rw [string, CString.str_cons]
    split
    · rfl
    · rename_i hb
      rw [ih ((List.mem_cons.mp h).resolve_left (Ne.symm hb))]
      rfl

/-- Skipping stops at the NUL. -/
theorem skip_string {f : UInt8 → Bool} (hf : f 0 = false) :
    skip f (s ++ 0 :: rest) = some (s.dropWhile f ++ 0 :: rest) := by
  induction s with
  | nil => simp [skip, hf]
  | cons b s ih =>
    rw [List.cons_append, skip, List.dropWhile_cons]
    split
    · exact ih
    · rfl

end Pointer
