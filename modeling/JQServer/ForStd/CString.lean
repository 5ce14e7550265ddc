import Mathlib.Algebra.Ring.Nat
import Mathlib.Data.List.GetD
import Mathlib.Data.List.TakeWhile

/-!
# C strings and fixed-size character arrays

A C string is read off a sequence of bytes: it is what stands before the first NUL
(`CString.str`). `CharArray n` is a `char [n]` with its length in the type, and
`strncpy`, `strncmp` and little-endian words are the library functions on these.
-/

namespace CString

/-- The C string at the start of a byte sequence. -/
def str (bs : List UInt8) : List UInt8 := bs.takeWhile (· ≠ 0)

/-- `strncmp`; the end of a list counts as NUL. -/
def strncmp : Nat → List UInt8 → List UInt8 → Int
  | 0, _, _ => 0
  | n + 1, a, b =>
    if a.headD 0 ≠ b.headD 0 then (a.headD 0).toNat - (b.headD 0).toNat
    else if a.headD 0 = 0 then 0
    else strncmp n a.tail b.tail

/-- The bytes of an ASCII string. -/
def ascii (s : String) : List UInt8 := s.toList.map fun c => c.toNat.toUInt8

@[simp] theorem str_nil : str [] = [] := rfl

theorem str_cons (b : UInt8) (bs : List UInt8) :
    str (b :: bs) = if b = 0 then [] else b :: str bs := by
  by_cases hb : b = 0 <;> simp [str, hb]

/-- A C string has no NUL in it. -/
theorem zero_notMem_str (bs : List UInt8) : 0 ∉ str bs := fun h => by
  simpa using List.mem_takeWhile_imp h

/-- Bytes without a NUL are their own C string. -/
theorem str_of_zero_notMem {bs : List UInt8} (h : 0 ∉ bs) : str bs = bs :=
  List.takeWhile_eq_self_iff.mpr fun b hb => by
    simp only [ne_eq, decide_not, Bool.not_eq_eq_eq_not, Bool.not_true, decide_eq_false_iff_not]
    rintro rfl
    exact h hb

/-- A string is shorter than bytes that hold its NUL. -/
theorem length_str_lt {bs : List UInt8} (h : 0 ∈ bs) : (str bs).length < bs.length := by
  induction bs with
  | nil => cases h
  | cons b bs ih =>
    rw [str_cons]
    split
    · exact Nat.succ_pos _
    · rename_i hb
      have := ih ((List.mem_cons.mp h).resolve_left (Ne.symm hb))
      simpa only [List.length_cons, Nat.add_lt_add_iff_right] using this

/-- A string that ends in the first of two byte sequences. -/
theorem str_append_of_mem {bs : List UInt8} (h : 0 ∈ bs) (cs : List UInt8) :
    str (bs ++ cs) = str bs := by
  induction bs with
  | nil => cases h
  | cons b bs ih =>
    rw [List.cons_append, str_cons, str_cons]
    split
    · rfl
    · rename_i hb
      rw [ih ((List.mem_cons.mp h).resolve_left (Ne.symm hb))]

/-- What follows a NUL is not part of the string. -/
theorem str_append_zero {bs : List UInt8} (h : 0 ∉ bs) (cs : List UInt8) :
    str (bs ++ 0 :: cs) = bs := by
  induction bs with
  | nil => rfl
  | cons b bs ih =>
    have hb : b ≠ 0 := fun hb => h (hb ▸ List.mem_cons_self)
    rw [List.cons_append, str_cons, if_neg hb, ih fun hm => h (List.mem_cons_of_mem b hm)]

/-- A string that does not end in the first of two byte sequences. -/
theorem str_append_of_notMem {bs : List UInt8} (h : 0 ∉ bs) (cs : List UInt8) :
    str (bs ++ cs) = bs ++ str cs := by
  induction bs with
  | nil => rfl
  | cons b bs ih =>
    obtain ⟨hb, hbs⟩ := not_or.mp (mt List.mem_cons.mpr h)
    rw [List.cons_append, str_cons, if_neg (Ne.symm hb), ih hbs, List.cons_append]

/-- A C string that a NUL follows, at the latest behind the bytes. -/
theorem exists_append_zero (bs cs : List UInt8) :
    ∃ rest, bs ++ 0 :: cs = str bs ++ 0 :: rest := by
  induction bs with
  | nil => exact ⟨cs, rfl⟩
  | cons b bs ih =>
    rw [str_cons]
    split
    · rename_i hb
      exact ⟨bs ++ 0 :: cs, by rw [hb, List.cons_append, List.nil_append]⟩
    · obtain ⟨rest, hrest⟩ := ih
      exact ⟨rest, by rw [List.cons_append, hrest, List.cons_append]⟩

/-- The byte at an index; NULs follow the end of a list. -/
def byteAt (bs : List UInt8) (i : Nat) : UInt8 := bs.getD i 0

@[simp] theorem byteAt_nil (i : Nat) : byteAt [] i = 0 := List.getD_nil

@[simp] theorem byteAt_cons_zero (b : UInt8) (bs : List UInt8) : byteAt (b :: bs) 0 = b := rfl

@[simp] theorem byteAt_cons_succ (b : UInt8) (bs : List UInt8) (i : Nat) :
    byteAt (b :: bs) (i + 1) = byteAt bs i := rfl

theorem byteAt_congr {bs bs' : List UInt8} {i : Nat} (h : bs[i]? = bs'[i]?) :
    byteAt bs i = byteAt bs' i := by
  rw [byteAt, byteAt, List.getD_eq_getElem?_getD, List.getD_eq_getElem?_getD, h]

/-- Past the end there are NULs. -/
theorem byteAt_of_length_le {bs : List UInt8} {i : Nat} (h : bs.length ≤ i) : byteAt bs i = 0 :=
  List.getD_eq_default bs 0 h

/-- A byte that is not NUL is in the list. -/
theorem lt_length_of_byteAt_ne {bs : List UInt8} {i : Nat} (h : byteAt bs i ≠ 0) :
    i < bs.length := by
  by_contra hle
  exact h (byteAt_of_length_le (Nat.not_lt.mp hle))

theorem byteAt_append_left {as bs : List UInt8} {i : Nat} (h : i < as.length) :
    byteAt (as ++ bs) i = byteAt as i :=
  List.getD_append as bs 0 i h

theorem byteAt_append_right (as bs : List UInt8) (i : Nat) :
    byteAt (as ++ bs) (as.length + i) = byteAt bs i := by
  rw [byteAt, List.getD_append_right as bs 0 _ (Nat.le_add_right _ _), Nat.add_sub_cancel_left,
    byteAt]

theorem byteAt_drop (bs : List UInt8) (k i : Nat) : byteAt (bs.drop k) i = byteAt bs (k + i) := by
  simp only [byteAt, List.getD_eq_getElem?_getD, List.getElem?_drop]

/-- NULs that follow anyway. -/
theorem byteAt_append_replicate (bs : List UInt8) (n i : Nat) :
    byteAt (bs ++ List.replicate n 0) i = byteAt bs i := by
  by_cases hi : i < bs.length
  · exact byteAt_append_left hi
  · obtain ⟨j, rfl⟩ := Nat.exists_eq_add_of_le (Nat.not_lt.mp hi)
    rw [byteAt_append_right, byteAt_of_length_le (Nat.le_add_right _ _)]
    simp only [byteAt, List.getD_eq_getElem?_getD, List.getElem?_replicate]
    split <;> rfl

/-- Bytes without a NUL are not NUL up to their end. -/
theorem byteAt_ne_zero {bs : List UInt8} {i : Nat} (h : 0 ∉ bs) (hi : i < bs.length) :
    byteAt bs i ≠ 0 := by
  rw [byteAt, List.getD_eq_getElem bs 0 hi]
  exact fun heq => h (heq ▸ List.getElem_mem hi)

/-- The C string of a byte sequence is found by comparing bytes up to its NUL. -/
theorem str_eq_iff {bs cs : List UInt8} (h : 0 ∉ cs) :
    str bs = cs ↔ ∀ i ≤ cs.length, byteAt bs i = byteAt cs i := by
  induction cs generalizing bs with
  | nil =>
    cases bs with
    | nil => simp
    | cons b bs => by_cases hb : b = 0 <;> simp [str_cons, hb]
  | cons c cs ih =>
    have hc : c ≠ 0 := fun hc => h (hc ▸ List.mem_cons_self)
    have hcs : 0 ∉ cs := fun hm => h (List.mem_cons_of_mem c hm)
    cases bs with
    | nil =>
      refine iff_of_false nofun fun hall => ?_
      exact hc (hall 0 (Nat.zero_le _)).symm
    | cons b bs =>
      rw [str_cons]
      by_cases hb : b = 0
      · -- The string ends where `cs` goes on
        rw [if_pos hb]
        refine iff_of_false nofun fun hall => ?_
        exact hc ((hall 0 (Nat.zero_le _)).symm.trans hb)
      · rw [if_neg hb, List.cons.injEq, ih hcs]
        constructor
        · rintro ⟨rfl, hall⟩ i hi
          cases i with
          | zero => rfl
          | succ i => exact hall i (Nat.le_of_succ_le_succ hi)
        · intro hall
          exact ⟨hall 0 (Nat.zero_le _), fun i hi => hall (i + 1) (Nat.succ_le_succ hi)⟩

/-- `strncmp` is 0 exactly when the strings agree in their first `n` characters. -/
theorem strncmp_eq_zero_iff (n : Nat) (a b : List UInt8) :
    strncmp n a b = 0 ↔ (str a).take n = (str b).take n := by
  induction n generalizing a b with
  | zero => simp [strncmp]
  | succ n ih =>
    have hne : ∀ x y : UInt8, x ≠ y → (x.toNat : Int) - y.toNat ≠ 0 := by
      intro x y hxy h
      exact hxy (UInt8.toNat_inj.mp (by omega))
    cases a with
    | nil =>
      cases b with
      | nil => simp [strncmp]
      | cons y b =>
        by_cases hy : y = 0
        · simp [strncmp, str_cons, hy]
        · simpa [strncmp, str_cons, hy, Ne.symm hy] using hne 0 y (Ne.symm hy)
    | cons x a =>
      cases b with
      | nil =>
        by_cases hx : x = 0
        · simp [strncmp, str_cons, hx]
        · simpa [strncmp, str_cons, hx] using hne x 0 hx
      | cons y b =>
        by_cases hxy : x = y
        · subst hxy
          by_cases hx : x = 0
          · simp [strncmp, str_cons, hx]
          · simp [strncmp, str_cons, hx, ih]
        · -- The first characters differ, also where one of them is the NUL
          have hsub := hne x y hxy
          have hstr : (str (x :: a)).take (n + 1) ≠ (str (y :: b)).take (n + 1) := by
            intro h
            by_cases hx : x = 0 <;> by_cases hy : y = 0
            · exact hxy (hx.trans hy.symm)
            · simp [str_cons, hx, hy] at h
            · simp [str_cons, hx, hy] at h
            · simp [str_cons, hx, hy, hxy] at h
          simp only [strncmp, List.headD_cons, ne_eq, hxy, not_false_eq_true, ↓reduceIte, hsub,
            hstr]

end CString

/-- A `char [n]`. -/
structure CharArray (n : Nat) where
  bytes : List UInt8
  size_eq : bytes.length = n
  deriving DecidableEq

namespace CharArray

variable {n : Nat}

@[ext] theorem ext {a b : CharArray n} (h : a.bytes = b.bytes) : a = b := by
  cases a; cases b; simpa using h

/-- An array of NULs. -/
def zero (n : Nat) : CharArray n := ⟨List.replicate n 0, List.length_replicate⟩

/-- `memcpy` of at most `n` bytes to the start of an array of NULs. -/
def ofBytes (n : Nat) (bs : List UInt8) : CharArray n :=
  ⟨bs.take n ++ List.replicate (n - bs.length) 0, by simp; omega⟩

/-- The C string in an array. -/
def str (a : CharArray n) : List UInt8 := CString.str a.bytes

/-- `strncpy` to an array of `n` characters, all of which it writes. -/
def strncpy (n : Nat) (src : List UInt8) : CharArray n := ofBytes n (CString.str src)

/-- `snprintf` to an array of `n` NULs: the text is cut to `n - 1` characters. -/
def snprintf (n : Nat) (text : List UInt8) : CharArray n :=
  ofBytes n ((CString.str text).take (n - 1))

/-- The `k` bytes of an array that start at an offset. -/
def field (a : CharArray n) (offset k : Nat) : CharArray k := ofBytes k (a.bytes.drop offset)

theorem ofBytes_bytes_of_le {bs : List UInt8} (h : bs.length ≤ n) :
    (ofBytes n bs).bytes = bs ++ List.replicate (n - bs.length) 0 := by
  simp only [ofBytes, List.take_of_length_le h]

/-- The bytes of a copy. -/
theorem byteAt_ofBytes {bs : List UInt8} {i : Nat} (hi : i < n) :
    CString.byteAt (ofBytes n bs).bytes i = CString.byteAt bs i := by
  rw [ofBytes, CString.byteAt_append_replicate]
  simp only [CString.byteAt, List.getD_eq_getElem?_getD, List.getElem?_take_of_lt hi]

/-- The bytes of a field. -/
theorem byteAt_field {a : CharArray n} {offset k i : Nat} (hi : i < k) :
    CString.byteAt (a.field offset k).bytes i = CString.byteAt a.bytes (offset + i) := by
  rw [field, byteAt_ofBytes hi, CString.byteAt_drop]

/-- Arrays with the same bytes are the same. -/
theorem ext_byteAt {a b : CharArray n}
    (h : ∀ i < n, CString.byteAt a.bytes i = CString.byteAt b.bytes i) : a = b := by
  refine ext (List.ext_getElem (a.size_eq.trans b.size_eq.symm) fun i ha hb => ?_)
  have := h i (a.size_eq ▸ ha)
  rwa [CString.byteAt, CString.byteAt, List.getD_eq_getElem _ 0 ha,
    List.getD_eq_getElem _ 0 hb] at this

/-- A field of a copy is a copy of the bytes from there on. -/
theorem field_ofBytes (bs : List UInt8) {offset k : Nat} (h : offset + k ≤ n) :
    (ofBytes n bs).field offset k = ofBytes k (bs.drop offset) := by
  refine ext_byteAt fun i hi => ?_
  rw [byteAt_field hi, byteAt_ofBytes (by omega), byteAt_ofBytes hi, CString.byteAt_drop]

/-- A copy ends where the array does. -/
theorem ofBytes_append_left {as bs : List UInt8} (h : n ≤ as.length) :
    ofBytes n (as ++ bs) = ofBytes n as := by
  refine ext_byteAt fun i hi => ?_
  rw [byteAt_ofBytes hi, byteAt_ofBytes hi, CString.byteAt_append_left (by omega)]

/-- NULs follow a copy that is shorter than the array anyway. -/
theorem ofBytes_append_zero (bs : List UInt8) : ofBytes n (bs ++ [0]) = ofBytes n bs := by
  refine ext_byteAt fun i hi => ?_
  rw [byteAt_ofBytes hi, byteAt_ofBytes hi]
  exact CString.byteAt_append_replicate bs 1 i

/-- A C string that fits is kept as it is: NULs follow it, or it fills the array. -/
theorem str_ofBytes {bs : List UInt8} (h0 : 0 ∉ bs) (hlen : bs.length ≤ n) :
    (ofBytes n bs).str = bs := by
  rw [str, ofBytes_bytes_of_le hlen]
  cases n - bs.length with
  | zero => rw [List.replicate_zero, List.append_nil, CString.str_of_zero_notMem h0]
  | succ k => rw [List.replicate_succ, CString.str_append_zero h0]

/-- `snprintf` stores the first characters of the string. -/
theorem str_snprintf (text : List UInt8) :
    (snprintf n text).str = (CString.str text).take (n - 1) := by
  refine str_ofBytes (fun h => CString.zero_notMem_str text (List.mem_of_mem_take h)) ?_
  exact (List.length_take_le _ _).trans (Nat.sub_le n 1)

/-- `snprintf` stores two texts alike if their first characters are the same. -/
theorem snprintf_eq_iff {text text' : List UInt8} : snprintf n text = snprintf n text' ↔
    (CString.str text).take (n - 1) = (CString.str text').take (n - 1) := by
  constructor
  · intro h
    rw [← str_snprintf, h, str_snprintf]
  · intro h
    rw [snprintf, h, snprintf]

/-- `snprintf` leaves a string with its NUL, and NULs behind it. -/
theorem snprintf_bytes (text : List UInt8) :
    (snprintf (n + 1) text).bytes = (snprintf (n + 1) text).str ++
      0 :: List.replicate (n - (snprintf (n + 1) text).str.length) 0 := by
  have hlen : ((CString.str text).take n).length ≤ n := List.length_take_le _ _
  rw [str_snprintf, snprintf, Nat.add_sub_cancel, ofBytes_bytes_of_le (Nat.le_succ_of_le hlen),
    Nat.succ_sub hlen, List.replicate_succ]

/-- `strncpy` between arrays of the same size copies the C string. -/
theorem str_strncpy (a : CharArray n) : (strncpy n a.bytes).str = a.str := by
  have hlen : (CString.str a.bytes).length ≤ a.bytes.length := (List.takeWhile_prefix _).length_le
  exact str_ofBytes (CString.zero_notMem_str _) (hlen.trans (Nat.le_of_eq a.size_eq))

@[simp] theorem str_zero : (zero n).str = [] := by
  cases n <;> simp [str, zero, List.replicate_succ, CString.str_cons]

end CharArray

/-! ### Little-endian words -/

/-- The unsigned value of little-endian bytes. -/
def leNat : List UInt8 → Nat
  | [] => 0
  | b :: bs => b.toNat + 256 * leNat bs

/-- The `k` low bytes of a number, low byte first. -/
def toLE : Nat → Nat → List UInt8
  | 0, _ => []
  | k + 1, x => x.toUInt8 :: toLE k (x / 256)

@[simp] theorem toLE_length (k x : Nat) : (toLE k x).length = k := by
  induction k generalizing x with
  | zero => rfl
  | succ k ih => simp [toLE, ih]

/-- The value of a word of four bytes. -/
theorem leNat_four {bs : List UInt8} (h : bs.length = 4) :
    leNat bs = (CString.byteAt bs 0).toNat + 256 * ((CString.byteAt bs 1).toNat +
      256 * ((CString.byteAt bs 2).toNat + 256 * (CString.byteAt bs 3).toNat)) := by
  obtain ⟨a, b, c, d, rfl⟩ : ∃ a b c d, bs = [a, b, c, d] := by
    match bs, h with
    | [a, b, c, d], _ => exact ⟨a, b, c, d, rfl⟩
  simp [leNat]

/-- Reading back a word. -/
theorem leNat_toLE (k x : Nat) : leNat (toLE k x) = x % 256 ^ k := by
  induction k generalizing x with
  | zero => simp [toLE, leNat, Nat.mod_one]
  | succ k ih =>
    have hb : x.toUInt8.toNat = x % 256 := by simp
    rw [toLE, leNat, ih, hb, Nat.pow_succ', Nat.mod_mul]

/-- The two's complement value of little-endian bytes. -/
def leInt (bs : List UInt8) : Int := (leNat bs : Int).bmod (256 ^ bs.length)

/-- The two's complement of a number, in `k` bytes, low byte first. -/
def toLEInt (k : Nat) (x : Int) : List UInt8 := toLE k (x % ((256 ^ k : Nat) : Int)).toNat

@[simp] theorem toLEInt_length (k : Nat) (x : Int) : (toLEInt k x).length = k :=
  toLE_length k _

/-- Reading back a signed word that fits. -/
theorem leInt_toLEInt {k : Nat} {x : Int} (hlo : -((256 ^ k : Nat) / 2 : Nat) ≤ x)
    (hhi : x < ((256 ^ k : Nat) + 1) / 2) : leInt (toLEInt k x) = x := by
  have hpos : 0 < 256 ^ k := Nat.pow_pos (by decide)
  have hnn : 0 ≤ x % ((256 ^ k : Nat) : Int) := Int.emod_nonneg x (by omega)
  have hval : (leNat (toLEInt k x) : Int) = x % ((256 ^ k : Nat) : Int) := by
    rw [toLEInt, leNat_toLE, Int.natCast_emod, Int.toNat_of_nonneg hnn, Int.emod_emod]
  rw [leInt, hval, toLEInt_length, Int.emod_bmod, Int.bmod_eq_of_le (by simpa using hlo) hhi]

/-- Reading back a natural number in an `int`. -/
theorem leInt_toLEInt_natCast {x : Nat} (hx : x < 0x80000000) :
    leInt (toLEInt 4 (x : Int)) = x := by
  refine leInt_toLEInt (Int.le_trans (by decide) (Int.natCast_nonneg x)) ?_
  exact Int.lt_of_lt_of_le (Int.ofNat_lt.mpr hx) (by decide)
