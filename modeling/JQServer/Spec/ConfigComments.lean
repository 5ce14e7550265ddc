import Mathlib.Data.Int.ModEq
import JQServer.Spec.ConfigMemory

/-!
# Comments in the configuration file

`config.ini` has lines that start with a ';' and are meant as comments. The reader has no
lines: a comment is text that is searched like the rest of the file. It is read as a
setting if it holds a key word that has not been found before it, or a '=' while the key
word before it has none yet.

`CommentKept` says for each key word where it and its '=' stand: both before the comment;
or not both before it and nothing of them in the comment either; or in the comment, or after
it where the comment ends the search for the key word. In the last two cases the value that
is found has to be the one of the rest of the file.
-/

namespace JQServer

open CString

/-- The text is made of whole lines. -/
def WholeLines (lines : List UInt8) : Prop := lines = [] ∨ ∃ l, lines = l ++ [10]

/-- A comment line. -/
def commentLine (text : List UInt8) : List UInt8 := 59 :: (text ++ [10])

/-- The text after the next '=' and the blanks that follow it. -/
def equalsText (rest : List UInt8) : Option (List UInt8) :=
  (strchr 61 rest).map fun p => p.tail.dropWhile isBlank

/-- The text that is read for a key word which is not complete in `before`, when `rest`
    follows: the search goes on for the '=' if the key word itself was found. -/
def restText (before rest : List UInt8) (key : ConfigInfoKeyWordId) : Option (List UInt8) :=
  match strstr (configFileKeyWord key) before with
  | some _ => equalsText rest
  | none => keyText key rest

/-- The comment has nothing in it that is searched for the key word. -/
def CommentSilent (before text : List UInt8) (key : ConfigInfoKeyWordId) : Prop :=
  0 ∉ text ∧
    match strstr (configFileKeyWord key) before with
    | some _ => 61 ∉ text
    | none => strstr (configFileKeyWord key) text = none

/-- The value in the text after a '=', up to a ';' or the end of the line; it is empty if
    neither of them follows. -/
def valueText (said : List UInt8) : List UInt8 := (parseConfigKeyWord said).getD []

/-- Values that the field of the key word cannot tell apart: strings are cut to the size of
    the field, and numbers to 8 and to 32 bits. -/
def SameValue (value value' : List UInt8) : ConfigInfoKeyWordId → Prop
  | .version => (str value).take 31 = (str value').take 31
  | .logLevel => atoi value ≡ atoi value' [ZMOD 2 ^ 8]
  | .mysqlBranchServerAddr => (str value).take 127 = (str value').take 127
  | .mysqlServerPort => atol value ≡ atol value' [ZMOD 2 ^ 32]
  | .mysqlDbName | .mysqlUserName | .mysqlPassword => (str value).take 63 = (str value').take 63

/-- The comment has a '=' for the key word, and behind it the value that the rest of the
    file has. -/
def CommentSame (before text rest : List UInt8) (key : ConfigInfoKeyWordId) : Prop :=
  ∃ said own, restText before (str (text ++ [10])) key = some said ∧
    restText before (str rest) key = some own ∧ SameValue (valueText said) (valueText own) key

/-- The comment has the key word and no '=' behind it, and the first '=' after the comment
    has the value that the rest of the file has. -/
def CommentRunsOn (before text rest : List UInt8) (key : ConfigInfoKeyWordId) : Prop :=
  0 ∉ text ∧ strstr (configFileKeyWord key) before = none ∧
    strstr (configFileKeyWord key) text ≠ none ∧ keyText key text = none ∧
    ∃ said own, equalsText (str rest) = some said ∧ keyText key (str rest) = some own ∧
      SameValue (valueText said) (valueText own) key

/-- The comment stands behind the end of the string, or for each key word the key word and
    its '=' stand before it, or it does not speak of the key word, or it changes nothing. -/
def CommentKept (before text rest : List UInt8) : Prop :=
  0 ∈ before ∨ ∀ key, keyText key before ≠ none ∨ CommentSilent before text key ∨
    CommentSame before text rest key ∨ CommentRunsOn before text rest key

variable {before text rest said said' : List UInt8} {key : ConfigInfoKeyWordId}
  {c c' : ConfigInfo}

/-! ### Searching past whole lines -/

/-- No key word has a newline or a ';' in it. -/
theorem separators_notMem_configFileKeyWord (key : ConfigInfoKeyWordId) :
    10 ∉ configFileKeyWord key ∧ 59 ∉ configFileKeyWord key := by
  cases key <;> decide

/-- A key word that is found in whole lines is found there when more text follows. -/
private theorem strstr_lines (hlines : WholeLines before) (rest : List UInt8) :
    strstr (configFileKeyWord key) (before ++ rest) =
      match strstr (configFileKeyWord key) before with
      | some p => some (p ++ rest)
      | none => strstr (configFileKeyWord key) rest := by
  have hne := configFileKeyWord_ne_nil key
  have hsep := (separators_notMem_configFileKeyWord key).1
  have hnil : strstr (configFileKeyWord key) [] = none := if_neg hne
  rcases hlines with rfl | ⟨l, rfl⟩
  · rw [hnil, List.nil_append]
  · -- No occurrence goes over the last newline
    rw [List.append_assoc, List.singleton_append, strstr_append_sep hsep hne,
      strstr_append_sep hsep hne]
    cases strstr (configFileKeyWord key) l with
    | some p => simp
    | none => simp [hnil]

/-- What is found in whole lines ends with their last newline. -/
private theorem strstr_lines_suffix (hlines : WholeLines before) {p : List UInt8}
    (h : strstr (configFileKeyWord key) before = some p) : ∃ l, p = l ++ [10] := by
  obtain ⟨hocc, pre, hpre, -⟩ := strstr_eq_some h
  have hp : p ≠ [] := by
    rintro rfl
    exact configFileKeyWord_ne_nil key (List.prefix_nil.mp hocc)
  rcases hlines with rfl | ⟨l, rfl⟩
  · exact absurd (List.append_eq_nil_iff.mp hpre.symm).2 hp
  · obtain ⟨p', b, rfl⟩ := List.eq_nil_or_concat' p |>.resolve_left hp
    rw [← List.append_assoc] at hpre
    have hb := (List.append_inj' hpre rfl).2
    exact ⟨p', by rw [← hb]⟩

/-- Blanks end at a byte that is none. -/
private theorem dropWhile_append_sep {f : UInt8 → Bool} {b : UInt8} (hb : f b = false)
    (l r : List UInt8) : (l ++ b :: r).dropWhile f = l.dropWhile f ++ b :: r := by
  induction l with
  | nil => rw [List.nil_append, List.dropWhile_cons, hb]; rfl
  | cons a l ih =>
    rw [List.cons_append, List.dropWhile_cons, List.dropWhile_cons]
    split
    · exact ih
    · rfl

/-- The key word is searched, and then its '='. -/
theorem keyText_eq_bind (key : ConfigInfoKeyWordId) (content : List UInt8) :
    keyText key content = (strstr (configFileKeyWord key) content).bind equalsText := by
  cases hp : strstr (configFileKeyWord key) content with
  | none => rw [keyText, hp]; rfl
  | some p => rw [keyText, hp]; rfl

/-- A '=' in a line has its value in the line. -/
theorem equalsText_line {l : List UInt8} (h : equalsText (l ++ [10]) ≠ none) :
    ∃ said, ∀ rest, equalsText (l ++ 10 :: rest) = some (said ++ 10 :: rest) := by
  obtain ⟨t, ht⟩ := Option.ne_none_iff_exists'.mp h
  obtain ⟨q, hq, -⟩ := Option.map_eq_some_iff.mp ht
  -- The newline that ends the line stands after the '='
  obtain ⟨l', q', rfl, hl', -⟩ := strchr_eq_some hq
  have hq' : q' ≠ [] := by
    rintro rfl
    exact absurd (List.append_inj' hl' rfl).2 (by decide)
  obtain ⟨q'', b, rfl⟩ := List.eq_nil_or_concat' q' |>.resolve_left hq'
  have hb : b = 10 := by
    have hassoc : l ++ [10] = (l' ++ 61 :: q'') ++ [b] := by
      rw [hl', List.append_assoc, List.cons_append]
    exact (List.cons.inj (List.append_inj' hassoc rfl).2).1.symm
  subst hb
  refine ⟨q''.dropWhile isBlank, fun rest => ?_⟩
  have hfound : strchr 61 (l ++ [10] ++ rest) = some (61 :: (q'' ++ [10]) ++ rest) :=
    strchr_append_of_some hq
  rw [List.append_assoc, List.singleton_append] at hfound
  rw [equalsText, hfound]
  simp only [Option.map_some, List.cons_append, List.tail_cons]
  rw [List.append_assoc, List.singleton_append, dropWhile_append_sep (by decide)]

/-- A key word that is complete in whole lines has its value in one of them. -/
theorem keyText_lines_some (hlines : WholeLines before) (h : keyText key before ≠ none) :
    ∃ said, ∀ rest, keyText key (before ++ rest) = some (said ++ 10 :: rest) := by
  rw [keyText_eq_bind] at h
  cases hp : strstr (configFileKeyWord key) before with
  | none =>
    rw [hp] at h
    exact absurd rfl h
  | some p =>
    rw [hp, Option.bind_some] at h
    obtain ⟨l, rfl⟩ := strstr_lines_suffix hlines hp
    obtain ⟨said, hsaid⟩ := equalsText_line h
    refine ⟨said, fun rest => ?_⟩
    rw [keyText_eq_bind, strstr_lines hlines, hp]
    show equalsText (l ++ [10] ++ rest) = _
    rw [List.append_assoc, List.singleton_append, hsaid rest]

/-- A key word that is not complete in whole lines is searched in the rest. -/
theorem keyText_lines_none (hlines : WholeLines before) (h : keyText key before = none)
    (rest : List UInt8) : keyText key (before ++ rest) = restText before rest key := by
  rw [keyText, strstr_lines hlines, restText]
  cases hp : strstr (configFileKeyWord key) before with
  | none => rfl
  | some p =>
    have hnone : strchr 61 p = none := by
      rwa [keyText, hp, Option.bind_some, Option.map_eq_none_iff] at h
    simp only [Option.bind_some, strchr_append_of_none hnone]
    rfl

/-- The ';' of the comment is passed over. -/
theorem restText_semicolon (before rest : List UInt8) (key : ConfigInfoKeyWordId) :
    restText before (59 :: rest) key = restText before rest key := by
  have hne := configFileKeyWord_ne_nil key
  have hnil : strstr (configFileKeyWord key) [] = none := if_neg hne
  have hsep := strstr_append_sep (l := []) (r := rest)
    (separators_notMem_configFileKeyWord key).2 hne
  rw [hnil, List.nil_append] at hsep
  unfold restText
  split
  · rfl
  · rw [keyText, hsep, keyText]

/-- A silent comment is passed over. -/
theorem CommentSilent.restText_eq (h : CommentSilent before text key) (rest : List UInt8) :
    restText before (str (text ++ 10 :: rest)) key = restText before (str rest) key := by
  obtain ⟨hnul, hsilent⟩ := h
  have hstr : str (text ++ 10 :: rest) = text ++ 10 :: str rest := by
    rw [str_append_of_notMem hnul, str_cons, if_neg (by decide)]
  rw [hstr]
  unfold restText
  split at hsilent
  -- The key word is found before the comment, and only a '=' is searched in it
  · have hskip : strchr 61 (text ++ 10 :: str rest) = strchr 61 (str rest) := by
      rw [strchr_append_of_none (strchr_of_notMem hsilent), strchr, if_neg (by decide)]
    simp only [equalsText, hskip]
  -- The key word itself is searched, and does not go over the newline
  · have hskip := strstr_append_sep (l := text) (r := str rest)
      (separators_notMem_configFileKeyWord key).1 (configFileKeyWord_ne_nil key)
    rw [hsilent] at hskip
    simp only [keyText, hskip]

/-! ### The settings -/

theorem ConfigInfo.SameField.symm (h : c.SameField c' key) : c'.SameField c key := by
  cases key <;> exact Eq.symm h

theorem ConfigInfo.SameField.trans {c'' : ConfigInfo} (h : c.SameField c' key)
    (h' : c'.SameField c'' key) : c.SameField c'' key := by
  cases key <;> exact Eq.trans h h'

/-- Records with the same fields are the same. -/
theorem ConfigInfo.eq_of_sameField (h : ∀ key, c.SameField c' key) : c = c' :=
  ConfigInfo.ext (h .version) (h .logLevel) (h .mysqlBranchServerAddr) (h .mysqlServerPort)
    (h .mysqlDbName) (h .mysqlUserName) (h .mysqlPassword)

/-- What a key word is assigned depends on its own field only. -/
theorem ConfigInfo.SameField.assign_self (h : c.SameField c' key) (text : List UInt8) :
    (c.assign key text).SameField (c'.assign key text) key := by
  unfold ConfigInfo.assign
  split
  · exact h
  · cases key <;> rfl

/-- Assigning key words leaves the fields of the others alone. -/
theorem foldl_assign_other {keys : List ConfigInfoKeyWordId} (hkey : key ∉ keys)
    (texts : ConfigInfoKeyWordId → List UInt8) (c : ConfigInfo) :
    (keys.foldl (fun c key => c.assign key (texts key)) c).SameField c key := by
  induction keys generalizing c with
  | nil => exact .refl c key
  | cons first keys ih =>
    obtain ⟨hne, hkeys⟩ := not_or.mp (mt List.mem_cons.mpr hkey)
    rw [List.foldl_cons]
    exact (ih hkeys _).assign (Ne.symm hne) _

/-- Each field is what its own key word was assigned. -/
theorem foldl_assign_own {keys : List ConfigInfoKeyWordId} (hnodup : keys.Nodup)
    (hkey : key ∈ keys) (texts : ConfigInfoKeyWordId → List UInt8) (c : ConfigInfo) :
    (keys.foldl (fun c key => c.assign key (texts key)) c).SameField
      (c.assign key (texts key)) key := by
  induction keys generalizing c with
  | nil => exact absurd hkey List.not_mem_nil
  | cons first keys ih =>
    obtain ⟨hfirst, hnodup⟩ := List.nodup_cons.mp hnodup
    rw [List.foldl_cons]
    by_cases hne : first = key
    · -- No later key word touches the field
      subst hne
      exact foldl_assign_other hfirst texts _
    · have hmem : key ∈ keys := (List.mem_cons.mp hkey).resolve_left (Ne.symm hne)
      have hsame : (c.assign first (texts first)).SameField c key :=
        (ConfigInfo.SameField.refl _ key).assign hne (texts first)
      exact (ih hnodup hmem _).trans (hsame.assign_self (texts key))

/-- Two readings give the same settings exactly if they do so for each key word. -/
theorem foldl_assign_eq_iff (texts texts' : ConfigInfoKeyWordId → List UInt8) :
    ConfigInfoKeyWordId.all.foldl (fun c key => c.assign key (texts' key)) ConfigInfo.zero =
        ConfigInfoKeyWordId.all.foldl (fun c key => c.assign key (texts key)) .zero ↔
      ∀ key, ConfigInfo.zero.assign key (texts' key) = ConfigInfo.zero.assign key (texts key) := by
  have hown := fun (texts : ConfigInfoKeyWordId → List UInt8) (key : ConfigInfoKeyWordId) =>
    foldl_assign_own (by decide) (mem_all key) texts .zero
  constructor
  · intro h key
    apply ConfigInfo.eq_of_sameField
    intro key'
    by_cases hne : key = key'
    · subst hne
      exact (hown texts' key).symm.trans (h ▸ hown texts key)
    · -- Other fields are zero in both
      have hzero := fun text => (ConfigInfo.SameField.refl (ConfigInfo.zero.assign key text)
        key').assign hne text
      exact (hzero _).trans (hzero _).symm
  · intro h
    apply ConfigInfo.eq_of_sameField
    intro key
    have hsame := hown texts' key
    rw [h key] at hsame
    exact hsame.trans (hown texts key).symm

/-- Without a value the field keeps its zeros, as with an empty one. -/
theorem ConfigInfo.zero_assign (key : ConfigInfoKeyWordId) (said : List UInt8) :
    ConfigInfo.zero.assign key said = ConfigInfo.zero.set (valueText said) key := by
  unfold ConfigInfo.assign valueText
  cases parseConfigKeyWord said with
  | some value => rfl
  | none => cases key <;> decide

/-- Balanced remainders are the same exactly if the numbers agree modulo `n`. -/
private theorem bmod_eq_iff_modEq {x y : Int} {n : Nat} :
    x.bmod n = y.bmod n ↔ x ≡ y [ZMOD n] := by
  constructor
  · intro h
    rw [Int.ModEq, ← Int.bmod_emod, h, Int.bmod_emod]
  · intro h
    rw [← Int.emod_bmod, h, Int.emod_bmod]

/-- A field holds the same of two values exactly if it cannot tell them apart. -/
theorem ConfigInfo.zero_set_eq_iff {value value' : List UInt8} :
    ConfigInfo.zero.set value key = ConfigInfo.zero.set value' key ↔
      SameValue value value' key := by
  cases key with
  | version => simp [ConfigInfo.set, SameValue, CharArray.snprintf_eq_iff]
  | logLevel => simp [ConfigInfo.set, SameValue, bmod_eq_iff_modEq]
  | mysqlBranchServerAddr => simp [ConfigInfo.set, SameValue, CharArray.snprintf_eq_iff]
  | mysqlServerPort =>
    simp only [ConfigInfo.set, SameValue, Int.ModEq, ConfigInfo.mk.injEq, true_and, and_true]
    omega
  | mysqlDbName => simp [ConfigInfo.set, SameValue, CharArray.snprintf_eq_iff]
  | mysqlUserName => simp [ConfigInfo.set, SameValue, CharArray.snprintf_eq_iff]
  | mysqlPassword => simp [ConfigInfo.set, SameValue, CharArray.snprintf_eq_iff]

/-- A value does not go beyond its line. -/
theorem parseConfigKeyWord_line (said rest rest' : List UInt8) :
    parseConfigKeyWord (said ++ 10 :: rest) = parseConfigKeyWord (said ++ 10 :: rest') := by
  -- The ';' or the newline that ends the value is in the line
  have htake : ∀ rest : List UInt8, (said ++ 10 :: rest).takeWhile (fun b => b ≠ 59 && b ≠ 10) =
      said.takeWhile fun b => b ≠ 59 && b ≠ 10 := by
    intro rest
    induction said with
    | nil => rfl
    | cons a said ih => rw [List.cons_append, List.takeWhile_cons, List.takeWhile_cons, ih]
  have hfound : ∀ rest : List UInt8, strchr 10 (said ++ 10 :: rest) ≠ none := fun rest =>
    strchr_ne_none (List.mem_append_right said List.mem_cons_self)
  unfold parseConfigKeyWord
  rw [if_pos (.inr (hfound rest)), if_pos (.inr (hfound rest')), htake, htake]

/-! ### Two readings -/

/-- The values that are read for a key word without the comment and with it are the same. -/
private def ReadAlike (before text rest : List UInt8) (key : ConfigInfoKeyWordId) : Prop :=
  ∃ said own, keyText key (before ++ 59 :: str (text ++ 10 :: rest)) = some said ∧
    keyText key (before ++ str rest) = some own ∧ SameValue (valueText said) (valueText own) key

/-- A '=' that the comment has for a key word is found with its value, whatever follows. -/
private theorem restText_comment_some
    (h : restText before (text ++ [10]) key = some said) (rest : List UInt8) :
    ∃ said', restText before (text ++ 10 :: rest) key = some said' ∧
      valueText said' = valueText said := by
  unfold restText at h ⊢
  cases hp : strstr (configFileKeyWord key) before with
  | some p =>
    -- Only the '=' is searched in the comment
    simp only [hp] at h ⊢
    obtain ⟨line, hline⟩ := equalsText_line (Option.ne_none_iff_exists'.mpr ⟨said, h⟩)
    obtain rfl : line ++ [10] = said := Option.some.inj ((hline []).symm.trans h)
    exact ⟨_, hline rest, congrArg (·.getD []) (parseConfigKeyWord_line line rest [])⟩
  | none =>
    -- The key word and the '=' are both in the comment
    simp only [hp] at h ⊢
    obtain ⟨line, hline⟩ := keyText_lines_some (.inr ⟨text, rfl⟩)
      (Option.ne_none_iff_exists'.mpr ⟨said, h⟩)
    have hnil := hline []
    rw [List.append_nil, h] at hnil
    obtain rfl : said = line ++ [10] := Option.some.inj hnil
    refine ⟨_, ?_, congrArg (·.getD []) (parseConfigKeyWord_line line rest [])⟩
    have hrest := hline rest
    rwa [List.append_assoc, List.singleton_append] at hrest

/-- After a key word in a comment with no '=' behind it, the next '=' is taken. -/
private theorem keyText_runsOn (hkey : strstr (configFileKeyWord key) text ≠ none)
    (hnone : keyText key text = none) (rest : List UInt8) :
    keyText key (text ++ 10 :: rest) = equalsText rest := by
  obtain ⟨p, hp⟩ := Option.ne_none_iff_exists'.mp hkey
  rw [keyText_eq_bind, hp, Option.bind_some, equalsText, Option.map_eq_none_iff] at hnone
  rw [keyText_eq_bind, strstr_append_sep (separators_notMem_configFileKeyWord key).1
    (configFileKeyWord_ne_nil key), hp]
  show (strchr 61 (p ++ 10 :: rest)).map _ = _
  rw [strchr_append_of_none hnone, strchr, if_neg (by decide), equalsText]

/-- A comment with no '=' for a key word is silent on it, or has the key word only. -/
private theorem restText_comment_none (hnul : 0 ∉ text)
    (h : restText before (text ++ [10]) key = none) :
    CommentSilent before text key ∨
      strstr (configFileKeyWord key) before = none ∧
        strstr (configFileKeyWord key) text ≠ none ∧ keyText key text = none := by
  unfold restText at h
  cases hp : strstr (configFileKeyWord key) before with
  | some p =>
    -- A '=' in the comment would have been found
    simp only [hp] at h
    refine .inl ⟨hnul, ?_⟩
    rw [hp]
    intro hmem
    exact strchr_ne_none (List.mem_append_left [10] hmem) (Option.map_eq_none_iff.mp h)
  | none =>
    simp only [hp] at h
    by_cases hkey : strstr (configFileKeyWord key) text = none
    · refine .inl ⟨hnul, ?_⟩
      rw [hp]
      exact hkey
    · -- With a '=' in the comment, there would be one in the line
      refine .inr ⟨rfl, hkey, ?_⟩
      by_contra hsome
      rw [keyText_eq_bind] at hsome h
      obtain ⟨p, hp⟩ := Option.ne_none_iff_exists'.mp hkey
      rw [strstr_append_sep (separators_notMem_configFileKeyWord key).1
        (configFileKeyWord_ne_nil key), hp] at h
      rw [hp, Option.bind_some, equalsText, Option.map_eq_none_iff.not, ← ne_eq,
        strchr_ne_none_iff] at hsome
      exact strchr_ne_none (List.mem_append_left [10] hsome) (Option.map_eq_none_iff.mp h)

/-- A key word that is not complete before the comment is searched from the comment on. -/
private theorem readAlike_iff_restText (hlines : WholeLines before)
    (hcomplete : keyText key before = none) :
    ReadAlike before text rest key ↔ ∃ said own,
      restText before (str (text ++ 10 :: rest)) key = some said ∧
        restText before (str rest) key = some own ∧
        SameValue (valueText said) (valueText own) key := by
  have hold := keyText_lines_none hlines hcomplete (str rest)
  have hnew := keyText_lines_none hlines hcomplete (59 :: str (text ++ 10 :: rest))
  rw [restText_semicolon] at hnew
  rw [ReadAlike, hold, hnew]

/-- A comment that is read alike is silent on the key word, or says the same, or runs on. -/
private theorem comment_of_readAlike {own : List UInt8}
    (hsaid : restText before (str (text ++ 10 :: rest)) key = some said)
    (hown : restText before (str rest) key = some own)
    (hsame : SameValue (valueText said) (valueText own) key) :
    CommentSilent before text key ∨ CommentSame before text rest key ∨
      CommentRunsOn before text rest key := by
  by_cases hnul : 0 ∈ text
  · -- The string ends in the comment
    rw [str_append_of_mem hnul] at hsaid
    refine .inr (.inl ⟨said, own, ?_, hown, hsame⟩)
    rwa [str_append_of_mem hnul]
  rw [str_append_of_notMem hnul, str_cons, if_neg (by decide)] at hsaid
  cases hline : restText before (text ++ [10]) key with
  | some said₀ =>
    -- The comment has a '=' for the key word, and its value ends with the line
    obtain ⟨said', hsaid', hvalue⟩ := restText_comment_some hline (str rest)
    obtain rfl : said' = said := Option.some.inj (hsaid'.symm.trans hsaid)
    refine .inr (.inl ⟨said₀, own, ?_, hown, hvalue ▸ hsame⟩)
    rwa [str_append_of_notMem hnul]
  | none =>
    rcases restText_comment_none hnul hline with hsilent | ⟨hbefore, hkey, hnone⟩
    · exact .inl hsilent
    · -- The key word is in the comment, and the '=' after it
      refine .inr (.inr ⟨hnul, hbefore, hkey, hnone, said, own, ?_, ?_, hsame⟩)
      · rw [restText, hbefore] at hsaid
        exact (keyText_runsOn hkey hnone _).symm.trans hsaid
      · rwa [restText, hbefore] at hown

/-- What a comment says is read with the rest of the file behind it. -/
private theorem CommentSame.restText_eq (h : CommentSame before text rest key) :
    ∃ said own, restText before (str (text ++ 10 :: rest)) key = some said ∧
      restText before (str rest) key = some own ∧
      SameValue (valueText said) (valueText own) key := by
  obtain ⟨said, own, hsaid, hown, hsame⟩ := h
  by_cases hnul : 0 ∈ text
  · rw [str_append_of_mem hnul] at hsaid
    refine ⟨said, own, ?_, hown, hsame⟩
    rwa [str_append_of_mem hnul]
  · rw [str_append_of_notMem hnul] at hsaid
    obtain ⟨said', hsaid', hvalue⟩ := restText_comment_some hsaid (str rest)
    refine ⟨said', own, ?_, hown, hvalue.symm ▸ hsame⟩
    rwa [str_append_of_notMem hnul, str_cons, if_neg (by decide)]

/-- A key word that the comment has without a '=' is read with the next '='. -/
private theorem CommentRunsOn.restText_eq (h : CommentRunsOn before text rest key) :
    ∃ said own, restText before (str (text ++ 10 :: rest)) key = some said ∧
      restText before (str rest) key = some own ∧
      SameValue (valueText said) (valueText own) key := by
  obtain ⟨hnul, hbefore, hkey, hnone, said, own, hsaid, hown, hsame⟩ := h
  refine ⟨said, own, ?_, ?_, hsame⟩
  · rw [str_append_of_notMem hnul, str_cons, if_neg (by decide), restText, hbefore]
    exact (keyText_runsOn hkey hnone _).trans hsaid
  · rw [restText, hbefore]
    exact hown

/-- A key word that is found without the comment is read alike exactly if it is complete
    before the comment, or the comment is silent on it or changes nothing. -/
private theorem readAlike_iff (hlines : WholeLines before)
    (hfound : keyText key (before ++ str rest) ≠ none) :
    ReadAlike before text rest key ↔ keyText key before ≠ none ∨
      CommentSilent before text key ∨ CommentSame before text rest key ∨
        CommentRunsOn before text rest key := by
  by_cases hcomplete : keyText key before = none
  · -- The key word is not complete before the comment, so the search comes to the comment
    rw [readAlike_iff_restText hlines hcomplete]
    constructor
    · rintro ⟨said, own, hsaid, hown, hsame⟩
      exact .inr (comment_of_readAlike hsaid hown hsame)
    · rintro (h | hsilent | hsame | hruns)
      · exact absurd hcomplete h
      · rw [keyText_lines_none hlines hcomplete] at hfound
        obtain ⟨own, hown⟩ := Option.ne_none_iff_exists'.mp hfound
        refine ⟨own, own, (hsilent.restText_eq rest).trans hown, hown, ?_⟩
        exact ConfigInfo.zero_set_eq_iff.mp rfl
      · exact hsame.restText_eq
      · exact hruns.restText_eq
  · -- It is found before, and its value ends with its line
    obtain ⟨said, hsaid⟩ := keyText_lines_some hlines hcomplete
    refine iff_of_true ⟨_, _, hsaid _, hsaid _, ?_⟩ (.inl hcomplete)
    rw [valueText, parseConfigKeyWord_line said _ (str rest), valueText]
    exact ConfigInfo.zero_set_eq_iff.mp rfl

/-- The string in a file that fits in the buffer. -/
private theorem configText_of_fits {file : List UInt8} (h : file.length < iniFileBufSize) :
    configText file = str file := by
  rw [configText, List.take_of_length_le (Nat.le_sub_one_of_lt h)]

/-- Every key word is found if the loop succeeds. -/
private theorem keyText_ne_none {content : List UInt8}
    (hok : (readConfigInfoLoop content ConfigInfoKeyWordId.all .zero).1 = 0)
    (key : ConfigInfoKeyWordId) : keyText key content ≠ none := by
  intro hnone
  have hfail := readConfigInfoLoop_missing (mem_all key) hnone .zero
  exact absurd (hok.symm.trans hfail) (by decide)

/-- Another string gives the same configuration exactly if its text for each key word sets the
    field of it to the same value. -/
private theorem readConfigInfoLoop_eq_iff {content content' : List UInt8}
    (hok : (readConfigInfoLoop content ConfigInfoKeyWordId.all .zero).1 = 0) :
    readConfigInfoLoop content' ConfigInfoKeyWordId.all .zero =
        readConfigInfoLoop content ConfigInfoKeyWordId.all .zero ↔
      ∀ key, ∃ said own, keyText key content' = some said ∧ keyText key content = some own ∧
        SameValue (valueText said) (valueText own) key := by
  simp only [← ConfigInfo.zero_set_eq_iff, ← ConfigInfo.zero_assign]
  constructor
  · -- Both readings find every key word
    intro h
    have hok' : (readConfigInfoLoop content' ConfigInfoKeyWordId.all .zero).1 = 0 := by
      rw [h]
      exact hok
    choose texts htexts using fun key => Option.ne_none_iff_exists'.mp (keyText_ne_none hok key)
    choose texts' htexts' using fun key => Option.ne_none_iff_exists'.mp (keyText_ne_none hok' key)
    rw [readConfigInfoLoop_found htexts, readConfigInfoLoop_found htexts'] at h
    have heq := (foldl_assign_eq_iff texts texts').mp (congrArg Prod.snd h)
    exact fun key => ⟨texts' key, texts key, htexts' key, htexts key, heq key⟩
  · intro h
    choose said own hsaid hown heq using h
    rw [readConfigInfoLoop_found hsaid, readConfigInfoLoop_found hown,
      (foldl_assign_eq_iff own said).mpr heq]

/-- A comment in front of a line keeps the configuration exactly if it is not read as one
    of the settings, or only as one that sets the same. -/
theorem readConfigInfo_comment_iff (hlines : WholeLines before)
    (hlen : (before ++ (commentLine text ++ rest)).length < iniFileBufSize)
    (configInfo : ConfigInfo)
    (hok : (readConfigInfo (some (before ++ rest)) configInfo).1 = 0) :
    readConfigInfo (some (before ++ (commentLine text ++ rest))) configInfo =
        readConfigInfo (some (before ++ rest)) configInfo ↔ CommentKept before text rest := by
  have hfile : before ++ rest ≠ [] := by
    intro h
    rw [h, readConfigInfo_nil] at hok
    exact absurd (show (-1 : Int) = 0 from hok) (by decide)
  have hfile' : before ++ (commentLine text ++ rest) ≠ [] := by
    simp [commentLine]
  have hlen' : (before ++ rest).length < iniFileBufSize := by
    rw [List.length_append] at hlen ⊢
    rw [List.length_append] at hlen
    omega
  have hbytes : commentLine text ++ rest = 59 :: (text ++ 10 :: rest) := by
    simp [commentLine]
  rw [readConfigInfo_eq_loop hfile, configText_of_fits hlen'] at hok ⊢
  rw [readConfigInfo_eq_loop hfile', configText_of_fits hlen]
  by_cases hnul : 0 ∈ before
  · -- The comment is behind the end of the string
    rw [str_append_of_mem hnul, str_append_of_mem hnul]
    exact iff_of_true rfl (.inl hnul)
  · rw [str_append_of_notMem hnul] at hok
    rw [str_append_of_notMem hnul, str_append_of_notMem hnul, hbytes, str_cons,
      if_neg (by decide)]
    have hfound := keyText_ne_none hok
    have halike : _ ↔ ∀ key, ReadAlike before text rest key := readConfigInfoLoop_eq_iff hok
    rw [halike]
    constructor
    · exact fun h => .inr fun key => (readAlike_iff hlines (hfound key)).mp (h key)
    · rintro (h | h) key
      · exact absurd h hnul
      · exact (readAlike_iff hlines (hfound key)).mpr (h key)

/-- A comment in front of `config.ini` that speaks of no key word. -/
theorem readConfigInfo_comment_kept :
    readConfigInfo (some ([] ++ (commentLine (ascii " the server") ++ configIni))) .zero =
      readConfigInfo (some ([] ++ configIni)) .zero := by
  have hrun : ([] ++ (commentLine (ascii " the server") ++ configIni)).length < iniFileBufSize ∧
      (readConfigInfo (some ([] ++ configIni)) .zero).1 = 0 := by
    decide +kernel
  have hsilent : ∀ key, CommentSilent [] (ascii " the server") key := by
    intro key
    have hnil : strstr (configFileKeyWord key) [] = none := if_neg (configFileKeyWord_ne_nil key)
    refine ⟨by decide, ?_⟩
    rw [hnil]
    show strstr (configFileKeyWord key) (ascii " the server") = none
    cases key <;> decide
  exact (readConfigInfo_comment_iff (.inl rfl) hrun.1 .zero hrun.2).mpr
    (.inr fun key => .inr (.inl (hsilent key)))

/-- A comment that mentions the log level sets it. -/
theorem readConfigInfo_comment_fails :
    ¬ ∀ (before text rest : List UInt8) (configInfo : ConfigInfo), WholeLines before →
      10 ∉ text → (before ++ (commentLine text ++ rest)).length < iniFileBufSize →
      (readConfigInfo (some (before ++ rest)) configInfo).1 = 0 →
      readConfigInfo (some (before ++ (commentLine text ++ rest))) configInfo =
        readConfigInfo (some (before ++ rest)) configInfo := by
  intro h
  have hrun : 10 ∉ ascii " LogLevel = 1" ∧
      ([] ++ (commentLine (ascii " LogLevel = 1") ++ configIni)).length < iniFileBufSize ∧
      (readConfigInfo (some ([] ++ configIni)) .zero).1 = 0 ∧
      (readConfigInfo (some ([] ++ (commentLine (ascii " LogLevel = 1") ++ configIni)))
        .zero).2.logLevel ≠ (readConfigInfo (some ([] ++ configIni)) .zero).2.logLevel := by
    decide +kernel
  obtain ⟨htext, hlen, hok, hne⟩ := hrun
  have heq := h [] (ascii " LogLevel = 1") configIni .zero (.inl rfl) htext hlen hok
  exact hne (congrArg (fun result => result.2.logLevel) heq)

end JQServer
