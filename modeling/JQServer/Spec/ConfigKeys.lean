import JQServer.Spec.ConfigRoundTrip

/-!
# What is read for a key word

`read_config_info` does three things for each key word: it searches the key word, searches
the '=' after it, and parses the value. The first two end the reading with -1 if they fail.
The third one does not: the key word is skipped, its field keeps the zeros of `bzero`, and
0 is returned in the end (`readConfigInfo_reads_all_iff`).
-/

namespace JQServer

open CString

/-- The text after the '=' of a key word and the blanks that follow it. -/
def keyText (key : ConfigInfoKeyWordId) (content : List UInt8) : Option (List UInt8) :=
  ((strstr (configFileKeyWord key) content).bind (strchr 61)).map fun p =>
    p.tail.dropWhile isBlank

/-- The string that `read_config_info` searches. -/
def configText (file : List UInt8) : List UInt8 := str (file.take (iniFileBufSize - 1))

/-- What is done with the text after the '=' of a key word. -/
def ConfigInfo.assign (c : ConfigInfo) (key : ConfigInfoKeyWordId) (text : List UInt8) :
    ConfigInfo :=
  match parseConfigKeyWord text with
  | none => c
  | some value => c.set value key

variable {content text value : List UInt8} {key key' : ConfigInfoKeyWordId} {c c' : ConfigInfo}

/-! ### The loop over the key words -/

/-- A key word that is not found, or has no '=' after it, ends the reading. -/
theorem readConfigInfoLoop_none (h : keyText key content = none)
    (keys : List ConfigInfoKeyWordId) (c : ConfigInfo) :
    readConfigInfoLoop content (key :: keys) c = (-1, c) := by
  unfold keyText at h
  rw [readConfigInfoLoop]
  cases hp : strstr (configFileKeyWord key) content with
  | none => rfl
  | some p =>
    rw [hp, Option.bind_some, Option.map_eq_none_iff] at h
    simp only [h]

/-- The value of a key word is assigned if it is parsed, and the reading goes on. -/
theorem readConfigInfoLoop_some (h : keyText key content = some text)
    (keys : List ConfigInfoKeyWordId) (c : ConfigInfo) :
    readConfigInfoLoop content (key :: keys) c =
      readConfigInfoLoop content keys (c.assign key text) := by
  obtain ⟨q, hq, rfl⟩ := Option.map_eq_some_iff.mp h
  obtain ⟨p, hp, hq⟩ := Option.bind_eq_some_iff.mp hq
  rw [readConfigInfoLoop, ConfigInfo.assign]
  simp only [hp, hq]
  show _ = readConfigInfoLoop content keys
    (match parseConfigKeyWord (q.tail.dropWhile isBlank) with
      | none => c
      | some value => c.set value key)
  -- `isBlank` is the test of the loop
  have hblank : (q.tail.dropWhile fun b => b = 9 || b = 32) = q.tail.dropWhile isBlank := rfl
  rw [hblank]
  cases parseConfigKeyWord (q.tail.dropWhile isBlank) with
  | none => rfl
  | some value => rfl

/-- One key word that is missing is enough for the reading to fail. -/
theorem readConfigInfoLoop_missing {keys : List ConfigInfoKeyWordId} (hmem : key ∈ keys)
    (h : keyText key content = none) (c : ConfigInfo) :
    (readConfigInfoLoop content keys c).1 = -1 := by
  induction keys generalizing c with
  | nil => exact absurd hmem List.not_mem_nil
  | cons first keys ih =>
    cases hfirst : keyText first content with
    | none => rw [readConfigInfoLoop_none hfirst]
    | some text =>
      have hne : key ≠ first := by
        rintro rfl
        exact nomatch h.symm.trans hfirst
      rw [readConfigInfoLoop_some hfirst]
      exact ih ((List.mem_cons.mp hmem).resolve_left hne) _

/-- If no key word is missing, 0 is returned, whatever the values are. -/
theorem readConfigInfoLoop_found {texts : ConfigInfoKeyWordId → List UInt8}
    (h : ∀ key, keyText key content = some (texts key)) (keys : List ConfigInfoKeyWordId)
    (c : ConfigInfo) : readConfigInfoLoop content keys c =
      (0, keys.foldl (fun c key => c.assign key (texts key)) c) := by
  induction keys generalizing c with
  | nil => rfl
  | cons key keys ih => rw [readConfigInfoLoop_some (h key), ih, List.foldl_cons]

theorem mem_all (key : ConfigInfoKeyWordId) : key ∈ ConfigInfoKeyWordId.all := by
  cases key <;> decide

theorem configFileKeyWord_ne_nil (key : ConfigInfoKeyWordId) : configFileKeyWord key ≠ [] := by
  cases key <;> decide

/-- Nothing is found in no text. -/
theorem keyText_nil (key : ConfigInfoKeyWordId) : keyText key [] = none := by
  rw [keyText, strstr, if_neg (configFileKeyWord_ne_nil key)]
  rfl

/-- `read_config_info` is its loop on the string in the file, if it can read the file. -/
theorem readConfigInfo_eq_loop {file : List UInt8} (hfile : file ≠ []) (configInfo : ConfigInfo) :
    readConfigInfo (some file) configInfo =
      readConfigInfoLoop (configText file) ConfigInfoKeyWordId.all .zero := by
  have hlen : (file.take (iniFileBufSize - 1)).length > 0 := by
    obtain ⟨b, bs, rfl⟩ := List.exists_cons_of_ne_nil hfile
    exact Nat.zero_lt_succ _
  rw [readConfigInfo, readFileToBuff]
  simp only [if_pos hlen]
  rfl

/-- An empty file cannot be read. -/
theorem readConfigInfo_nil (configInfo : ConfigInfo) :
    readConfigInfo (some []) configInfo = (-1, configInfo) := rfl

/-! ### The fields -/

/-- Setting a field to the value that it has. -/
theorem set_set (c : ConfigInfo) (value : List UInt8) (key : ConfigInfoKeyWordId) :
    (c.set value key).set value key = c.set value key := by
  cases key <;> rfl

/-- Key words set different fields. -/
theorem set_comm (h : key ≠ key') (c : ConfigInfo) (value value' : List UInt8) :
    (c.set value key).set value' key' = (c.set value' key').set value key := by
  cases key <;> cases key' <;> first | rfl | exact absurd rfl h

/-- A field that has its value keeps it while other key words are assigned. -/
theorem set_foldl_assign {keys : List ConfigInfoKeyWordId} (hkey : key ∉ keys)
    (texts : ConfigInfoKeyWordId → List UInt8) (h : c.set value key = c) :
    (keys.foldl (fun c key => c.assign key (texts key)) c).set value key =
      keys.foldl (fun c key => c.assign key (texts key)) c := by
  induction keys generalizing c with
  | nil => exact h
  | cons first keys ih =>
    obtain ⟨hne, hkeys⟩ := not_or.mp (mt List.mem_cons.mpr hkey)
    rw [List.foldl_cons]
    apply ih hkeys
    rw [ConfigInfo.assign]
    split
    · exact h
    · rw [set_comm (Ne.symm hne), h]

/-- The fields after the loop have the values that were parsed. -/
theorem foldl_assign_set {keys : List ConfigInfoKeyWordId} (hnodup : keys.Nodup)
    (hkey : key ∈ keys) {texts : ConfigInfoKeyWordId → List UInt8}
    (h : parseConfigKeyWord (texts key) = some value) (c : ConfigInfo) :
    (keys.foldl (fun c key => c.assign key (texts key)) c).set value key =
      keys.foldl (fun c key => c.assign key (texts key)) c := by
  induction keys generalizing c with
  | nil => exact absurd hkey List.not_mem_nil
  | cons first keys ih =>
    obtain ⟨hfirst, hnodup⟩ := List.nodup_cons.mp hnodup
    rw [List.foldl_cons]
    rcases List.mem_cons.mp hkey with rfl | hkey
    · apply set_foldl_assign hfirst
      simp only [ConfigInfo.assign, h, set_set]
    · exact ih hnodup hkey _

/-! ### All settings -/

/-- A value is parsed exactly if a terminator stands somewhere after it. -/
theorem parseConfigKeyWord_ne_none : parseConfigKeyWord text ≠ none ↔ 59 ∈ text ∨ 10 ∈ text := by
  unfold parseConfigKeyWord
  rw [← strchr_ne_none_iff, ← strchr_ne_none_iff]
  split
  · rename_i h
    exact iff_of_true nofun h
  · rename_i h
    exact iff_of_false (fun hne => hne rfl) h

/-- 0 is returned only if all seven values were parsed and stand in their fields, and -1 if
    one of them cannot be parsed. -/
structure ReadsAll (file : List UInt8) (configInfo : ConfigInfo) : Prop where
  success : (readConfigInfo (some file) configInfo).1 = 0 →
    ∀ key, ∃ text value, keyText key (configText file) = some text ∧
      parseConfigKeyWord text = some value ∧
      (readConfigInfo (some file) configInfo).2.set value key =
        (readConfigInfo (some file) configInfo).2
  failure : ∀ key text, keyText key (configText file) = some text →
    parseConfigKeyWord text = none → (readConfigInfo (some file) configInfo).1 = -1

/-- If no key word is missing, a ';' or a newline follows each of them. -/
def ValuesEnd (content : List UInt8) : Prop :=
  (∀ key, keyText key content ≠ none) →
    ∀ key text, keyText key content = some text → 59 ∈ text ∨ 10 ∈ text

/-- Success means that all settings were read exactly if a file with all key words has a
    terminator after each of them. -/
theorem readConfigInfo_reads_all_iff (file : List UInt8) (configInfo : ConfigInfo) :
    ReadsAll file configInfo ↔ ValuesEnd (configText file) := by
  by_cases hfile : file = []
  · -- No key word is found in an empty file
    have hnone : ∀ key, keyText key (configText file) = none := by
      intro key
      rw [hfile]
      exact keyText_nil key
    refine iff_of_true ⟨fun h => ?_, fun key text htext => ?_⟩ fun h => ?_
    · rw [hfile, readConfigInfo_nil] at h
      exact absurd (show (-1 : Int) = 0 from h) (by decide)
    · exact nomatch (hnone key).symm.trans htext
    · exact absurd (hnone .version) (h .version)
  · have hread := readConfigInfo_eq_loop hfile configInfo
    constructor
    · -- A value without an end would make the call fail, and it returns 0
      intro h hfound key text htext
      choose texts htexts using fun key => Option.ne_none_iff_exists'.mp (hfound key)
      apply parseConfigKeyWord_ne_none.mp
      intro hnone
      have hfail := h.failure key text htext hnone
      rw [hread, readConfigInfoLoop_found htexts] at hfail
      exact absurd (show (0 : Int) = -1 from hfail) (by decide)
    · intro h
      by_cases hfound : ∀ key, keyText key (configText file) ≠ none
      · choose texts htexts using fun key => Option.ne_none_iff_exists'.mp (hfound key)
        have hparse : ∀ key, ∃ value, parseConfigKeyWord (texts key) = some value := fun key =>
          Option.ne_none_iff_exists'.mp
            (parseConfigKeyWord_ne_none.mpr (h hfound key _ (htexts key)))
        refine ⟨fun _ key => ?_, fun key text htext hnone => ?_⟩
        · obtain ⟨value, hvalue⟩ := hparse key
          refine ⟨texts key, value, htexts key, hvalue, ?_⟩
          rw [hread, readConfigInfoLoop_found htexts]
          exact foldl_assign_set (by decide) (mem_all key) hvalue _
        · obtain ⟨value, hvalue⟩ := hparse key
          obtain rfl := Option.some.inj ((htexts key).symm.trans htext)
          exact nomatch hnone.symm.trans hvalue
      · -- A key word is missing, and -1 is returned anyway
        obtain ⟨key, hkey⟩ := not_forall.mp hfound
        have hfail := readConfigInfoLoop_missing (mem_all key) (not_not.mp hkey) .zero
        rw [← readConfigInfo_eq_loop hfile configInfo] at hfail
        refine ⟨fun hok => ?_, fun _ _ _ _ => hfail⟩
        exact absurd (hok.symm.trans hfail) (by decide)

/-- All seven key words on one line each, and no newline after the last one. -/
private def noFinalNewline : List UInt8 := ascii
  "Version=1\nLogLevel=4\nMySqlBranchServerAddr=a\nMySqlServerPort=1\nMySqlDbName=d\nMySqlUserName=u\nMySqlPassword=p"

/-- The password is not read, and 0 is returned. -/
theorem readConfigInfo_reads_all_fails :
    ¬ ∀ (file : List UInt8) (configInfo : ConfigInfo), ReadsAll file configInfo := by
  intro h
  have hrun : (readConfigInfo (some noFinalNewline) .zero).1 = 0 ∧
      keyText .mysqlPassword (configText noFinalNewline) = some [112] := by
    decide +kernel
  have hfail := (h noFinalNewline .zero).failure .mysqlPassword [112] hrun.2 rfl
  exact absurd (hrun.1.symm.trans hfail) (by decide)

end JQServer
