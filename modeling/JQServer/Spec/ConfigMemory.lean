import JQServer.Native.ConfigReader
import JQServer.Spec.ConfigKeys

/-!
# The configuration reader stays in its arrays

The file buffer ends with a NUL, as at most `INI_FILE_BUF_SIZE - 1` bytes are read into
zeros, so every scan stops inside of it. The copy of a value does not test for the NUL: it
stops because `strchr` has found a terminator, or at the size of `key_word_buf`.

`readConfigInfo_eq` says that the reader in memory does what the one on strings does. That
one has no `key_word_buf`, so nothing of an earlier key word is left in a value.
-/

namespace JQServer

open CString

/-- Every string field has a NUL in its array. -/
structure ConfigInfo.Terminated (c : ConfigInfo) : Prop where
  version : 0 ∈ c.version.bytes
  mysqlBranchServerAddr : 0 ∈ c.mysqlBranchServerAddr.bytes
  mysqlDbName : 0 ∈ c.mysqlDbName.bytes
  mysqlUserName : 0 ∈ c.mysqlUserName.bytes
  mysqlPassword : 0 ∈ c.mysqlPassword.bytes

/-- The field of a key word is the same. -/
def ConfigInfo.SameField (c c' : ConfigInfo) : ConfigInfoKeyWordId → Prop
  | .version => c.version = c'.version
  | .logLevel => c.logLevel = c'.logLevel
  | .mysqlBranchServerAddr => c.mysqlBranchServerAddr = c'.mysqlBranchServerAddr
  | .mysqlServerPort => c.mysqlServerPort = c'.mysqlServerPort
  | .mysqlDbName => c.mysqlDbName = c'.mysqlDbName
  | .mysqlUserName => c.mysqlUserName = c'.mysqlUserName
  | .mysqlPassword => c.mysqlPassword = c'.mysqlPassword

/-- The field of a key word has a value that starts the text after its own '='. -/
def ConfigInfo.OwnText (c : ConfigInfo) (content : List UInt8) (key : ConfigInfoKeyWordId) : Prop :=
  ∃ text value, keyText key content = some text ∧ value <+: text ∧ c.set value key = c

variable {s rest keyWord text : List UInt8} {key : ConfigInfoKeyWordId} {c c' : ConfigInfo}

/-! ### The copy of a value -/

namespace ConfigReader

/-- The copy stops at the terminator or at the end of `key_word_buf`. -/
private theorem copyKeyWord_eq {b : UInt8} {i : Nat} (rest : List UInt8)
    (hb : b = 59 ∨ b = 10) (htext : ∀ a ∈ text, a ≠ 59 ∧ a ≠ 10)
    (hsize : keyWord.length = configKeyWordBufSize) (hi : i ≤ configKeyWordBufSize) :
    ∃ keyWord', copyKeyWord (text ++ b :: rest) i keyWord =
        some (min (i + text.length) configKeyWordBufSize, keyWord') ∧
      keyWord'.length = configKeyWordBufSize ∧
      keyWord'.take (min (i + text.length) configKeyWordBufSize) =
        keyWord.take i ++ text.take (configKeyWordBufSize - i) := by
  induction text generalizing i keyWord with
  | nil =>
    have hstop : ¬ (b ≠ 59 ∧ b ≠ 10) := by
      rintro ⟨h59, h10⟩
      exact hb.elim h59 h10
    have hmin : min (i + ([] : List UInt8).length) configKeyWordBufSize = i := Nat.min_eq_left hi
    rw [hmin]
    refine ⟨keyWord, ?_, hsize, by simp⟩
    rw [List.nil_append, copyKeyWord, if_neg hstop, ite_self]
  | cons a text ih =>
    rw [List.cons_append, copyKeyWord]
    by_cases hlt : i < configKeyWordBufSize
    · rw [if_pos hlt, if_pos (htext a List.mem_cons_self)]
      have hfits : i + [a].length ≤ keyWord.length := by
        rw [hsize]
        exact hlt
      -- The character is stored behind the ones that were copied before
      have hwrite : Memory.write keyWord i [a] =
          some (keyWord.take i ++ [a] ++ keyWord.drop (i + 1)) := if_pos hfits
      have htake : (keyWord.take i ++ [a] ++ keyWord.drop (i + 1)).take (i + 1) =
          keyWord.take i ++ [a] := by
        apply List.take_left'
        rw [List.length_append, List.length_take, hsize, Nat.min_eq_left hi]
        rfl
      obtain ⟨keyWord', hcopy, hsize', htext'⟩ := ih
        (fun b hb => htext b (List.mem_cons_of_mem a hb))
        ((Memory.length_write hwrite).trans hsize) hlt
      have hcount : i + (a :: text).length = i + 1 + text.length := by
        rw [List.length_cons]
        omega
      have hroom : configKeyWordBufSize - i = configKeyWordBufSize - (i + 1) + 1 := by omega
      rw [hwrite, Option.bind_some, hcount]
      refine ⟨keyWord', hcopy, hsize', ?_⟩
      rw [htext', htake, hroom, List.take_succ_cons, List.append_assoc]
      rfl
    · -- The buffer is full
      have hfull : i = configKeyWordBufSize := by omega
      have hmin : min (i + (a :: text).length) configKeyWordBufSize = configKeyWordBufSize := by
        omega
      rw [if_neg hlt, hmin, hfull]
      exact ⟨keyWord, rfl, hsize, by simp⟩

/-- A string with a terminator in it, cut at the first one. -/
private theorem exists_terminator (h : 59 ∈ s ∨ 10 ∈ s) :
    ∃ b after, (b = 59 ∨ b = 10) ∧
      s = s.takeWhile (fun b => b ≠ 59 && b ≠ 10) ++ b :: after := by
  induction s with
  | nil => simp at h
  | cons a s ih =>
    by_cases ha : a = 59 ∨ a = 10
    · have hstop : (a ≠ 59 && a ≠ 10) = false := by
        rcases ha with rfl | rfl
        · rfl
        · rfl
      refine ⟨a, s, ha, ?_⟩
      rw [List.takeWhile_cons, hstop]
      rfl
    · obtain ⟨h59, h10⟩ := not_or.mp ha
      have hgo : (a ≠ 59 && a ≠ 10) = true := by simp [h59, h10]
      have hrest : 59 ∈ s ∨ 10 ∈ s := by
        simpa [Ne.symm h59, Ne.symm h10] using h
      obtain ⟨b, after, hb, heq⟩ := ih hrest
      refine ⟨b, after, hb, ?_⟩
      rw [List.takeWhile_cons, if_pos hgo, List.cons_append, ← heq]

/-- The searches for a terminator stop at the NUL. -/
private theorem hasTerminator_string (h : 0 ∉ s) :
    hasTerminator (s ++ 0 :: rest) = some (decide (59 ∈ s ∨ 10 ∈ s)) := by
  rw [hasTerminator, Pointer.strchr_string (by decide) h, Pointer.strchr_string (by decide) h]
  by_cases h59 : 59 ∈ s
  · obtain ⟨p, hp⟩ := Option.ne_none_iff_exists'.mp (strchr_ne_none h59)
    simp [hp, h59]
  · rw [strchr_of_notMem h59]
    by_cases h10 : 10 ∈ s
    · obtain ⟨p, hp⟩ := Option.ne_none_iff_exists'.mp (strchr_ne_none h10)
      simp [hp, h10]
    · simp [strchr_of_notMem h10, h59, h10]

/-- The value that `parse_config_key_word` copies, with the NUL behind it or over its last
    character. -/
private theorem copy_terminated (h : 0 ∉ text) (hsize : keyWord.length = configKeyWordBufSize)
    (hcopy : keyWord.take (min text.length configKeyWordBufSize) =
      text.take configKeyWordBufSize) :
    ∃ keyWord', Memory.write keyWord
        (min (min text.length configKeyWordBufSize) (configKeyWordBufSize - 1)) [0] =
          some keyWord' ∧ keyWord'.length = configKeyWordBufSize ∧
      Pointer.string keyWord' = some ((text.take configKeyWordBufSize).take
        (min (text.take configKeyWordBufSize).length (configKeyWordBufSize - 1))) := by
  have hlen : (text.take configKeyWordBufSize).length = min text.length configKeyWordBufSize := by
    rw [List.length_take, Nat.min_comm]
  rw [hlen]
  generalize hm : min (min text.length configKeyWordBufSize) (configKeyWordBufSize - 1) = m
  have hmlt : m < configKeyWordBufSize := by
    have : 0 < configKeyWordBufSize := by decide
    omega
  have hmle : m ≤ min text.length configKeyWordBufSize := by omega
  have hfits : m + [(0 : UInt8)].length ≤ keyWord.length := by
    rw [hsize]
    exact hmlt
  have hwrite : Memory.write keyWord m [0] =
      some (keyWord.take m ++ [0] ++ keyWord.drop (m + 1)) := if_pos hfits
  refine ⟨_, hwrite, (Memory.length_write hwrite).trans hsize, ?_⟩
  -- What stands before the NUL are characters of the text
  have hchars : keyWord.take m = (text.take configKeyWordBufSize).take m := by
    rw [← hcopy, List.take_take, Nat.min_eq_left hmle]
  have hnul : 0 ∉ (text.take configKeyWordBufSize).take m := fun hmem =>
    h (List.mem_of_mem_take (List.mem_of_mem_take hmem))
  rw [hchars, List.append_assoc, Pointer.string_eq_some (by simp)]
  exact congrArg some (str_append_zero hnul _)

/-- `parse_config_key_word` at a string in the file buffer: whatever `key_word` holds, it
    holds the value afterwards, with its NUL. -/
theorem parseConfigKeyWord_string (rest : List UInt8) (h : 0 ∉ s)
    (hsize : keyWord.length = configKeyWordBufSize) :
    ∃ keyWord', keyWord'.length = configKeyWordBufSize ∧
      match JQServer.parseConfigKeyWord s with
      | none => parseConfigKeyWord (s ++ 0 :: rest) keyWord = some (false, keyWord')
      | some value => parseConfigKeyWord (s ++ 0 :: rest) keyWord = some (true, keyWord') ∧
          Pointer.string keyWord' = some value := by
  by_cases hterm : 59 ∈ s ∨ 10 ∈ s
  · obtain ⟨b, after, hb, hcut⟩ := exists_terminator hterm
    have htext : ∀ a ∈ s.takeWhile (fun b => b ≠ 59 && b ≠ 10), a ≠ 59 ∧ a ≠ 10 := by
      intro a ha
      simpa using List.mem_takeWhile_imp ha
    have hnul : 0 ∉ s.takeWhile (fun b => b ≠ 59 && b ≠ 10) := fun hmem =>
      h ((List.takeWhile_prefix _).subset hmem)
    have hbytes : s ++ 0 :: rest =
        s.takeWhile (fun b => b ≠ 59 && b ≠ 10) ++ b :: (after ++ 0 :: rest) := by
      have happend := congrArg (· ++ 0 :: rest) hcut
      simpa only [List.append_assoc, List.cons_append] using happend
    obtain ⟨keyWord₁, hcopy, hsize₁, htake₁⟩ := copyKeyWord_eq (after ++ 0 :: rest) hb htext
      hsize (Nat.zero_le _)
    rw [Nat.zero_add] at hcopy
    rw [Nat.zero_add, List.take_zero, List.nil_append, Nat.sub_zero] at htake₁
    -- The NUL goes behind the characters, or over the last one
    obtain ⟨keyWord₂, hwrite, hsize₂, hstring⟩ := copy_terminated hnul hsize₁ htake₁
    have hvalue : JQServer.parseConfigKeyWord s = some
        (((s.takeWhile fun b => b ≠ 59 && b ≠ 10).take configKeyWordBufSize).take
          (min ((s.takeWhile fun b => b ≠ 59 && b ≠ 10).take configKeyWordBufSize).length
            (configKeyWordBufSize - 1))) := by
      unfold JQServer.parseConfigKeyWord
      rw [if_pos (hterm.imp strchr_ne_none strchr_ne_none)]
    refine ⟨keyWord₂, hsize₂, ?_⟩
    rw [hvalue]
    refine ⟨?_, hstring⟩
    unfold parseConfigKeyWord
    rw [hasTerminator_string h, decide_eq_true hterm]
    show (copyKeyWord (s ++ 0 :: rest) 0 keyWord).bind _ = _
    rw [hbytes, hcopy]
    show (Memory.write keyWord₁ _ [0]).bind _ = _
    rw [hwrite]
    rfl
  · refine ⟨keyWord, hsize, ?_⟩
    have hnone : JQServer.parseConfigKeyWord s = none := by
      by_contra hne
      exact hterm (parseConfigKeyWord_ne_none.mp hne)
    rw [hnone]
    show parseConfigKeyWord (s ++ 0 :: rest) keyWord = some (false, keyWord)
    unfold parseConfigKeyWord
    rw [hasTerminator_string h, decide_eq_false hterm]
    rfl

/-! ### The reader -/

/-- No key word has a NUL in it. -/
theorem zero_notMem_configFileKeyWord (key : ConfigInfoKeyWordId) :
    0 ∉ configFileKeyWord key := by
  cases key <;> decide

/-- The loop over the key words at a string in the file buffer does what the loop on the
    string does, whatever an earlier key word has left in `key_word_buf`. -/
theorem readConfigInfoLoop_string (h : 0 ∉ s) (keys : List ConfigInfoKeyWordId) (c : ConfigInfo)
    (hsize : keyWord.length = configKeyWordBufSize) :
    readConfigInfoLoop (s ++ 0 :: rest) keys c keyWord =
      some (JQServer.readConfigInfoLoop s keys c) := by
  induction keys generalizing c keyWord with
  | nil => rfl
  | cons key keys ih =>
    have hstrstr : Pointer.strstr (configFileKeyWord key) (s ++ 0 :: rest) =
        some ((strstr (configFileKeyWord key) s).map (· ++ 0 :: rest)) :=
      Pointer.strstr_string (zero_notMem_configFileKeyWord key) (configFileKeyWord_ne_nil key) h
    rw [readConfigInfoLoop, hstrstr, JQServer.readConfigInfoLoop]
    cases hp : strstr (configFileKeyWord key) s with
    | none => rfl
    | some p =>
      obtain ⟨-, l, hl, -⟩ := strstr_eq_some hp
      have hp0 : 0 ∉ p := fun hmem => h (hl ▸ List.mem_append_right l hmem)
      have hstrchr : Pointer.strchr 61 (p ++ 0 :: rest) =
          some ((strchr 61 p).map (· ++ 0 :: rest)) := Pointer.strchr_string (by decide) hp0
      rw [Option.map_some]
      show ((Pointer.strchr 61 (p ++ 0 :: rest)).bind _) = _
      rw [hstrchr, Option.bind_some]
      cases hq : strchr 61 p with
      | none => simp only [Option.map_none, hq]
      | some q =>
        obtain ⟨l', t, rfl, hl', -⟩ := strchr_eq_some hq
        have ht0 : 0 ∉ t := fun hmem =>
          hp0 (hl' ▸ List.mem_append_right l' (List.mem_cons_of_mem 61 hmem))
        have hskip : Pointer.skip (fun b => b = 9 || b = 32) (t ++ 0 :: rest) =
            some (t.dropWhile (fun b => b = 9 || b = 32) ++ 0 :: rest) := Pointer.skip_string rfl
        have htext0 : 0 ∉ t.dropWhile fun b => b = 9 || b = 32 := fun hmem =>
          ht0 ((List.dropWhile_suffix _).subset hmem)
        obtain ⟨keyWord', hsize', hparse⟩ := parseConfigKeyWord_string rest htext0 hsize
        simp only [hq, Option.map_some]
        show ((Pointer.skip _ (t ++ 0 :: rest)).bind _) = _
        rw [hskip, Option.bind_some, List.tail_cons]
        -- What the copy left in `key_word_buf` is the value, or is not read
        cases hvalue : JQServer.parseConfigKeyWord (t.dropWhile fun b => b = 9 || b = 32) with
        | none =>
          rw [hvalue] at hparse
          have hrun : parseConfigKeyWord (t.dropWhile (fun b => b = 9 || b = 32) ++ 0 :: rest)
              keyWord = some (false, keyWord') := hparse
          rw [hrun]
          exact ih c hsize'
        | some value =>
          rw [hvalue] at hparse
          obtain ⟨hrun, hstring⟩ := hparse
          rw [hrun]
          show ((Pointer.string keyWord').bind _) = _
          rw [hstring, Option.bind_some]
          exact ih (c.set value key) hsize'

/-- The reader in memory stays in its arrays and does what the reader on strings does. -/
theorem readConfigInfo_eq (file : Option (List UInt8)) (configInfo : ConfigInfo) :
    readConfigInfo file configInfo = some (JQServer.readConfigInfo file configInfo) := by
  unfold readConfigInfo JQServer.readConfigInfo
  cases hread : readFileToBuff file (iniFileBufSize - 1) with
  | none => rfl
  | some content =>
    -- At least one of the zeros of `bzero` is left behind the content
    have hlen : content.length < iniFileBufSize := by
      have hpos : 0 < iniFileBufSize := by decide
      cases file with
      | none => cases hread
      | some bytes =>
        rw [readFileToBuff] at hread
        split at hread
        · rw [← Option.some.inj hread, List.length_take]
          omega
        · cases hread
    have hwrite : Memory.write (List.replicate iniFileBufSize 0) 0 content =
        some (content ++ List.replicate (iniFileBufSize - content.length) 0) := by
      rw [Memory.write, if_pos (by rw [List.length_replicate]; omega), List.take_zero,
        List.nil_append, Nat.zero_add, List.drop_replicate]
    obtain ⟨n, hn⟩ : ∃ n, iniFileBufSize - content.length = n + 1 :=
      ⟨iniFileBufSize - content.length - 1, by omega⟩
    have hcut : ∃ rest, content ++ List.replicate (iniFileBufSize - content.length) 0 =
        str content ++ 0 :: rest := by
      rw [hn, List.replicate_succ]
      exact exists_append_zero content _
    obtain ⟨rest, hrest⟩ := hcut
    show (Memory.write _ 0 content).bind _ = _
    rw [hwrite, Option.bind_some, hrest]
    exact readConfigInfoLoop_string (zero_notMem_str content) _ _ List.length_replicate

end ConfigReader

/-! ### The fields afterwards -/

/-- What `snprintf` stores has a NUL in its array. -/
theorem zero_mem_snprintf {n : Nat} (hn : 0 < n) (text : List UInt8) :
    0 ∈ (CharArray.snprintf n text).bytes := by
  have hlen : ((str text).take (n - 1)).length ≤ n - 1 := List.length_take_le _ _
  rw [CharArray.snprintf, CharArray.ofBytes_bytes_of_le (by omega)]
  apply List.mem_append_right
  rw [List.mem_replicate]
  exact ⟨by omega, rfl⟩

theorem ConfigInfo.terminated_zero : ConfigInfo.zero.Terminated := by
  have hzero : ∀ n, 0 < n → 0 ∈ (CharArray.zero n).bytes := fun n hn => by
    rw [CharArray.zero, List.mem_replicate]
    exact ⟨by omega, rfl⟩
  exact ⟨hzero 32 (by decide), hzero 128 (by decide), hzero 64 (by decide),
    hzero 64 (by decide), hzero 64 (by decide)⟩

/-- Setting a field keeps the strings terminated. -/
theorem ConfigInfo.Terminated.set (h : c.Terminated) (value : List UInt8)
    (key : ConfigInfoKeyWordId) : (c.set value key).Terminated := by
  cases key with
  | version => exact { h with version := zero_mem_snprintf (by decide) value }
  | logLevel => exact { h with }
  | mysqlBranchServerAddr =>
    exact { h with mysqlBranchServerAddr := zero_mem_snprintf (by decide) value }
  | mysqlServerPort => exact { h with }
  | mysqlDbName => exact { h with mysqlDbName := zero_mem_snprintf (by decide) value }
  | mysqlUserName => exact { h with mysqlUserName := zero_mem_snprintf (by decide) value }
  | mysqlPassword => exact { h with mysqlPassword := zero_mem_snprintf (by decide) value }

theorem ConfigInfo.Terminated.assign (h : c.Terminated) (key : ConfigInfoKeyWordId)
    (text : List UInt8) : (c.assign key text).Terminated := by
  rw [ConfigInfo.assign]
  split
  · exact h
  · exact h.set _ key

/-- The loop keeps the strings terminated. -/
theorem ConfigInfo.Terminated.loop (h : c.Terminated) (content : List UInt8)
    (keys : List ConfigInfoKeyWordId) : (readConfigInfoLoop content keys c).2.Terminated := by
  induction keys generalizing c with
  | nil => exact h
  | cons key keys ih =>
    cases htext : keyText key content with
    | none =>
      rw [readConfigInfoLoop_none htext]
      exact h
    | some text =>
      rw [readConfigInfoLoop_some htext]
      exact ih (h.assign key text)

theorem ConfigInfo.SameField.refl (c : ConfigInfo) (key : ConfigInfoKeyWordId) :
    c.SameField c key := by
  cases key <;> rfl

/-- A field has a value if the same field of another record has it. -/
theorem ConfigInfo.SameField.set_eq {value : List UInt8} (h : c'.SameField c key)
    (hset : c.set value key = c) : c'.set value key = c' := by
  cases key with
  | version =>
    exact ConfigInfo.ext ((congrArg ConfigInfo.version hset).trans h.symm) rfl rfl rfl rfl rfl rfl
  | logLevel =>
    exact ConfigInfo.ext rfl ((congrArg ConfigInfo.logLevel hset).trans h.symm) rfl rfl rfl rfl rfl
  | mysqlBranchServerAddr =>
    exact ConfigInfo.ext rfl rfl ((congrArg ConfigInfo.mysqlBranchServerAddr hset).trans h.symm)
      rfl rfl rfl rfl
  | mysqlServerPort =>
    exact ConfigInfo.ext rfl rfl rfl ((congrArg ConfigInfo.mysqlServerPort hset).trans h.symm)
      rfl rfl rfl
  | mysqlDbName =>
    exact ConfigInfo.ext rfl rfl rfl rfl ((congrArg ConfigInfo.mysqlDbName hset).trans h.symm)
      rfl rfl
  | mysqlUserName =>
    exact ConfigInfo.ext rfl rfl rfl rfl rfl ((congrArg ConfigInfo.mysqlUserName hset).trans h.symm)
      rfl
  | mysqlPassword =>
    exact ConfigInfo.ext rfl rfl rfl rfl rfl rfl
      ((congrArg ConfigInfo.mysqlPassword hset).trans h.symm)

/-- Assigning a key word leaves the fields of the others alone. -/
theorem ConfigInfo.SameField.assign {first : ConfigInfoKeyWordId} (hne : first ≠ key)
    (text : List UInt8) (h : c'.SameField (c.assign first text) key) : c'.SameField c key := by
  rw [ConfigInfo.assign] at h
  split at h
  · exact h
  · cases first <;> cases key <;> first | exact h | exact absurd rfl hne

/-- A parsed value starts the text. -/
theorem parseConfigKeyWord_prefix {value : List UInt8} (h : parseConfigKeyWord text = some value) :
    value <+: text := by
  unfold parseConfigKeyWord at h
  split at h
  · rw [← Option.some.inj h]
    exact (List.take_prefix _ _).trans ((List.take_prefix _ _).trans (List.takeWhile_prefix _))
  · exact nomatch h

/-- After the loop each field is as before or has a value from its own text. -/
theorem readConfigInfoLoop_ownText (content : List UInt8) (keys : List ConfigInfoKeyWordId)
    (c : ConfigInfo) (key : ConfigInfoKeyWordId) :
    (readConfigInfoLoop content keys c).2.SameField c key ∨
      (readConfigInfoLoop content keys c).2.OwnText content key := by
  induction keys generalizing c with
  | nil => exact .inl (.refl c key)
  | cons first keys ih =>
    cases htext : keyText first content with
    | none =>
      rw [readConfigInfoLoop_none htext]
      exact .inl (.refl c key)
    | some text =>
      rw [readConfigInfoLoop_some htext]
      rcases ih (c.assign first text) with hsame | hown
      · -- No later key word has set the field: this one has, or the field is as it was
        by_cases hne : first = key
        · subst hne
          cases hparse : parseConfigKeyWord text with
          | none =>
            have hassign : c.assign first text = c := by rw [ConfigInfo.assign, hparse]
            rw [hassign] at hsame ⊢
            exact .inl hsame
          | some value =>
            have hassign : c.assign first text = c.set value first := by
              rw [ConfigInfo.assign, hparse]
            rw [hassign] at hsame ⊢
            exact .inr ⟨text, value, htext, parseConfigKeyWord_prefix hparse,
              hsame.set_eq (set_set c value first)⟩
        · exact .inl (hsame.assign hne text)
      · exact .inr hown

/-- On any file the reader ends, stays in its arrays, leaves each field alone, cleared or
    with a value from its own text, and leaves every string terminated. -/
theorem readConfigInfo_safe (file : List UInt8) {configInfo : ConfigInfo}
    (h : configInfo.Terminated) :
    ∃ ret c, ConfigReader.readConfigInfo (some file) configInfo = some (ret, c) ∧
      c.Terminated ∧ ∀ key, c.SameField configInfo key ∨ c.SameField .zero key ∨
        c.OwnText (configText file) key := by
  have hread := ConfigReader.readConfigInfo_eq (some file) configInfo
  by_cases hfile : file = []
  · -- Nothing is read, and the record is not touched
    rw [hfile, readConfigInfo_nil] at hread
    rw [hfile]
    exact ⟨-1, configInfo, hread, h, fun key => .inl (.refl configInfo key)⟩
  · rw [readConfigInfo_eq_loop hfile] at hread
    have hterminated := ConfigInfo.terminated_zero.loop (configText file) ConfigInfoKeyWordId.all
    have hown := readConfigInfoLoop_ownText (configText file) ConfigInfoKeyWordId.all .zero
    generalize readConfigInfoLoop (configText file) ConfigInfoKeyWordId.all .zero = result
      at hread hterminated hown
    obtain ⟨ret, c⟩ := result
    exact ⟨ret, c, hread, hterminated, fun key => .inr (hown key)⟩

/-- A file with neither a ';' nor a newline. -/
theorem readConfigInfo_safe_unterminated :
    ∃ ret c, ConfigReader.readConfigInfo (some (ascii "Version = 1.0")) .zero = some (ret, c) ∧
      c.Terminated ∧ ∀ key, c.SameField .zero key ∨ c.SameField .zero key ∨
        c.OwnText (configText (ascii "Version = 1.0")) key :=
  readConfigInfo_safe _ ConfigInfo.terminated_zero

end JQServer
