import JQServer.Native.ClientPackets
import JQServer.Native.ConfigInfo
import JQServer.Native.NetUpdate

/-!
# Reading back a configuration file

`ConfigFile v file` says that the file has a line for each key word with the values of
`v`, in any order and among any other lines, and that no key word occurs a second time.
`keyLine_parse` follows the three searches for one key word: they stay on its line. The
loop over the key words then reads all of `v`.
-/

namespace JQServer

open CString

/-! ### Files -/

/-- A tab or a space. -/
def isBlank (b : UInt8) : Bool := b = 9 || b = 32

/-- The text of a value. -/
structure IsValue (text : List UInt8) : Prop where
  semicolon : 59 ∉ text
  newline : 10 ∉ text
  nulFree : 0 ∉ text
  blank : ∀ b, text.head? = some b → isBlank b = false

theorem isValue_iff {text : List UInt8} : IsValue text ↔
    59 ∉ text ∧ 10 ∉ text ∧ 0 ∉ text ∧ (text.head?.all fun b => !isBlank b) = true := by
  constructor
  · intro h
    refine ⟨h.semicolon, h.newline, h.nulFree, ?_⟩
    cases hb : text.head? with
    | none => rfl
    | some b => simp [h.blank b hb]
  · rintro ⟨hsemi, hnewline, hnul, hblank⟩
    refine ⟨hsemi, hnewline, hnul, fun b hb => ?_⟩
    simpa [hb] using hblank

instance (text : List UInt8) : Decidable (IsValue text) := decidable_of_iff _ isValue_iff.symm

/-- The values that a configuration file can hold. -/
structure ConfigValues where
  version : CStr 32
  logLevel : Int
  mysqlBranchServerAddr : CStr 128
  mysqlServerPort : Nat
  mysqlDbName : CStr 64
  mysqlUserName : CStr 64
  mysqlPassword : CStr 64
  isValue_version : IsValue version.chars
  logLevel_signedChar : -128 ≤ logLevel ∧ logLevel ≤ 127
  isValue_mysqlBranchServerAddr : IsValue mysqlBranchServerAddr.chars
  mysqlServerPort_lt : mysqlServerPort < 2 ^ 32
  isValue_mysqlDbName : IsValue mysqlDbName.chars
  isValue_mysqlUserName : IsValue mysqlUserName.chars
  isValue_mysqlPassword : IsValue mysqlPassword.chars

/-- The `CONFIG_INFO` with these values. -/
def ConfigValues.configInfo (v : ConfigValues) : ConfigInfo where
  version := .ofBytes 32 v.version.chars
  logLevel := v.logLevel
  mysqlBranchServerAddr := .ofBytes 128 v.mysqlBranchServerAddr.chars
  mysqlServerPort := v.mysqlServerPort
  mysqlDbName := .ofBytes 64 v.mysqlDbName.chars
  mysqlUserName := .ofBytes 64 v.mysqlUserName.chars
  mysqlPassword := .ofBytes 64 v.mysqlPassword.chars

/-- A decimal number, with leading zeros up to the size of the key word buffer. -/
def NumberText (text : List UInt8) (x : Int) : Prop :=
  IsDecimal text x ∧ text.length < configKeyWordBufSize

/-- The value of a key word is written so. -/
def ConfigValues.Text (v : ConfigValues) (text : List UInt8) : ConfigInfoKeyWordId → Prop
  | .version => text = v.version.chars
  | .logLevel => NumberText text v.logLevel
  | .mysqlBranchServerAddr => text = v.mysqlBranchServerAddr.chars
  | .mysqlServerPort => NumberText text v.mysqlServerPort
  | .mysqlDbName => text = v.mysqlDbName.chars
  | .mysqlUserName => text = v.mysqlUserName.chars
  | .mysqlPassword => text = v.mysqlPassword.chars

/-- The file has a line of the form key, blanks, '=', blanks, value, optional ';'. -/
def KeyLine (file key text : List UInt8) : Prop :=
  ∃ before blanks blanks' semi after, (∀ b ∈ blanks, isBlank b = true) ∧
    (∀ b ∈ blanks', isBlank b = true) ∧ (semi = [] ∨ semi = [59]) ∧
    file = before ++ (key ++ (blanks ++ 61 :: (blanks' ++ (text ++ (semi ++ 10 :: after)))))

/-- A well-formed configuration file with the values `v`. -/
structure ConfigFile (v : ConfigValues) (file : List UInt8) : Prop where
  nulFree : 0 ∉ file
  length_lt : file.length < iniFileBufSize
  line : ∀ key, ∃ text, v.Text text key ∧ KeyLine file (configFileKeyWord key) text
  once : ∀ key, OccursOnce (configFileKeyWord key) file

/-! ### Values -/

/-- Every number of 32 bits can be written. -/
theorem numberText_decimal {x : Int} (h : x.natAbs < 2 ^ 32) : NumberText (decimal x) x := by
  refine ⟨isDecimal_toString x, ?_⟩
  have hrepr : ∀ n < 10 ^ 10, (Nat.repr n).length ≤ 10 :=
    fun n hn => (Nat.length_repr_le_iff (by decide)).mpr hn
  have hlen : (toString x).length ≤ 11 := by
    rw [Int.toString_eq_repr, Int.repr_eq_if]
    split
    · exact (hrepr _ (by omega)).trans (by decide)
    · have := hrepr (-x).toNat (by omega)
      rw [String.length_append]
      exact Nat.add_le_add_left this 1
  have : (decimal x).length ≤ 11 := by
    rw [decimal, ascii, List.length_map, String.length_toList]
    exact hlen
  exact Nat.lt_of_le_of_lt this (by decide)

/-- A number is a value. -/
theorem isValue_of_isDecimal {text : List UInt8} {x : Int} (h : IsDecimal text x) :
    IsValue text := by
  obtain ⟨-, hc⟩ := h.chars
  -- None of these characters can stand in a number
  have hnot : ∀ b ∈ text, b ≠ 59 ∧ b ≠ 10 ∧ b ≠ 0 ∧ isBlank b = false := by
    intro b hb
    have hb := hc b hb
    refine ⟨?_, ?_, ?_, ?_⟩
    · rintro rfl
      exact absurd hb (by decide)
    · rintro rfl
      exact absurd hb (by decide)
    · rintro rfl
      exact absurd hb (by decide)
    · by_contra hblank
      simp only [isBlank, Bool.not_eq_false, Bool.or_eq_true, decide_eq_true_eq] at hblank
      rcases hblank with rfl | rfl
      · exact absurd hb (by decide)
      · exact absurd hb (by decide)
  exact ⟨fun h => (hnot 59 h).1 rfl, fun h => (hnot 10 h).2.1 rfl,
    fun h => (hnot 0 h).2.2.1 rfl, fun b hb => (hnot b (List.mem_of_mem_head? hb)).2.2.2⟩

/-- A C string for a field of at most the size of the buffer fits in the buffer. -/
private theorem isValue_of_chars {n : Nat} {text : List UInt8} {s : CStr n}
    (hn : n ≤ configKeyWordBufSize) (hv : IsValue s.chars) (h : text = s.chars) :
    IsValue text ∧ text.length < configKeyWordBufSize := by
  rw [h]
  exact ⟨hv, Nat.lt_of_lt_of_le s.fits hn⟩

/-- All texts of the values are values that fit in the buffer. -/
theorem ConfigValues.Text.isValue {v : ConfigValues} {text : List UInt8}
    {key : ConfigInfoKeyWordId} (h : v.Text text key) :
    IsValue text ∧ text.length < configKeyWordBufSize := by
  cases key with
  | version => exact isValue_of_chars (by decide) v.isValue_version h
  | logLevel => exact ⟨isValue_of_isDecimal h.1, h.2⟩
  | mysqlBranchServerAddr => exact isValue_of_chars (by decide) v.isValue_mysqlBranchServerAddr h
  | mysqlServerPort => exact ⟨isValue_of_isDecimal h.1, h.2⟩
  | mysqlDbName => exact isValue_of_chars (by decide) v.isValue_mysqlDbName h
  | mysqlUserName => exact isValue_of_chars (by decide) v.isValue_mysqlUserName h
  | mysqlPassword => exact isValue_of_chars (by decide) v.isValue_mysqlPassword h

/-! ### One key word -/

/-- No key word has a '=' in it. -/
theorem equals_notMem_configFileKeyWord (key : ConfigInfoKeyWordId) :
    61 ∉ configFileKeyWord key := by
  cases key <;> decide

/-- The value ends at the optional ';' or at the end of the line, whatever follows. -/
theorem parseConfigKeyWord_text {text semi after : List UInt8} (hv : IsValue text)
    (hlen : text.length < configKeyWordBufSize) (hsemi : semi = [] ∨ semi = [59]) :
    parseConfigKeyWord (text ++ (semi ++ 10 :: after)) = some text := by
  have hnewline : (10 : UInt8) ∈ text ++ (semi ++ 10 :: after) := by simp
  -- The loop copies the whole value, which has no terminator in it
  have hkeep : ∀ b ∈ text, (b ≠ 59 && b ≠ 10) = true := by
    intro b hb
    have h59 : b ≠ 59 := fun h => hv.semicolon (h ▸ hb)
    have h10 : b ≠ 10 := fun h => hv.newline (h ▸ hb)
    simp [h59, h10]
  have htake : (text ++ (semi ++ 10 :: after)).takeWhile (fun b => b ≠ 59 && b ≠ 10) = text := by
    rw [List.takeWhile_append_of_pos hkeep]
    obtain rfl | rfl := hsemi
    · simp
    · simp
  have hmin : min text.length (configKeyWordBufSize - 1) = text.length := by omega
  unfold parseConfigKeyWord
  rw [if_pos (.inr (strchr_ne_none hnewline)), htake, List.take_of_length_le (Nat.le_of_lt hlen)]
  show some (text.take (min text.length (configKeyWordBufSize - 1))) = some text
  rw [hmin, List.take_length]

/-- The searches for a key word stay on its line. -/
theorem keyLine_parse {file text : List UInt8} {key : ConfigInfoKeyWordId}
    (hline : KeyLine file (configFileKeyWord key) text)
    (honce : OccursOnce (configFileKeyWord key) file) (hv : IsValue text)
    (hlen : text.length < configKeyWordBufSize) :
    ∃ p q, strstr (configFileKeyWord key) file = some p ∧ strchr 61 p = some q ∧
      parseConfigKeyWord (q.tail.dropWhile fun b => b = 9 || b = 32) = some text := by
  obtain ⟨before, blanks, blanks', semi, after, hblanks, hblanks', hsemi, rfl⟩ := hline
  refine ⟨_, 61 :: (blanks' ++ (text ++ (semi ++ 10 :: after))), strstr_of_occursOnce honce, ?_, ?_⟩
  · -- Between the key word and its '=' there are blanks only
    have hblank : (61 : UInt8) ∉ blanks := fun h => absurd (hblanks 61 h) (by decide)
    rw [← List.append_assoc]
    exact strchr_append fun h =>
      (List.mem_append.mp h).elim (equals_notMem_configFileKeyWord key) hblank
  · -- The value does not start with a blank, so all blanks and no more are left out
    have hdrop : (text ++ (semi ++ 10 :: after)).dropWhile isBlank =
        text ++ (semi ++ 10 :: after) := by
      cases text with
      | nil =>
        obtain rfl | rfl := hsemi
        · rfl
        · rfl
      | cons b text => rw [List.cons_append, List.dropWhile_cons, hv.blank b rfl]; rfl
    have hrest : (blanks' ++ (text ++ (semi ++ 10 :: after))).dropWhile isBlank =
        text ++ (semi ++ 10 :: after) := by
      rw [List.dropWhile_append_of_pos hblanks', hdrop]
    show parseConfigKeyWord ((blanks' ++ (text ++ (semi ++ 10 :: after))).dropWhile isBlank) = _
    rw [hrest]
    exact parseConfigKeyWord_text hv hlen hsemi

/-! ### All key words -/

/-- The loop stores the text of every key word. -/
theorem readConfigInfoLoop_eq {file : List UInt8} {text : ConfigInfoKeyWordId → List UInt8}
    (h : ∀ key, ∃ p q, strstr (configFileKeyWord key) file = some p ∧ strchr 61 p = some q ∧
      parseConfigKeyWord (q.tail.dropWhile fun b => b = 9 || b = 32) = some (text key))
    (keys : List ConfigInfoKeyWordId) (c : ConfigInfo) :
    readConfigInfoLoop file keys c = (0, keys.foldl (fun c key => c.set (text key) key) c) := by
  induction keys generalizing c with
  | nil => rfl
  | cons key keys ih =>
    obtain ⟨p, q, hp, hq, htext⟩ := h key
    simp only [readConfigInfoLoop, hp, hq, htext, ih, List.foldl_cons]

/-- A C string that fits is stored as it is. -/
theorem snprintf_chars {n : Nat} (s : CStr n) :
    CharArray.snprintf n s.chars = .ofBytes n s.chars := by
  have := s.fits
  rw [CharArray.snprintf, str_of_zero_notMem s.nulFree, List.take_of_length_le (by omega)]

/-- What `log_level` and `mysql_server_port` keep of a number in their range. -/
theorem ConfigValues.number_eq (v : ConfigValues) {level port : List UInt8}
    (hlevel : NumberText level v.logLevel) (hport : NumberText port v.mysqlServerPort) :
    (atoi level).bmod (2 ^ 8) = v.logLevel ∧
      (atol port % (2 ^ 32 : Nat)).toNat = v.mysqlServerPort := by
  have hl := v.logLevel_signedChar
  have hp := v.mysqlServerPort_lt
  rw [atoi, atol_of_isDecimal hlevel.1 (by omega) (by omega),
    atol_of_isDecimal hport.1 (by omega) (by omega)]
  constructor
  · rw [Int.bmod_eq_of_le (m := 2 ^ 32) (by omega) (by omega)]
    exact Int.bmod_eq_of_le (by omega) (by omega)
  · omega

/-- Reading back a well-formed configuration file gives its values. -/
theorem readConfigInfo_of_configFile {v : ConfigValues} {file : List UInt8}
    (h : ConfigFile v file) (configInfo : ConfigInfo) :
    readConfigInfo (some file) configInfo = (0, v.configInfo) := by
  choose text htext hline using h.line
  have hloop := readConfigInfoLoop_eq fun key =>
    keyLine_parse (hline key) (h.once key) (htext key).isValue.1 (htext key).isValue.2
  -- The file is not empty and is read as a whole
  have htake : file.take (iniFileBufSize - 1) = file :=
    List.take_of_length_le (Nat.le_sub_one_of_lt h.length_lt)
  have hpos : file.length > 0 := by
    obtain ⟨_, _, _, _, _, _, _, _, heq⟩ := hline .version
    rw [heq]
    simp only [List.length_append, List.length_cons]
    omega
  have hread : readFileToBuff (some file) (iniFileBufSize - 1) = some file := by
    simp only [readFileToBuff, htake, if_pos hpos]
  obtain ⟨hlevel, hport⟩ := v.number_eq (htext .logLevel) (htext .mysqlServerPort)
  -- Every field of the cleared record is set once
  have hset : ConfigInfoKeyWordId.all.foldl (fun c key => c.set (text key) key) .zero =
      v.configInfo := by
    have hversion : text .version = v.version.chars := htext .version
    have haddr : text .mysqlBranchServerAddr = v.mysqlBranchServerAddr.chars :=
      htext .mysqlBranchServerAddr
    have hdb : text .mysqlDbName = v.mysqlDbName.chars := htext .mysqlDbName
    have huser : text .mysqlUserName = v.mysqlUserName.chars := htext .mysqlUserName
    have hpassword : text .mysqlPassword = v.mysqlPassword.chars := htext .mysqlPassword
    simp only [ConfigInfoKeyWordId.all, List.foldl_cons, List.foldl_nil, ConfigInfo.set, hversion,
      haddr, hdb, huser, hpassword, snprintf_chars, hlevel, hport, ConfigValues.configInfo]
  simp only [readConfigInfo, hread, str_of_zero_notMem h.nulFree]
  rw [hloop, hset]

/-! ### The `config.ini` of the server -/

/-- The texts in `config.ini`. -/
private def configIniText : ConfigInfoKeyWordId → List UInt8
  | .version => ascii "1.0"
  | .logLevel => decimal 4
  | .mysqlBranchServerAddr => ascii "127.0.0.1"
  | .mysqlServerPort => decimal 3306
  | .mysqlDbName => ascii "gshare"
  | .mysqlUserName => ascii "gsh107"
  | .mysqlPassword => ascii "my223gs4mk221"

/-- A line of `config.ini` with a key word. -/
private def iniLine (key : ConfigInfoKeyWordId) (semi : List UInt8) : List UInt8 :=
  configFileKeyWord key ++ ([32] ++ 61 :: ([32] ++ (configIniText key ++ (semi ++ [10]))))

/-- The lines of `config.ini`. -/
private def configIniLines : List (List UInt8) :=
  [ascii ";\n", ascii "; G-Net Update inifile\n", ascii ";\n", ascii "\n", ascii "[GENERAL]\n",
    iniLine .version [59], iniLine .logLevel [59], ascii "\n", ascii "[DATABASE]\n",
    iniLine .mysqlBranchServerAddr [], iniLine .mysqlServerPort [], iniLine .mysqlDbName [],
    iniLine .mysqlUserName [], iniLine .mysqlPassword []]

/-- `config.ini` -/
def configIni : List UInt8 := configIniLines.flatten

/-- The values in it. -/
def configIniValues : ConfigValues where
  version := ⟨ascii "1.0", by decide, by decide⟩
  logLevel := 4
  mysqlBranchServerAddr := ⟨ascii "127.0.0.1", by decide, by decide⟩
  mysqlServerPort := 3306
  mysqlDbName := ⟨ascii "gshare", by decide, by decide⟩
  mysqlUserName := ⟨ascii "gsh107", by decide, by decide⟩
  mysqlPassword := ⟨ascii "my223gs4mk221", by decide, by decide⟩
  isValue_version := by decide
  logLevel_signedChar := by decide
  isValue_mysqlBranchServerAddr := by decide
  mysqlServerPort_lt := by decide
  isValue_mysqlDbName := by decide
  isValue_mysqlUserName := by decide
  isValue_mysqlPassword := by decide

private theorem keyLine_configIni (key : ConfigInfoKeyWordId) :
    KeyLine configIni (configFileKeyWord key) (configIniText key) := by
  have hmem : ∃ semi, (semi = [] ∨ semi = [59]) ∧ iniLine key semi ∈ configIniLines := by
    cases key with
    | version => exact ⟨[59], .inr rfl, by simp [configIniLines]⟩
    | logLevel => exact ⟨[59], .inr rfl, by simp [configIniLines]⟩
    | mysqlBranchServerAddr | mysqlServerPort | mysqlDbName | mysqlUserName | mysqlPassword =>
      exact ⟨[], .inl rfl, by simp [configIniLines]⟩
  -- The other lines stand before and after this one
  obtain ⟨semi, hsemi, hmem⟩ := hmem
  obtain ⟨s, t, hlines⟩ := List.append_of_mem hmem
  have hblank : ∀ b ∈ [(32 : UInt8)], isBlank b = true := fun b hb => List.mem_singleton.mp hb ▸ rfl
  refine ⟨s.flatten, [32], [32], semi, t.flatten, hblank, hblank, hsemi, ?_⟩
  simp [configIni, hlines, iniLine]

/-- Searching `config.ini` for each key word, and once more after it. -/
private theorem configIni_search : 0 ∉ configIni ∧ configIni.length < iniFileBufSize ∧
    ∀ key ∈ ConfigInfoKeyWordId.all, strstr (configFileKeyWord key) configIni ≠ none ∧
      ∀ p ∈ strstr (configFileKeyWord key) configIni,
        strstr (configFileKeyWord key) p.tail = none := by
  decide +kernel

/-- `config.ini` is well-formed. -/
theorem configFile_configIni : ConfigFile configIniValues configIni where
  nulFree := configIni_search.1
  length_lt := configIni_search.2.1
  line key := by
    refine ⟨configIniText key, ?_, keyLine_configIni key⟩
    cases key with
    | logLevel | mysqlServerPort => exact numberText_decimal (by decide)
    | version | mysqlBranchServerAddr | mysqlDbName | mysqlUserName | mysqlPassword => rfl
  once key := by
    obtain ⟨hfound, hrest⟩ := configIni_search.2.2 key (by cases key <;> decide)
    exact occursOnce_of_strstr hfound hrest

/-- What the server reads from its own `config.ini`. -/
theorem readConfigInfo_configIni :
    readConfigInfo (some configIni) .zero = (0, configIniValues.configInfo) :=
  readConfigInfo_of_configFile configFile_configIni .zero

end JQServer
