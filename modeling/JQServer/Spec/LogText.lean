import JQServer.Spec.LogRecords

/-!
# The bytes in the log file

`log_s` passes its expanded text to `fprintf` as the format, where `log_preamble` has `"%s"`.
So the text arrives as it is exactly if it has no percent sign in it
(`fprintfText_eq_self_iff`, `logS_verbatim_iff`).
-/

namespace JQServer

/-- The bytes that an entry has appended to the file. -/
def LogEntry.text : LogEntry → List UInt8
  | .preamble _ text | .message _ text => text
  | .unwritten _ | .truncated => []

/-- All that was ever written to the file, in the order of writing. -/
def logBytes : List LogEntry → List UInt8
  | [] => []
  | entry :: earlier => logBytes earlier ++ entry.text

/-- What happens between the two states is defined, and appends the bytes to the file. -/
structure Log.Adds (l l' : Log) (bytes : List UInt8) : Prop where
  defined : l'.undefined = false
  written : logBytes l'.output = logBytes l.output ++ bytes

/-! ### Formats -/

/-- What a format without arguments writes is not longer than the format. -/
theorem length_fprintfText_le {format text : List UInt8} (h : fprintfText format = some text) :
    text.length ≤ format.length := by
  fun_induction fprintfText format generalizing text with
  | case1 =>
    rw [← Option.some.inj h]
  | case2 format ih =>
    obtain ⟨rest, hrest, rfl⟩ := Option.map_eq_some_iff.mp h
    have := ih hrest
    simp only [List.length_cons]
    omega
  | case3 => cases h
  | case4 c format hpair hpercent ih =>
    obtain ⟨rest, hrest, rfl⟩ := Option.map_eq_some_iff.mp h
    exact Nat.succ_le_succ (ih hrest)

/-- A percent sign in the format is not written, or it takes another one with it. -/
theorem length_fprintfText_lt {format text : List UInt8} (h : fprintfText format = some text)
    (hmem : 37 ∈ format) : text.length < format.length := by
  fun_induction fprintfText format generalizing text with
  | case1 => cases hmem
  | case2 format ih =>
    obtain ⟨rest, hrest, rfl⟩ := Option.map_eq_some_iff.mp h
    have := length_fprintfText_le hrest
    simp only [List.length_cons]
    omega
  | case3 => cases h
  -- The percent sign stands further on
  | case4 c format hpair hpercent ih =>
    obtain ⟨rest, hrest, rfl⟩ := Option.map_eq_some_iff.mp h
    have hc : (37 : UInt8) ≠ c := fun hc => hpercent hc.symm
    exact Nat.succ_lt_succ (ih hrest ((List.mem_cons.mp hmem).resolve_left hc))

/-- A format writes itself exactly if it has no percent sign. -/
theorem fprintfText_eq_self_iff {format : List UInt8} :
    fprintfText format = some format ↔ 37 ∉ format :=
  ⟨fun h hmem => Nat.lt_irrefl _ (length_fprintfText_lt h hmem), fprintfText_of_notMem⟩

namespace Log

variable {l l' l'' : Log} {bytes bytes' : List UInt8}

theorem Adds.trans (h : l.Adds l' bytes) (h' : l'.Adds l'' bytes') :
    l.Adds l'' (bytes ++ bytes') := by
  refine ⟨h'.defined, ?_⟩
  rw [h'.written, h.written, List.append_assoc]

/-- There is one answer to what was appended. -/
theorem Adds.unique (h : l.Adds l' bytes) (h' : l.Adds l' bytes') : bytes = bytes' :=
  List.append_cancel_left (h.written.symm.trans h'.written)

/-- `fflush` appends nothing. -/
theorem Adds.fflush (h : l.Adds l' bytes) (hclosed : l'.logFileHandle ≠ .closed) :
    l.Adds (l'.use .fflush) bytes := by
  refine ⟨?_, h.written⟩
  simp [use, h.defined, hclosed]

/-- `log_s` without a message appends nothing. -/
theorem adds_noMessage (hdefined : l.undefined = false) (call : Option LogCall) :
    l.Adds (l.noMessage call) [] := by
  cases call with
  | none => exact ⟨hdefined, (List.append_nil _).symm⟩
  | some call => exact ⟨hdefined, rfl⟩

/-- A message appends what it writes as a format. -/
theorem adds_putMessage (hdefined : l.undefined = false) (h : l.logFileHandle = .opened)
    (call : Option LogCall) {message text : List UInt8} (htext : fprintfText message = some text) :
    l.Adds (l.putMessage call message) text := by
  rw [putMessage, htext]
  exact ⟨(use_undefined .fprintf h).trans hdefined, rfl⟩

/-- A message that can be written is a format that takes no arguments, for an open file. -/
theorem of_putMessage_defined {call : Option LogCall} {message : List UInt8}
    (h : (l.putMessage call message).undefined = false) :
    l.logFileHandle = .opened ∧ ∃ text, fprintfText message = some text := by
  cases htext : fprintfText message with
  | none =>
    rw [putMessage, htext] at h
    cases h
  | some text =>
    rw [putMessage, htext] at h
    exact ⟨(of_use_defined h).2 (by decide), text, rfl⟩

/-- The message is appended as it is to an open file, if it has no percent sign. -/
theorem adds_putMessage_iff (hdefined : l.undefined = false) (call : Option LogCall)
    {message : List UInt8} :
    l.Adds ((l.putMessage call message).use .fflush) message ↔
      l.logFileHandle = .opened ∧ 37 ∉ message := by
  constructor
  · intro h
    -- What was appended is what the format writes, and that is the format itself
    obtain ⟨hopen, text, htext⟩ := of_putMessage_defined (of_use_defined h.defined).1
    have hadds := adds_putMessage hdefined hopen call htext
    obtain rfl : text = message := List.append_cancel_left (hadds.written.symm.trans h.written)
    exact ⟨hopen, fprintfText_eq_self_iff.mp htext⟩
  · rintro ⟨hopen, hpercent⟩
    have htext := fprintfText_of_notMem hpercent
    refine (adds_putMessage hdefined hopen call htext).fflush ?_
    rw [putMessage, htext]
    simp [hopen]

/-- The text of `log_s`, at a level within the threshold and different from the last string, is
    appended as it is exactly if there is an open file and no percent sign in the text, or there
    is no file and no text. -/
theorem logS_verbatim_iff (hdefined : l.undefined = false) (call : Option LogCall) {level : Nat}
    {text : List UInt8} (hle : level ≤ l.defLogLevel) (hnew : sBuffer text ≠ l.lastLogStr) :
    l.Adds (l.logS call level text) (sBuffer text) ↔
      l.logFileHandle = .opened ∧ 37 ∉ sBuffer text ∨
        l.logFileHandle = .null ∧ sBuffer text = [] := by
  by_cases hnull : l.logFileHandle = .null
  -- Without a file nothing is written
  · have hnothing := adds_noMessage hdefined call
    rw [logS_of_null hnull, hnull]
    constructor
    · exact fun h => .inr ⟨rfl, h.unique hnothing⟩
    · rintro (⟨hopen, -⟩ | ⟨-, htext⟩)
      · cases hopen
      · rwa [htext]
  · rw [logS_new hnull hle hnew, adds_putMessage_iff hdefined]
    simp [hnull]

/-- The expansion of `log_s(level, "%s", "100%% sure\n")`. -/
def doubledPercent : List UInt8 :=
  CString.ascii "100%% sure\n"

/-- A message of `create_connect` without a percent sign. -/
theorem logS_verbatim_initError :
    LogRun.atLevelFour.log.Adds (LogRun.atLevelFour.log.logS none 3 LogRun.initError.text)
      (sBuffer LogRun.initError.text) :=
  (logS_verbatim_iff rfl none (by decide) (by decide +kernel)).mpr
    (.inl ⟨rfl, by decide +kernel⟩)

/-- Of two percent signs in the expansion one is written. -/
theorem logS_verbatim_fails :
    ¬ ∀ (l : Log) (call : Option LogCall) (level : Nat) (text : List UInt8),
      l.undefined = false → l.logFileHandle = .opened → level ≤ l.defLogLevel →
        sBuffer text ≠ l.lastLogStr → l.Adds (l.logS call level text) (sBuffer text) := by
  intro h
  have hadds := h LogRun.atLevelFour.log none 3 doubledPercent rfl rfl (by decide)
    (by decide +kernel)
  have hwritten : LogRun.atLevelFour.log.Adds
      (LogRun.atLevelFour.log.logS none 3 doubledPercent) (CString.ascii "100% sure\n") :=
    ⟨by decide +kernel, by decide +kernel⟩
  exact absurd (hadds.unique hwritten) (by decide +kernel)

end Log

end JQServer
