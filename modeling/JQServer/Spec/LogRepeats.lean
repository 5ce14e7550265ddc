import JQServer.Spec.LogText

/-!
# Repeated messages

`LOG_INFO` is `log_preamble` and `log_s` one after the other, and both compare their text with
`last_log_str` and put it there. After `log_preamble` the location stands there, after `log_s`
the message (`lastLogStr_logPreamble`, `lastLogStr_logS`), so that each of the two finds the text
of the other: a call that repeats the one before is written again, unless its message is its
location. `suppresses_iff` has the exact condition for a call and the one before it, and
`repeats_suppressed_iff` for sequences of calls.
-/

namespace JQServer

namespace LogInfo

/-- Same source location and same formatted message. -/
def Repeats (info prev : LogInfo) : Prop :=
  info.file = prev.file ∧ info.function = prev.function ∧ info.line = prev.line ∧
    info.message = prev.message

/-- The preamble, with the time stamp and the name of the level. -/
def preamble (info : LogInfo) (curTsStr name : List UInt8) : List UInt8 :=
  CString.ascii "[" ++ curTsStr ++ CString.ascii "][" ++ name ++ CString.ascii "] " ++
    info.location

/-- There is a blank in the location. -/
theorem location_ne_nil (info : LogInfo) : info.location ≠ [] := by
  unfold location sBuffer
  -- The first byte is that of the file name, or the blank behind it
  cases hfile : CString.str info.file with
  | nil => exact nofun
  | cons c file =>
    have hc : c ≠ 0 := by
      rintro rfl
      apply CString.zero_notMem_str info.file
      rw [hfile]
      exact List.mem_cons_self
    rw [List.cons_append, List.cons_append, List.cons_append, List.cons_append,
      List.cons_append, CString.str_cons, if_neg hc]
    exact nofun

theorem preamble_ne_nil (info : LogInfo) (curTsStr name : List UInt8) :
    info.preamble curTsStr name ≠ [] :=
  List.append_ne_nil_of_right_ne_nil _ info.location_ne_nil

end LogInfo

namespace Log

variable {l : Log} {call : LogCall} {curTsStr : List UInt8} {ok : Bool}

/-- The file is kept, or the new one can be opened. -/
def Lasts (l : Log) (ok : Bool) : Prop := l.count + 1 ≥ maxLogLineNum → ok = true

/-! ### Counting the line -/

theorem countLine_opened_iff (h : l.logFileHandle = .opened) :
    (l.countLine ok).logFileHandle = .opened ↔ l.Lasts ok := by
  unfold countLine Lasts
  split
  · rename_i hmax
    cases ok with
    | false => simp [fopen, hmax]
    | true => simp [fopen]
  · rename_i hmax
    simp [h, hmax]

theorem countLine_ne_closed (h : l.logFileHandle = .opened) :
    (l.countLine ok).logFileHandle ≠ .closed := by
  unfold countLine
  split
  · cases ok with
    | false => exact nofun
    | true => exact nofun
  · exact h ▸ nofun

/-- A new file appends nothing. -/
theorem adds_countLine (hdefined : l.undefined = false) (h : l.logFileHandle = .opened) :
    l.Adds (l.countLine ok) [] := by
  unfold countLine
  split
  · have hfclose : (({ l with count := 0 } : Log).use .fclose).undefined = false :=
      (use_undefined .fclose h).trans hdefined
    cases ok with
    | false => exact ⟨hfclose, (List.append_nil _).symm⟩
    | true => exact ⟨hfclose, rfl⟩
  · exact ⟨hdefined, (List.append_nil _).symm⟩

/-! ### The preamble -/

theorem logPreamble_last (h : l.logFileHandle ≠ .null) (hlast : call.location = l.lastLogStr) :
    l.logPreamble call curTsStr ok = (l.countLine ok).use .fflush := by
  rw [logPreamble, if_neg h, writePreamble,
    if_neg fun hnew => hnew.1 (hlast.trans (countLine_lastLogStr ok).symm)]

theorem logPreamble_new (h : l.logFileHandle ≠ .null) (hle : call.level ≤ l.defLogLevel)
    (hnew : call.location ≠ l.lastLogStr) :
    l.logPreamble call curTsStr ok = ((l.countLine ok).putPreamble call curTsStr).use .fflush := by
  rw [logPreamble, if_neg h, writePreamble, if_pos]
  rw [countLine_lastLogStr, countLine_defLogLevel]
  exact ⟨hnew, hle⟩

/-- A preamble that can be written is appended, and its location is the last string. -/
theorem putPreamble_of_name {name : List UInt8} (hname : preambleLogstr[call.level]? = some name) :
    l.putPreamble call curTsStr = { l.use .fprintf with
      output := .preamble call (call.preamble curTsStr name) :: l.output
      lastLogStr := call.location } := by
  rw [putPreamble, hname]
  rfl

/-- A new preamble that is written needs a file to write to and a name for the level. -/
theorem of_logPreamble_defined (h : l.logFileHandle = .opened) (hle : call.level ≤ l.defLogLevel)
    (hnew : call.location ≠ l.lastLogStr)
    (hafter : (l.logPreamble call curTsStr ok).undefined = false) :
    l.Lasts ok ∧ ∃ name, preambleLogstr[call.level]? = some name := by
  rw [logPreamble_new (by simp [h]) hle hnew] at hafter
  obtain ⟨hopen, hname⟩ := of_putPreamble_defined (of_use_defined hafter).1
  exact ⟨(countLine_opened_iff h).mp hopen, hname⟩

/-- With a file to write to and a name for the level a new preamble is appended. -/
theorem adds_logPreamble (hdefined : l.undefined = false) (h : l.logFileHandle = .opened)
    (hle : call.level ≤ l.defLogLevel) (hnew : call.location ≠ l.lastLogStr) {name : List UInt8}
    (hlasts : l.Lasts ok) (hname : preambleLogstr[call.level]? = some name) :
    l.Adds (l.logPreamble call curTsStr ok) (call.preamble curTsStr name) := by
  have hcount : l.Adds (l.countLine ok) [] := adds_countLine hdefined h
  have hopen := (countLine_opened_iff h).mpr hlasts
  rw [logPreamble_new (by simp [h]) hle hnew, putPreamble_of_name hname]
  refine Adds.fflush (hcount.trans ⟨?_, rfl⟩) ?_
  · exact (use_undefined .fprintf hopen).trans hcount.defined
  · exact hopen ▸ nofun

/-- A preamble that is not written. -/
theorem adds_logPreamble_last (hdefined : l.undefined = false) (h : l.logFileHandle = .opened)
    (hlast : call.location = l.lastLogStr) : l.Adds (l.logPreamble call curTsStr ok) [] := by
  rw [logPreamble_last (by simp [h]) hlast]
  exact (adds_countLine hdefined h).fflush (countLine_ne_closed h)

/-- Within the level the location is the last string when `log_preamble` returns. -/
theorem lastLogStr_logPreamble (h : l.logFileHandle = .opened) (hle : call.level ≤ l.defLogLevel)
    (hdefined : (l.logPreamble call curTsStr ok).undefined = false) :
    (l.logPreamble call curTsStr ok).lastLogStr = call.location ∧
      (l.logPreamble call curTsStr ok).defLogLevel = l.defLogLevel ∧
      (l.logPreamble call curTsStr ok).logFileHandle = (l.countLine ok).logFileHandle := by
  have hfile : l.logFileHandle ≠ .null := by simp [h]
  -- Either it was there before, or the preamble is written
  by_cases hlast : call.location = l.lastLogStr
  · rw [logPreamble_last hfile hlast]
    exact ⟨(countLine_lastLogStr ok).trans hlast.symm, countLine_defLogLevel ok, rfl⟩
  · rw [logPreamble_new hfile hle hlast] at hdefined ⊢
    obtain ⟨-, name, hname⟩ := of_putPreamble_defined (of_use_defined hdefined).1
    rw [putPreamble_of_name hname]
    exact ⟨rfl, countLine_defLogLevel ok, rfl⟩

/-! ### The message -/

/-- Nothing undefined has happened before `log_s` if it has not happened after it. -/
theorem of_logS_defined {call : Option LogCall} {level : Nat} {text : List UInt8}
    (h : (l.logS call level text).undefined = false) : l.undefined = false := by
  by_cases hnull : l.logFileHandle = .null
  · rw [logS_of_null hnull] at h
    cases call with
    | none => exact h
    | some call => exact h
  · rw [logS, if_neg hnull] at h
    exact @LogFn.of_write_defined (.logS call level text false) l [] (of_use_defined h).1

/-- A new text that is written is a format that takes no arguments, for an open file. -/
theorem of_logS_new_defined {call : Option LogCall} {level : Nat} {text : List UInt8}
    (h : l.logFileHandle ≠ .null) (hle : level ≤ l.defLogLevel) (hnew : sBuffer text ≠ l.lastLogStr)
    (hafter : (l.logS call level text).undefined = false) :
    l.logFileHandle = .opened ∧ ∃ written, fprintfText (sBuffer text) = some written := by
  rw [logS_new h hle hnew] at hafter
  exact of_putMessage_defined (of_use_defined hafter).1

/-- `log_s` appends what `fprintf` writes of a new text. -/
theorem adds_logS_new (hdefined : l.undefined = false) (h : l.logFileHandle = .opened)
    {level : Nat} (hle : level ≤ l.defLogLevel) {text written : List UInt8}
    (hnew : sBuffer text ≠ l.lastLogStr) (hwritten : fprintfText (sBuffer text) = some written)
    (call : Option LogCall) : l.Adds (l.logS call level text) written := by
  rw [logS_new (by simp [h]) hle hnew]
  apply (adds_putMessage hdefined h call hwritten).fflush
  rw [putMessage, hwritten]
  simp [h]

/-- Within the level the message is the last string when `log_s` returns. -/
theorem lastLogStr_logS {call : Option LogCall} {level : Nat} {text : List UInt8}
    (h : l.logFileHandle = .opened) (hle : level ≤ l.defLogLevel)
    (hdefined : (l.logS call level text).undefined = false) :
    (l.logS call level text).lastLogStr = sBuffer text ∧
      (l.logS call level text).logFileHandle = .opened := by
  have hfile : l.logFileHandle ≠ .null := by simp [h]
  by_cases hlast : sBuffer text = l.lastLogStr
  · rw [logS_last hfile hlast]
    cases call with
    | none => exact ⟨hlast.symm, h⟩
    | some call => exact ⟨hlast.symm, h⟩
  · obtain ⟨-, written, hwritten⟩ := of_logS_new_defined hfile hle hlast hdefined
    rw [logS_new hfile hle hlast, putMessage, hwritten]
    exact ⟨rfl, h⟩

/-- The text of the last time appends nothing. -/
theorem adds_logS_last (hdefined : l.undefined = false) (h : l.logFileHandle ≠ .closed)
    (call : Option LogCall) (level : Nat) {text : List UInt8}
    (hlast : sBuffer text = l.lastLogStr) :
    l.Adds (l.logS call level text) [] := by
  have hno := adds_noMessage hdefined call
  by_cases hnull : l.logFileHandle = .null
  · rw [logS_of_null hnull]
    exact hno
  · rw [logS_last hnull hlast]
    apply hno.fflush
    cases call with
    | none => exact h
    | some call => exact h

/-- `log_s` does not append more than its text has. -/
theorem length_le_of_adds_logS {call : Option LogCall} {level : Nat} {text bytes : List UInt8}
    (hle : level ≤ l.defLogLevel) (h : l.Adds (l.logS call level text) bytes) :
    bytes.length ≤ (sBuffer text).length := by
  have hdefined := of_logS_defined h.defined
  by_cases hnull : l.logFileHandle = .null
  · rw [logS_of_null hnull] at h
    rw [h.unique (adds_noMessage hdefined call)]
    exact Nat.zero_le _
  · by_cases hlast : sBuffer text = l.lastLogStr
    · rw [logS_last hnull hlast] at h
      rw [h.unique ⟨h.defined, (adds_noMessage hdefined call).written⟩]
      exact Nat.zero_le _
    · obtain ⟨hopen, written, hwritten⟩ := of_logS_new_defined hnull hle hlast h.defined
      rw [h.unique (adds_logS_new hdefined hopen hle hlast hwritten call)]
      exact length_fprintfText_le hwritten

/-! ### Both -/

theorem logInfo_of_null (h : l.logFileHandle = .null) :
    l.logInfo call curTsStr ok = l.noMessage (some call) := by
  rw [logInfo, logPreamble, if_pos h]
  exact logS_of_null h

/-- A call whose location and message are both the last string. -/
theorem adds_logInfo_last (hdefined : l.undefined = false) (h : l.logFileHandle = .opened)
    (hle : call.level ≤ l.defLogLevel) (hlast : call.location = l.lastLogStr)
    (hmessage : call.message = call.location) : l.Adds (l.logInfo call curTsStr ok) [] := by
  have hpreamble : l.Adds (l.logPreamble call curTsStr ok) [] :=
    adds_logPreamble_last hdefined h hlast
  obtain ⟨hstr, -, hhandle⟩ := lastLogStr_logPreamble h hle hpreamble.defined
  refine hpreamble.trans (adds_logS_last hpreamble.defined ?_ _ _ (hmessage.trans hstr.symm))
  exact hhandle ▸ countLine_ne_closed h

/-- Without a preamble there is the message at the most. -/
theorem length_le_of_adds_logInfo (hdefined : l.undefined = false) (h : l.logFileHandle = .opened)
    {bytes : List UInt8} (hadds : l.Adds (l.logInfo call curTsStr ok) bytes)
    (hle : call.level ≤ l.defLogLevel) (hlast : call.location = l.lastLogStr) :
    bytes.length ≤ call.message.length := by
  have hpreamble : l.Adds (l.logPreamble call curTsStr ok) [] :=
    adds_logPreamble_last hdefined h hlast
  obtain ⟨-, hlevel, -⟩ := lastLogStr_logPreamble h hle hpreamble.defined
  have hmessage : (l.logPreamble call curTsStr ok).Adds (l.logInfo call curTsStr ok) bytes :=
    ⟨hadds.defined, by rw [hadds.written, hpreamble.written, List.append_nil]⟩
  exact length_le_of_adds_logS (hlevel ▸ hle) hmessage

/-- A new location whose message is the same text adds the preamble only. -/
theorem of_adds_logInfo_location (hdefined : l.undefined = false) (h : l.logFileHandle = .opened)
    {bytes : List UInt8} (hadds : l.Adds (l.logInfo call curTsStr ok) bytes)
    (hle : call.level ≤ l.defLogLevel) (hnew : call.location ≠ l.lastLogStr)
    (hmessage : call.message = call.location) :
    ∃ name, preambleLogstr[call.level]? = some name ∧ bytes = call.preamble curTsStr name := by
  have hbetween := of_logS_defined hadds.defined
  obtain ⟨hlasts, name, hname⟩ := of_logPreamble_defined h hle hnew hbetween
  obtain ⟨hstr, -, hhandle⟩ := lastLogStr_logPreamble h hle hbetween
  have hpreamble : l.Adds (l.logPreamble call curTsStr ok) (call.preamble curTsStr name) :=
    adds_logPreamble hdefined h hle hnew hlasts hname
  have hnothing := adds_logS_last hpreamble.defined (hhandle ▸ countLine_ne_closed h)
    (some call) call.level (hmessage.trans hstr.symm)
  refine ⟨name, hname, ?_⟩
  rw [hadds.unique (hpreamble.trans hnothing), List.append_nil]

/-- A new location with another message adds both, the message as `fprintf` writes it. -/
theorem adds_logInfo_iff (hdefined : l.undefined = false) (h : l.logFileHandle = .opened)
    (hle : call.level ≤ l.defLogLevel) (hnew : call.location ≠ l.lastLogStr)
    (hmessage : call.message ≠ call.location) {bytes : List UInt8} :
    l.Adds (l.logInfo call curTsStr ok) bytes ↔
      l.Lasts ok ∧ ∃ name text, preambleLogstr[call.level]? = some name ∧
        fprintfText call.message = some text ∧ bytes = call.preamble curTsStr name ++ text := by
  -- What is appended when all of it can be written
  have hboth : ∀ name text, l.Lasts ok → preambleLogstr[call.level]? = some name →
      fprintfText call.message = some text →
        l.Adds (l.logInfo call curTsStr ok) (call.preamble curTsStr name ++ text) := by
    intro name text hlasts hname htext
    have hpreamble : l.Adds (l.logPreamble call curTsStr ok) (call.preamble curTsStr name) :=
      adds_logPreamble hdefined h hle hnew hlasts hname
    obtain ⟨hstr, hlevel, hhandle⟩ := lastLogStr_logPreamble h hle hpreamble.defined
    have hopen := hhandle.trans ((countLine_opened_iff h).mpr hlasts)
    exact hpreamble.trans (adds_logS_new hpreamble.defined hopen (hlevel ▸ hle)
      (hstr ▸ hmessage) htext (some call))
  constructor
  · intro hadds
    have hbetween := of_logS_defined hadds.defined
    obtain ⟨hlasts, name, hname⟩ := of_logPreamble_defined h hle hnew hbetween
    obtain ⟨hstr, hlevel, hhandle⟩ := lastLogStr_logPreamble h hle hbetween
    have hopen := hhandle.trans ((countLine_opened_iff h).mpr hlasts)
    obtain ⟨-, text, htext⟩ := of_logS_new_defined (by simp [hopen]) (hlevel ▸ hle)
      (hstr ▸ hmessage) hadds.defined
    exact ⟨hlasts, name, text, hname, htext, hadds.unique (hboth name text hlasts hname htext)⟩
  · rintro ⟨hlasts, name, text, hname, htext, rfl⟩
    exact hboth name text hlasts hname htext

end Log

namespace LogCalls

variable {s s' : LogCalls} {prev : LogInfo} {a : LogInfoArgs}

/-- A call is the two critical sections of a thread, one directly after the other. -/
theorem run_of_step (hs : s.step a = some s') (hdefined : s'.log.undefined = false)
    {inCall : Nat → Option LogCall} {t : Nat} (hidle : inCall t = none) :
    LogRun.system.run { log := s.log, inCall := inCall, calls := s.calls }
        [.preamble t a.info a.curTsStr a.ok, .message t] =
      some { log := s'.log, inCall := inCall, calls := s'.calls } := by
  obtain ⟨henabled, hs⟩ := Option.ite_none_right_eq_some.mp hs
  obtain rfl := Option.some.inj hs
  have hbetween := Log.of_logS_defined hdefined
  have hback : Function.update (Function.update inCall t (some (s.call a.info))) t none =
      inCall := by
    rw [Function.update_idem, ← hidle, Function.update_eq_self]
  simp only [call] at hbetween hback ⊢
  simp [Transition.System.run_cons, LogRun.system, LogRun.step, henabled, hidle, hbetween, hback,
    Log.logInfo]

/-- A call that repeats the one before adds nothing to the log file, and another one adds its
    preamble and its message. -/
structure Suppresses (s s' : LogCalls) (prev : LogInfo) (a : LogInfoArgs) : Prop where
  repeated : a.info.Repeats prev → s.log.Adds s'.log []
  different : ¬ a.info.Repeats prev → ∃ name, preambleLogstr[a.info.level]? = some name ∧
    s.log.Adds s'.log (a.info.preamble a.curTsStr name ++ a.info.message)

/-- A repetition finds its message and its location in the same string, or there is no file. Any
    other call finds a file, a name for its level, the message of the call before different from
    its location, and its own message too, without a percent sign. -/
def ToldApart (s : LogCalls) (prev : LogInfo) (a : LogInfoArgs) : Prop :=
  a.info.Repeats prev ∧
      (s.log.logFileHandle = .null ∨ a.info.message = a.info.location) ∨
    ¬ a.info.Repeats prev ∧ s.log.logFileHandle = .opened ∧ s.log.Lasts a.ok ∧
      a.info.level < preambleLogstr.length ∧ a.info.location ≠ prev.message ∧
      a.info.message ≠ a.info.location ∧ 37 ∉ a.info.message

/-- The call comes first, or does what `Suppresses` says. -/
def SuppressesNext (s : LogCalls) (a : LogInfoArgs) : Prop :=
  ∀ s' prev, s.step a = some s' → s.previous = some prev → s.Suppresses s' prev a

/-- The call comes first, or is told apart from the one before. -/
def TellsNext (s : LogCalls) (a : LogInfoArgs) : Prop :=
  ∀ prev, s.previous = some prev → s.ToldApart prev a

/-- As long as nothing undefined happens there is no file, or the last string is the message of
    the call before. -/
def KeepsMessage (s : LogCalls) : Prop :=
  s.log.undefined = false → s.log.logFileHandle = .null ∨
    s.log.logFileHandle = .opened ∧ ∀ prev, s.previous = some prev →
      s.log.lastLogStr = prev.message

theorem KeepsMessage.step (h : s.KeepsMessage) (hs : s.step a = some s') : s'.KeepsMessage := by
  obtain ⟨⟨hdefined, hle⟩, hs⟩ := Option.ite_none_right_eq_some.mp hs
  rw [← Option.some.inj hs]
  intro hafter
  rcases h hdefined with hnull | ⟨hopen, -⟩
  · left
    rw [Log.logInfo_of_null hnull]
    exact hnull
  -- `log_preamble` may have renewed the file
  · have hbetween := Log.of_logS_defined hafter
    obtain ⟨-, hlevel, hhandle⟩ := Log.lastLogStr_logPreamble hopen hle hbetween
    have hclosed : (s.log.countLine a.ok).logFileHandle ≠ .closed := Log.countLine_ne_closed hopen
    rw [← hhandle] at hclosed
    cases hfile : (s.log.logPreamble (s.call a.info) a.curTsStr a.ok).logFileHandle with
    | null =>
      -- The new file could not be opened
      left
      rw [Log.logInfo, Log.logS_of_null hfile]
      exact hfile
    | opened =>
      right
      obtain ⟨hstr, hhandle'⟩ := Log.lastLogStr_logS hfile (hlevel ▸ hle) hafter
      refine ⟨hhandle', fun prev hprev => ?_⟩
      rw [← Option.some.inj hprev]
      exact hstr
    | closed => exact absurd hfile hclosed

theorem keepsMessage_of_reachable (h : Transition.Reachable system s) : s.KeepsMessage := by
  refine h.invariant ?_ fun s a s' _ hkeeps _ hs => hkeeps.step hs
  rintro s ⟨level, rfl⟩
  exact fun _ => .inr ⟨rfl, nofun⟩

/-! ### The call and the one before -/

/-- Without a file only repetitions are as they should be. -/
theorem suppresses_iff_of_null (hdefined : s.log.undefined = false)
    (hnull : s.log.logFileHandle = .null)
    (hlog : s'.log = s.log.logInfo (s.call a.info) a.curTsStr a.ok) :
    s.Suppresses s' prev a ↔ s.ToldApart prev a := by
  have hnothing : s.log.Adds s'.log [] := by
    rw [hlog, Log.logInfo_of_null hnull]
    exact Log.adds_noMessage hdefined _
  by_cases hrepeats : a.info.Repeats prev
  · exact ⟨fun _ => .inl ⟨hrepeats, .inl hnull⟩,
      fun _ => ⟨fun _ => hnothing, fun hdiffers => absurd hrepeats hdiffers⟩⟩
  · constructor
    · intro hsup
      -- A preamble is never empty, and nothing was written
      obtain ⟨name, -, hadds⟩ := hsup.different hrepeats
      have hnil := List.append_eq_nil_iff.mp (hadds.unique hnothing)
      exact absurd hnil.1 (a.info.preamble_ne_nil _ _)
    · rintro (⟨hsame, -⟩ | ⟨-, hopen, -⟩)
      · exact absurd hsame hrepeats
      · exact nomatch hnull.symm.trans hopen

/-- The location is the message of the call before: there is no preamble. -/
theorem suppresses_iff_of_last (hdefined : s.log.undefined = false)
    (hopen : s.log.logFileHandle = .opened) (hle : a.info.level ≤ s.log.defLogLevel)
    (hstr : s.log.lastLogStr = prev.message) (hlast : a.info.location = prev.message)
    (hlog : s'.log = s.log.logInfo (s.call a.info) a.curTsStr a.ok) :
    s.Suppresses s' prev a ↔ s.ToldApart prev a := by
  by_cases hrepeats : a.info.Repeats prev
  · have hmessage : a.info.message = a.info.location := hrepeats.2.2.2.trans hlast.symm
    refine ⟨fun _ => .inl ⟨hrepeats, .inr hmessage⟩,
      fun _ => ⟨fun _ => ?_, fun hdiffers => absurd hrepeats hdiffers⟩⟩
    rw [hlog]
    exact Log.adds_logInfo_last hdefined hopen hle (hlast.trans hstr.symm) hmessage
  · constructor
    · intro hsup
      obtain ⟨name, -, hadds⟩ := hsup.different hrepeats
      rw [hlog] at hadds
      -- The message alone is too short to be both
      have hlen := Log.length_le_of_adds_logInfo hdefined hopen hadds hle (hlast.trans hstr.symm)
      have hpos := List.length_pos_iff.mpr (a.info.preamble_ne_nil a.curTsStr name)
      rw [List.length_append] at hlen
      exact absurd hlen (by show ¬ _ ≤ a.info.message.length; omega)
    · rintro (⟨hsame, -⟩ | ⟨-, -, -, -, hdiff, -⟩)
      · exact absurd hsame hrepeats
      · exact absurd hlast hdiff

/-- The location is not the message of the call before: there is a preamble. -/
theorem suppresses_iff_of_new (hdefined : s.log.undefined = false)
    (hopen : s.log.logFileHandle = .opened) (hle : a.info.level ≤ s.log.defLogLevel)
    (hstr : s.log.lastLogStr = prev.message) (hnew : a.info.location ≠ prev.message)
    (hlog : s'.log = s.log.logInfo (s.call a.info) a.curTsStr a.ok) :
    s.Suppresses s' prev a ↔ s.ToldApart prev a := by
  have hnew' : a.info.location ≠ s.log.lastLogStr := hstr ▸ hnew
  by_cases hmessage : a.info.message = a.info.location
  · -- Then there is no message, so something is missing
    have hrepeats : ¬ a.info.Repeats prev := fun h => hnew (hmessage.symm.trans h.2.2.2)
    constructor
    · intro hsup
      obtain ⟨name, hname, hadds⟩ := hsup.different hrepeats
      rw [hlog] at hadds
      obtain ⟨name', hname', hbytes⟩ :=
        Log.of_adds_logInfo_location hdefined hopen hadds hle hnew' hmessage
      obtain rfl := Option.some.inj (hname.symm.trans hname')
      have hnil := List.append_right_eq_self.mp hbytes
      exact absurd (hmessage.symm.trans hnil) a.info.location_ne_nil
    · rintro (⟨hsame, -⟩ | ⟨-, -, -, -, -, hdiff, -⟩)
      · exact absurd hsame hrepeats
      · exact absurd hmessage hdiff
  · have hadds_iff := @Log.adds_logInfo_iff s.log (s.call a.info) a.curTsStr a.ok
      hdefined hopen hle hnew' hmessage
    constructor
    · intro hsup
      by_cases hrepeats : a.info.Repeats prev
      · -- The repetition has a preamble
        have hadds := hsup.repeated hrepeats
        rw [hlog] at hadds
        obtain ⟨-, name, text, -, -, hbytes⟩ := hadds_iff.mp hadds
        exact absurd (List.append_eq_nil_iff.mp hbytes.symm).1 (a.info.preamble_ne_nil _ _)
      · obtain ⟨name, hname, hadds⟩ := hsup.different hrepeats
        rw [hlog] at hadds
        obtain ⟨hlasts, name', text, hname', htext, hbytes⟩ := hadds_iff.mp hadds
        obtain rfl := Option.some.inj (hname.symm.trans hname')
        obtain rfl := List.append_cancel_left hbytes
        exact .inr ⟨hrepeats, hopen, hlasts, (List.getElem?_eq_some_iff.mp hname).1, hnew,
          hmessage, fprintfText_eq_self_iff.mp htext⟩
    · rintro (⟨-, hnull | hsame⟩ | ⟨hrepeats, -, hlasts, hlevel, -, -, hpercent⟩)
      · exact nomatch hnull.symm.trans hopen
      · exact absurd hsame hmessage
      · refine ⟨fun h => absurd h hrepeats,
          fun _ => ⟨_, List.getElem?_eq_getElem hlevel, ?_⟩⟩
        rw [hlog]
        exact hadds_iff.mpr ⟨hlasts, _, _, List.getElem?_eq_getElem hlevel,
          fprintfText_of_notMem hpercent, rfl⟩

/-- A call of `LOG_INFO` is suppressed if it repeats the one before, and written if it does not,
    exactly if the two are told apart. -/
theorem suppresses_iff (h : Transition.Reachable system s) (hprev : s.previous = some prev)
    (hs : s.step a = some s') : s.Suppresses s' prev a ↔ s.ToldApart prev a := by
  obtain ⟨⟨hdefined, hle⟩, hs⟩ := Option.ite_none_right_eq_some.mp hs
  have hlog : s'.log = s.log.logInfo (s.call a.info) a.curTsStr a.ok :=
    congrArg log (Option.some.inj hs).symm
  rcases keepsMessage_of_reachable h hdefined with hnull | ⟨hopen, hstr⟩
  · exact suppresses_iff_of_null hdefined hnull hlog
  · by_cases hlast : a.info.location = prev.message
    · exact suppresses_iff_of_last hdefined hopen hle (hstr prev hprev) hlast hlog
    · exact suppresses_iff_of_new hdefined hopen hle (hstr prev hprev) hlast hlog

/-- In a sequence of calls all repetitions are suppressed and all other calls are written, exactly
    if each call is told apart from the one before. -/
theorem repeats_suppressed_iff (h : system.init s) {as : List LogInfoArgs}
    (hr : system.run s as = some s') :
    system.Meets SuppressesNext s as ↔ system.Meets TellsNext s as := by
  refine Transition.Reach.meets_congr (.init h) hr fun t a t' ht hs => ?_
  constructor
  · intro hsup prev hprev
    exact (suppresses_iff ht hprev hs).mp (hsup t' prev hs hprev)
  · intro htold t'' prev hs' hprev
    exact (suppresses_iff ht hprev hs').mpr (htold prev hprev)

/-- Before the first call, at the level of `config.ini`. -/
def atLevelFour : LogCalls where
  log := Log.logInit.logSetLevel 4
  previous := none
  calls := 0

theorem atLevelFour_init : system.init atLevelFour := ⟨4, rfl⟩

/-- Two calls with different locations and messages are both written. -/
theorem repeats_suppressed_pingError :
    ∃ s', system.run atLevelFour [⟨LogRun.initError, [], true⟩, ⟨LogRun.pingError, [], true⟩] =
      some s' ∧ system.Meets SuppressesNext atLevelFour
        [⟨LogRun.initError, [], true⟩, ⟨LogRun.pingError, [], true⟩] := by
  have hrun : system.run atLevelFour
      [⟨LogRun.initError, [], true⟩, ⟨LogRun.pingError, [], true⟩] = some _ := rfl
  refine ⟨_, hrun, (repeats_suppressed_iff atLevelFour_init hrun).mpr ?_⟩
  refine .cons rfl nofun (.cons rfl (fun prev hprev => .inr ?_) .nil)
  obtain rfl : LogRun.initError = prev := Option.some.inj hprev
  refine ⟨?_, rfl, fun _ => rfl, by decide +kernel, by decide +kernel, by decide +kernel,
    by decide +kernel⟩
  rintro ⟨-, -, hline, -⟩
  exact absurd hline (by decide)

/-- The same error is logged twice. -/
theorem repeats_suppressed_fails :
    ¬ ∀ (s s' : LogCalls) (as : List LogInfoArgs), system.init s → system.run s as = some s' →
      system.Meets SuppressesNext s as := by
  intro h
  have hrun : system.run atLevelFour
      [⟨LogRun.initError, [], true⟩, ⟨LogRun.initError, [], true⟩] = some _ := rfl
  -- The state between the two calls, and what is said about the second one
  obtain ⟨-, hsecond⟩ := h _ _ _ atLevelFour_init hrun
  have hsup := (hsecond _ rfl).1 _ LogRun.initError rfl rfl
  have hwritten := congrArg List.length (hsup.repeated ⟨rfl, rfl, rfl, rfl⟩).written
  exact absurd hwritten (by decide +kernel)

end LogCalls

end JQServer
