import JQServer.Native.Log

/-!
# The records of the log

A record is a preamble and the message of the same call of `LOG_INFO` right after it. The two
are written in separate critical sections that compare their text with the same
`last_log_str`, so a record is whole only if no other call comes between, and if neither of the
two texts is taken for a repetition of the other. In runs that keep to that all records are
whole (`records_whole`).
-/

namespace JQServer

/-- The message of the latest record. -/
def lastMessage (output : List LogEntry) : Option (List UInt8) :=
  output.findSome? fun
    | .message _ text => some text
    | _ => none

/-- An entry fits to the ones before it: a message is that of its call and comes directly after
    the preamble of the call, and a message that was not written is that of the record before. -/
def LogEntry.Follows : LogEntry → List LogEntry → Prop
  | .preamble call text, _ => call.location <:+ text
  | .message (some call) text, earlier =>
    text = call.message ∧ ∃ preamble, earlier.head? = some (.preamble call preamble)
  | .unwritten call, earlier => lastMessage earlier = some call.message
  | .message none _, _ | .truncated, _ => True

/-- Every entry fits to the ones before it. -/
def Whole : List LogEntry → Prop
  | [] => True
  | entry :: earlier => entry.Follows earlier ∧ Whole earlier

/-- The entry is about the message of a call. -/
def LogEntry.IsAbout (id : Nat) : LogEntry → Prop
  | .message (some call) _ | .unwritten call => call.id = id
  | _ => False

/-- The texts of a call: they are new, and what is written is defined; or the call is a
    repetition. -/
def LogInfo.Distinct (info : LogInfo) (lastLogStr : List UInt8) : Prop :=
  info.location ≠ lastLogStr ∧ info.message ≠ info.location ∧
      info.level < preambleLogstr.length ∧ 37 ∉ info.message ∨
    info.location = lastLogStr ∧ info.message = info.location

namespace LogRun

/-- All records are whole, every call that has returned has its message among the entries, and
    nothing undefined has happened. -/
structure RecordsWhole (s : LogRun) : Prop where
  whole : Whole s.log.output
  written : ∀ id < s.calls, (∃ t call, s.inCall t = some call ∧ call.id = id) ∨
    ∃ entry ∈ s.log.output, entry.IsAbout id
  defined : s.log.undefined = false

/-- A call begins when no other is between its two critical sections, its location is not the
    last string and its message is not its location (or both are), it writes something defined,
    and a new log file can be opened if it is time for one. -/
def Apart (s : LogRun) : Section → Prop
  | .preamble _ info _ ok =>
    (∀ u, s.inCall u = none) ∧ (s.log.count + 1 ≥ maxLogLineNum → ok = true) ∧
      info.Distinct s.log.lastLogStr
  | .message _ => True

end LogRun

/-- The message of the call is going to be written behind its preamble, or is that of the record
    before. -/
def LogCall.Pending (call : LogCall) (l : Log) : Prop :=
  call.level ≤ l.defLogLevel ∧
    (call.message ≠ l.lastLogStr ∧ 37 ∉ call.message ∧
      (∃ preamble, l.output.head? = some (.preamble call preamble)) ∨
    call.message = l.lastLogStr ∧ lastMessage l.output = some l.lastLogStr)

namespace LogRun

/-- What holds between the critical sections of a run whose calls are apart. -/
structure Tidy (s : LogRun) : Prop where
  handle : s.log.logFileHandle = .opened
  records : s.RecordsWhole
  idle : (∀ u, s.inCall u = none) → lastMessage s.log.output = some s.log.lastLogStr
  alone : ∀ t u call call', s.inCall t = some call → s.inCall u = some call' → t = u
  pending : ∀ t call, s.inCall t = some call → call.Pending s.log
  fresh : ∀ t call, s.inCall t = some call → call.id < s.calls

end LogRun

/-! ### What the functions write -/

/-- A format without conversions is written as it is. -/
theorem fprintfText_of_notMem {format : List UInt8} (h : 37 ∉ format) :
    fprintfText format = some format := by
  induction format with
  | nil => rfl
  | cons c format ih =>
    obtain ⟨hc, hformat⟩ := not_or.mp (mt List.mem_cons.mpr h)
    unfold fprintfText
    split
    · rename_i heq
      cases heq
    · rename_i heq
      exact absurd (List.cons.inj heq).1.symm hc
    · rename_i heq
      exact absurd (List.cons.inj heq).1.symm hc
    · rename_i heq
      obtain ⟨rfl, rfl⟩ := List.cons.inj heq
      rw [ih hformat]
      rfl

namespace Log

variable {l : Log} {call : LogCall}

@[simp] theorem countLine_lastLogStr (ok : Bool) : (l.countLine ok).lastLogStr = l.lastLogStr := by
  unfold countLine
  split
  · cases ok with
    | false => rfl
    | true => rfl
  · rfl

@[simp] theorem countLine_defLogLevel (ok : Bool) :
    (l.countLine ok).defLogLevel = l.defLogLevel := by
  unfold countLine
  split
  · cases ok with
    | false => rfl
    | true => rfl
  · rfl

/-- The file is still open, the level is the same, and nothing undefined has happened. -/
structure Goes (l l' : Log) : Prop where
  handle : l'.logFileHandle = .opened
  defLogLevel : l'.defLogLevel = l.defLogLevel
  defined : l'.undefined = l.undefined

theorem Goes.trans {l' l'' : Log} (h : l.Goes l') (h' : l'.Goes l'') : l.Goes l'' :=
  ⟨h'.handle, h'.defLogLevel.trans h.defLogLevel, h'.defined.trans h.defined⟩

theorem Goes.use (h : l.logFileHandle = .opened) (op : FileOp) : l.Goes (l.use op) :=
  ⟨h, rfl, use_undefined op h⟩

/-- The line is counted; the last string is the same. -/
theorem countLine_spec {ok : Bool} (h : l.logFileHandle = .opened)
    (hok : l.count + 1 ≥ maxLogLineNum → ok = true) :
    l.Goes (l.countLine ok) ∧ (l.countLine ok).lastLogStr = l.lastLogStr ∧
      ((l.countLine ok).output = l.output ∨ (l.countLine ok).output = .truncated :: l.output) := by
  unfold countLine
  split
  · rename_i hmax
    rw [hok hmax]
    exact ⟨⟨rfl, rfl, use_undefined .fclose h⟩, rfl, .inr rfl⟩
  · exact ⟨⟨h, rfl, rfl⟩, rfl, .inl rfl⟩

/-- A preamble that is new is written and becomes the last string. -/
theorem writePreamble_new (curTsStr : List UInt8) (h : l.logFileHandle = .opened)
    (hnew : call.location ≠ l.lastLogStr) (hle : call.level ≤ l.defLogLevel)
    (hlevel : call.level < preambleLogstr.length) :
    l.Goes (l.writePreamble call curTsStr) ∧
      (l.writePreamble call curTsStr).lastLogStr = call.location ∧
      ∃ text, call.location <:+ text ∧
        (l.writePreamble call curTsStr).output = .preamble call text :: l.output := by
  rw [writePreamble, if_pos ⟨hnew, hle⟩, putPreamble, List.getElem?_eq_getElem hlevel]
  exact ⟨⟨h, rfl, use_undefined .fprintf h⟩, rfl, _, List.suffix_append .., rfl⟩

/-- A preamble can be written into an open file at a level that has a name. -/
theorem of_putPreamble_defined {curTsStr : List UInt8}
    (h : (l.putPreamble call curTsStr).undefined = false) :
    l.logFileHandle = .opened ∧ ∃ name, preambleLogstr[call.level]? = some name := by
  cases hname : preambleLogstr[call.level]? with
  | none =>
    rw [putPreamble, hname] at h
    cases h
  | some name =>
    rw [putPreamble, hname] at h
    exact ⟨(of_use_defined h).2 (by decide), name, rfl⟩

theorem of_writePreamble_defined {curTsStr : List UInt8} (hnew : call.location ≠ l.lastLogStr)
    (hle : call.level ≤ l.defLogLevel) (h : (l.writePreamble call curTsStr).undefined = false) :
    l.logFileHandle = .opened ∧ call.level < preambleLogstr.length := by
  rw [writePreamble, if_pos ⟨hnew, hle⟩] at h
  obtain ⟨hopen, name, hname⟩ := of_putPreamble_defined h
  exact ⟨hopen, (List.getElem?_eq_some_iff.mp hname).1⟩

/-- Without a file `log_s` writes nothing. -/
theorem logS_of_null {call : Option LogCall} {level : Nat} {text : List UInt8}
    (h : l.logFileHandle = .null) : l.logS call level text = l.noMessage call :=
  if_pos h

/-- A text that is new and within the level goes to `fprintf`. -/
theorem logS_new {call : Option LogCall} {level : Nat} {text : List UInt8}
    (h : l.logFileHandle ≠ .null) (hle : level ≤ l.defLogLevel)
    (hnew : sBuffer text ≠ l.lastLogStr) :
    l.logS call level text = (l.putMessage call (sBuffer text)).use .fflush := by
  rw [logS, if_neg h, writeMessage, if_pos ⟨hnew, hle⟩]

/-- The text of the last time is not written again. -/
theorem logS_last {call : Option LogCall} {level : Nat} {text : List UInt8}
    (h : l.logFileHandle ≠ .null) (hlast : sBuffer text = l.lastLogStr) :
    l.logS call level text = (l.noMessage call).use .fflush := by
  rw [logS, if_neg h, writeMessage, if_neg fun hnew => hnew.1 hlast]

/-- A message without conversions that is new is written and becomes the last string. -/
theorem writeMessage_new (call : Option LogCall) {level : Nat} {message : List UInt8}
    (h : l.logFileHandle = .opened) (hnew : message ≠ l.lastLogStr)
    (hle : level ≤ l.defLogLevel) (hpercent : 37 ∉ message) :
    l.Goes (l.writeMessage call level message) ∧
      (l.writeMessage call level message).lastLogStr = message ∧
      (l.writeMessage call level message).output = .message call message :: l.output := by
  rw [writeMessage, if_pos ⟨hnew, hle⟩, putMessage, fprintfText_of_notMem hpercent]
  exact ⟨⟨h, rfl, use_undefined .fprintf h⟩, rfl, rfl⟩

end Log

/-! ### The two critical sections -/

/-- `log_s` of a call writes its message, or leaves it because it is that of the record before. -/
theorem LogCall.Pending.logS {call : LogCall} {l : Log} (hp : call.Pending l)
    (h : l.logFileHandle = .opened) :
    l.Goes (l.logS (some call) call.level call.text) ∧
      lastMessage (l.logS (some call) call.level call.text).output =
        some (l.logS (some call) call.level call.text).lastLogStr ∧
      ∃ entry : LogEntry, entry.IsAbout call.id ∧ entry.Follows l.output ∧
        (l.logS (some call) call.level call.text).output = entry :: l.output := by
  have hopen : ¬ l.logFileHandle = .null := by
    rw [h]
    exact nofun
  obtain ⟨hlevel, ⟨hnew, hpercent, hhead⟩ | ⟨hsame, hlast⟩⟩ := hp
  · rw [Log.logS, if_neg hopen]
    -- The preamble is the head of the output, and the message follows it
    obtain ⟨hgoes, hstr, houtput⟩ := Log.writeMessage_new (some call) h hnew hlevel hpercent
    refine ⟨hgoes.trans (.use hgoes.handle _), ?_, .message (some call) call.message, rfl,
      ⟨rfl, hhead⟩, houtput⟩
    show lastMessage (l.writeMessage (some call) call.level call.message).output =
      some (l.writeMessage (some call) call.level call.message).lastLogStr
    rw [houtput, hstr]
    rfl
  -- The message is the last one written: neither of the two is written again
  · have hno : l.Goes (l.noMessage (some call)) := ⟨h, rfl, rfl⟩
    rw [Log.logS_last hopen hsame]
    exact ⟨hno.trans (.use hno.handle _), hlast, .unwritten call, rfl,
      hlast.trans (congrArg some hsame.symm), rfl⟩

/-- `log_preamble` writes the preamble of a call that is apart, or leaves it because the call is
    a repetition. -/
theorem LogCall.Pending.of_logPreamble {call : LogCall} {l : Log} {ok : Bool}
    (curTsStr : List UInt8) (h : l.logFileHandle = .opened)
    (hlast : lastMessage l.output = some l.lastLogStr) (hwhole : Whole l.output)
    (hok : l.count + 1 ≥ maxLogLineNum → ok = true)
    (hle : call.level ≤ l.defLogLevel) (hdistinct : call.Distinct l.lastLogStr) :
    l.Goes (l.logPreamble call curTsStr ok) ∧ call.Pending (l.logPreamble call curTsStr ok) ∧
      Whole (l.logPreamble call curTsStr ok).output ∧
      l.output ⊆ (l.logPreamble call curTsStr ok).output := by
  have hopen : ¬ l.logFileHandle = .null := by
    rw [h]
    exact nofun
  obtain ⟨hgoes, hstr, houtput⟩ := Log.countLine_spec h hok
  -- A new file changes nothing in the records before it
  have hcounted : Whole (l.countLine ok).output ∧ l.output ⊆ (l.countLine ok).output ∧
      lastMessage (l.countLine ok).output = some (l.countLine ok).lastLogStr := by
    rw [hstr]
    rcases houtput with houtput | houtput
    · rw [houtput]
      exact ⟨hwhole, List.Subset.refl _, hlast⟩
    · rw [houtput]
      exact ⟨⟨trivial, hwhole⟩, List.subset_cons_self _ _, hlast⟩
  obtain ⟨hwhole₁, hsub, hlast₁⟩ := hcounted
  rw [Log.logPreamble, if_neg hopen]
  rw [← hstr] at hdistinct
  rw [← hgoes.defLogLevel] at hle
  rcases hdistinct with ⟨hnew, hmessage, hlevel, hpercent⟩ | ⟨hsame, hmessage⟩
  · -- The preamble is written, and its location is the last string now
    obtain ⟨hgoes', hstr', text, hsuffix, houtput'⟩ :=
      Log.writePreamble_new curTsStr hgoes.handle hnew hle hlevel
    refine ⟨hgoes.trans (hgoes'.trans (.use hgoes'.handle _)),
      ⟨?_, .inl ⟨?_, hpercent, text, ?_⟩⟩, ?_, ?_⟩
    · rw [Log.use_defLogLevel, hgoes'.defLogLevel]
      exact hle
    · rw [Log.use_lastLogStr, hstr']
      exact hmessage
    · rw [Log.use_output, houtput']
      rfl
    · rw [Log.use_output, houtput']
      exact ⟨hsuffix, hwhole₁⟩
    · rw [Log.use_output, houtput']
      exact List.Subset.trans hsub (List.subset_cons_self _ _)
  · -- The call is a repetition, and nothing is written
    have hwrite : (l.countLine ok).writePreamble call curTsStr = l.countLine ok :=
      if_neg fun hnew => hnew.1 hsame
    rw [hwrite]
    exact ⟨hgoes.trans (.use hgoes.handle _), ⟨hle, .inr ⟨hmessage.trans hsame, hlast₁⟩⟩,
      hwhole₁, hsub⟩

namespace LogRun

variable {s s' : LogRun} {t : Nat}

/-- A call that is apart begins. -/
theorem Tidy.preamble (h : s.Tidy) {info : LogInfo} {curTsStr : List UInt8} {ok : Bool}
    (hle : info.level ≤ s.log.defLogLevel) (hapart : s.Apart (.preamble t info curTsStr ok)) :
    Tidy {
      log := s.log.logPreamble { info with id := s.calls } curTsStr ok
      inCall := Function.update s.inCall t (some { info with id := s.calls })
      calls := s.calls + 1 } := by
  obtain ⟨hnone, hok, hdistinct⟩ := hapart
  let call : LogCall := { info with id := s.calls }
  obtain ⟨hgoes, hpending, hwhole, hsub⟩ :=
    LogCall.Pending.of_logPreamble curTsStr h.handle (h.idle hnone) h.records.whole hok
      (show call.level ≤ _ from hle) hdistinct
  -- The only call is this one
  have hcall : ∀ u call', Function.update s.inCall t (some call) u = some call' →
      u = t ∧ call' = call := by
    intro u call' hu
    by_cases hut : u = t
    · rw [hut, Function.update_self] at hu
      exact ⟨hut, (Option.some.inj hu).symm⟩
    · rw [Function.update_of_ne hut, hnone u] at hu
      cases hu
  refine ⟨hgoes.handle, ⟨hwhole, fun id hid => ?_, hgoes.defined.trans h.records.defined⟩,
    fun hidle => ?_, fun u v call₁ call₂ hu hv => ?_, fun u call' hu => ?_, fun u call' hu => ?_⟩
  · rcases Nat.lt_succ_iff_lt_or_eq.mp hid with hid | rfl
    · rcases h.records.written id hid with ⟨u, call', hu, -⟩ | ⟨e, hmem, he⟩
      · exact nomatch (hnone u).symm.trans hu
      · exact .inr ⟨e, hsub hmem, he⟩
    · exact .inl ⟨t, call, Function.update_self .., rfl⟩
  · exact nomatch (Function.update_self t (some call) s.inCall).symm.trans (hidle t)
  · exact (hcall u call₁ hu).1.trans (hcall v call₂ hv).1.symm
  · obtain ⟨-, rfl⟩ := hcall u call' hu
    exact hpending
  · obtain ⟨-, rfl⟩ := hcall u call' hu
    exact Nat.lt_succ_self _

/-- A call that is alone returns. -/
theorem Tidy.message (h : s.Tidy) {call : LogCall} (hcall : s.inCall t = some call) :
    Tidy { s with
      log := s.log.logS (some call) call.level call.text
      inCall := Function.update s.inCall t none } := by
  obtain ⟨hgoes, hlast, entry, habout, hfollows, houtput⟩ := (h.pending t call hcall).logS h.handle
  -- No other call is between its critical sections
  have hnone : ∀ u, Function.update s.inCall t none u = none := by
    intro u
    by_cases hut : u = t
    · rw [hut, Function.update_self]
    · rw [Function.update_of_ne hut]
      cases hu : s.inCall u with
      | none => rfl
      | some call' => exact absurd (h.alone u t call' call hu hcall) hut
  have hwhole : Whole (s.log.logS (some call) call.level call.text).output := by
    rw [houtput]
    exact ⟨hfollows, h.records.whole⟩
  refine ⟨hgoes.handle, ⟨hwhole, fun id hid => ?_, hgoes.defined.trans h.records.defined⟩,
    fun _ => hlast, fun u _ _ _ hu => ?_, fun u _ hu => ?_, fun u _ hu => ?_⟩
  · right
    show ∃ e ∈ (s.log.logS (some call) call.level call.text).output, e.IsAbout id
    rw [houtput]
    rcases h.records.written id hid with ⟨u, call', hu, rfl⟩ | ⟨e, hmem, he⟩
    · obtain rfl := h.alone u t call' call hu hcall
      obtain rfl := Option.some.inj (hu.symm.trans hcall)
      exact ⟨entry, List.mem_cons_self, habout⟩
    · exact ⟨e, List.mem_cons_of_mem _ hmem, he⟩
  · exact nomatch (hnone u).symm.trans hu
  · exact nomatch (hnone u).symm.trans hu
  · exact nomatch (hnone u).symm.trans hu

/-! ### Runs -/

theorem tidy_of_init (h : system.init s) : s.Tidy := by
  obtain ⟨level, rfl⟩ := h
  exact ⟨rfl, ⟨⟨trivial, trivial⟩, nofun, rfl⟩, fun _ => rfl, nofun, nofun, nofun⟩

theorem Tidy.step {a : Section} (h : s.Tidy) (hapart : s.Apart a) (hs : s.step a = some s') :
    s'.Tidy := by
  cases a with
  | preamble t info curTsStr ok =>
    obtain ⟨⟨-, -, hle⟩, hs⟩ := Option.ite_none_right_eq_some.mp hs
    rw [← Option.some.inj hs]
    exact h.preamble hle hapart
  | message t =>
    obtain ⟨-, hs⟩ := Option.ite_none_left_eq_some.mp hs
    obtain ⟨call, hcall, rfl⟩ := Option.map_eq_some_iff.mp hs
    exact h.message hcall

theorem tidy_of_reach (h : Transition.Reach system Apart s) : s.Tidy :=
  h.invariant (fun _ => tidy_of_init) fun _ _ _ _ htidy hapart hs => htidy.step hapart hs

/-- In a run whose calls are apart all records are whole. -/
theorem records_whole (h : Transition.Reach system Apart s) : s.RecordsWhole :=
  (tidy_of_reach h).records

/-- A message that is written, and not directly behind the preamble of its call, breaks a
    record. -/
theorem displaced_message_fails {call : LogCall} (hcall : s.inCall t = some call)
    (hopen : s.log.logFileHandle = .opened) (hdefined : s.log.undefined = false)
    (hle : call.level ≤ s.log.defLogLevel) (hnew : call.message ≠ s.log.lastLogStr)
    (hhead : ∀ preamble, s.log.output.head? ≠ some (.preamble call preamble)) :
    ∃ s', s.step (.message t) = some s' ∧ ¬ s'.RecordsWhole := by
  have hnull : ¬ s.log.logFileHandle = .null := by
    rw [hopen]
    exact nofun
  refine ⟨{ s with
    log := s.log.logS (some call) call.level call.text
    inCall := Function.update s.inCall t none }, ?_, fun hrecords => ?_⟩
  · rw [step, hdefined, hcall]
    rfl
  · have hlog : s.log.logS (some call) call.level call.text =
        (s.log.putMessage (some call) call.message).use .fflush :=
      Log.logS_new hnull hle hnew
    have hwhole := hrecords.whole
    have hundefined := hrecords.defined
    simp only [hlog] at hwhole hundefined
    replace hundefined := (Log.of_use_defined hundefined).1
    rw [Log.use_output] at hwhole
    cases htext : fprintfText call.message with
    | none =>
      rw [Log.putMessage, htext] at hundefined
      cases hundefined
    | some text =>
      rw [Log.putMessage, htext] at hwhole
      -- The message would have to stand behind its own preamble
      obtain ⟨⟨-, preamble, hpreamble⟩, -⟩ := hwhole
      exact hhead preamble hpreamble

/-- A call that begins between the critical sections of another one, whose message is not its
    location, breaks a record at the latest when the other one goes on. -/
theorem overlap_fails (h : Transition.Reach system Apart s) {t u : Nat} {call : LogCall}
    {info : LogInfo} {curTsStr : List UInt8} {ok : Bool} (hu : s.inCall u = some call)
    (hs : s.step (.preamble t info curTsStr ok) = some s')
    (hnew : info.location ≠ s.log.lastLogStr) (hdiff : call.message ≠ info.location) :
    ¬ s'.RecordsWhole ∨ ∃ s'', s'.step (.message u) = some s'' ∧ ¬ s''.RecordsWhole := by
  have htidy := tidy_of_reach h
  obtain ⟨⟨-, hidle, hle⟩, hs⟩ := Option.ite_none_right_eq_some.mp hs
  have hut : u ≠ t := by
    rintro rfl
    exact nomatch hu.symm.trans hidle
  have hu' : s'.inCall u = some call := by
    rw [← Option.some.inj hs]
    exact (Function.update_of_ne hut ..).trans hu
  by_cases hdefined : s'.log.undefined = false
  · right
    let call' : LogCall := { info with id := s.calls }
    have hlog : s'.log = ((s.log.countLine ok).writePreamble call' curTsStr).use .fflush := by
      rw [← Option.some.inj hs]
      exact if_neg (by rw [htidy.handle]; exact nofun)
    have hnew' : call'.location ≠ (s.log.countLine ok).lastLogStr := by
      rw [Log.countLine_lastLogStr]
      exact hnew
    have hle' : call'.level ≤ (s.log.countLine ok).defLogLevel := by
      rw [Log.countLine_defLogLevel]
      exact hle
    rw [hlog] at hdefined
    obtain ⟨hopen, hname⟩ :=
      Log.of_writePreamble_defined hnew' hle' (Log.of_use_defined hdefined).1
    obtain ⟨hgoes, hstr, text, -, houtput⟩ := Log.writePreamble_new curTsStr hopen hnew' hle' hname
    -- The head of the output is the preamble of `t`, which is not that of `u`
    apply displaced_message_fails hu'
    · rw [hlog]
      exact hgoes.handle
    · rw [hlog]
      exact hdefined
    · rw [hlog, Log.use_defLogLevel, hgoes.defLogLevel, Log.countLine_defLogLevel]
      exact (htidy.pending u call hu).1
    · rw [hlog, Log.use_lastLogStr, hstr]
      exact hdiff
    · intro preamble hhead
      rw [hlog, Log.use_output, houtput] at hhead
      obtain ⟨rfl, -⟩ := LogEntry.preamble.inj (Option.some.inj hhead)
      exact absurd (htidy.fresh u call' hu) (Nat.lt_irrefl _)
  · exact .inl fun hrecords => hdefined hrecords.defined

/-- A call in `create_connect`. -/
def initError : LogInfo where
  level := 3
  file := CString.ascii "sql_pool.c"
  function := CString.ascii "create_connect"
  line := 35
  text := CString.ascii "mysql_init error!.\n"

/-- A call in `get_db_connect_from_pool`. -/
def pingError : LogInfo where
  level := 3
  file := CString.ascii "sql_pool.c"
  function := CString.ascii "get_db_connect_from_pool"
  line := 151
  text := CString.ascii "mysql_ping error!.\n"

/-- Before the first call, at the level of `config.ini`. -/
def atLevelFour : LogRun where
  log := Log.logInit.logSetLevel 4
  inCall _ := none
  calls := 0

theorem atLevelFour_init : system.init atLevelFour := ⟨4, rfl⟩

/-- Two threads log one after the other. -/
theorem records_whole_in_turn :
    ∃ s, system.run atLevelFour [.preamble 0 initError [] true, .message 0,
      .preamble 1 pingError [] true, .message 1] = some s ∧ s.RecordsWhole := by
  have hmeets : system.Meets Apart atLevelFour [.preamble 0 initError [] true, .message 0,
      .preamble 1 pingError [] true, .message 1] := by
    refine .cons rfl ⟨fun _ => rfl, fun _ => rfl, .inl (by decide +kernel)⟩ (.cons rfl trivial
      (.cons rfl ⟨fun u => ?_, fun _ => rfl, .inl (by decide +kernel)⟩ (.cons rfl trivial .nil)))
    by_cases hu : u = 0
    · rw [hu]
      rfl
    · exact (Function.update_of_ne hu ..).trans (Function.update_of_ne hu ..)
  exact ⟨_, rfl, records_whole (.run (.init atLevelFour_init) hmeets rfl)⟩

/-- The first thread's message is written behind the second one's preamble. -/
theorem records_whole_fails :
    ¬ ∀ s, Transition.Reachable system s → s.RecordsWhole := by
  intro h
  have hrun : system.run atLevelFour [.preamble 0 initError [] true,
      .preamble 1 pingError [] true, .message 0] = some _ := rfl
  obtain ⟨⟨-, preamble, hhead⟩, -⟩ := (h _ (.of_run atLevelFour_init hrun)).whole
  -- The preamble before the message is the one of the second call
  injection Option.some.inj hhead with hcall
  exact absurd (show 1 = 0 from congrArg LogCall.id hcall) (by decide)

end LogRun

end JQServer
