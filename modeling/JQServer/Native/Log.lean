import JQServer.ForStd.CString
import JQServer.ForStd.Transition
import Mathlib.Logic.Function.Basic

/-!
# The logger (`src/server/log.c`, `src/server/log.h`)

`LOG_INFO` calls `log_preamble` and `log_s` one after the other; each holds `log_mutex` for
itself. The functions stand here twice: `logPreamble` and `logS` run to their end, and
`LogThreads` has the steps of any number of threads, so that a thread can be stopped between
the NULL check, which is made without the mutex, and the file operations behind it.

What was written to the log file is kept as a list of entries, each with the `LOG_INFO` call
that wrote it. Every `fprintf`, `fflush` and `fclose` is recorded with the state of the handle
that it was given. After undefined behaviour the model stops.
-/

namespace JQServer

/-- `MAX_LOG_LINE_NUM` -/
def maxLogLineNum : Nat := 500000

/-- `LOG_STR_BUF_LEN`, also the size of `sBuffer`. -/
def logStrBufLen : Nat := 512

/-- `TIME_STAMP_BUF_LEN`, the size of `cur_ts_str`. -/
def timeStampBufLen : Nat := 128

/-- `LOG_LEVEL_INDISPENSABLE` -/
def logLevelIndispensable : Nat := 1

/-- `log_file_handle`: NULL, an open file, or a file that `fclose` has closed. -/
inductive LogFile where
  | null
  | opened
  | closed
  deriving DecidableEq

/-- An operation on `log_file_handle`. -/
inductive FileOp where
  | fprintf
  | fflush
  | fclose
  deriving DecidableEq

/-- What a call of `LOG_INFO` passes on: `__FILE__`, `__FUNCTION__`, `__LINE__`, the level, and
    the text that `fmt` and its arguments expand to. -/
structure LogInfo where
  level : Nat
  file : List UInt8
  function : List UInt8
  line : Nat
  text : List UInt8
  deriving DecidableEq

/-- One call of `LOG_INFO` among all. -/
structure LogCall extends LogInfo where
  id : Nat
  deriving DecidableEq

/-- What has happened to the log file. `unwritten` is a call whose message was not written. -/
inductive LogEntry where
  | preamble (call : LogCall) (text : List UInt8)
  | message (call : Option LogCall) (text : List UInt8)
  | unwritten (call : LogCall)
  | truncated
  deriving DecidableEq

/-- The static variables of `log.c`, the entries and the file operations, the latest first. -/
structure Log where
  logFileHandle : LogFile
  count : Nat
  defLogLevel : Nat
  lastLogStr : List UInt8
  output : List LogEntry
  uses : List (FileOp × LogFile)
  undefined : Bool

/-- `vsnprintf` to `sBuffer`. -/
def sBuffer (text : List UInt8) : List UInt8 := (CString.str text).take (logStrBufLen - 1)

/-- The text of the location that `LOG_INFO` passes to `log_preamble`. -/
def LogInfo.location (info : LogInfo) : List UInt8 :=
  sBuffer (CString.str info.file ++ CString.ascii " " ++ CString.str info.function ++
    CString.ascii "(" ++ CString.ascii (toString info.line) ++ CString.ascii ") ")

/-- The message, as `log_s` formats it. -/
def LogInfo.message (info : LogInfo) : List UInt8 := sBuffer info.text

/-- `preamble_logstr` -/
def preambleLogstr : List (List UInt8) :=
  [" ", "FATAL", "ERROR", "WARNING", "INFO"].map CString.ascii

/-- What `fprintf` writes for a format without arguments: `%%` stands for a percent sign, and
    any other conversion takes an argument that is not there. -/
def fprintfText : List UInt8 → Option (List UInt8)
  | [] => some []
  | 37 :: 37 :: format => (fprintfText format).map (37 :: ·)
  | 37 :: _ => none
  | c :: format => (fprintfText format).map (c :: ·)

namespace Log

/-- A file operation. On NULL `fflush` has a meaning, the others have none. -/
def use (l : Log) (op : FileOp) : Log := { l with
  uses := (op, l.logFileHandle) :: l.uses
  undefined := l.undefined || l.logFileHandle = .closed ||
    l.logFileHandle = .null && op ≠ .fflush }

section

variable {l : Log}

@[simp] theorem use_logFileHandle (op : FileOp) : (l.use op).logFileHandle = l.logFileHandle := rfl

@[simp] theorem use_defLogLevel (op : FileOp) : (l.use op).defLogLevel = l.defLogLevel := rfl

@[simp] theorem use_lastLogStr (op : FileOp) : (l.use op).lastLogStr = l.lastLogStr := rfl

@[simp] theorem use_output (op : FileOp) : (l.use op).output = l.output := rfl

/-- An operation on an open file is defined. -/
theorem use_undefined (op : FileOp) (h : l.logFileHandle = .opened) :
    (l.use op).undefined = l.undefined := by
  simp [use, h]

/-- An operation is defined if nothing undefined has happened before; only `fflush` does not
    need a file. -/
theorem of_use_defined {op : FileOp} (h : (l.use op).undefined = false) :
    l.undefined = false ∧ (op ≠ .fflush → l.logFileHandle = .opened) := by
  cases hhandle : l.logFileHandle with
  | null => simp_all [use]
  | opened => simp_all [use]
  | closed => simp_all [use]

end

/-- `fclose` -/
def fclose (l : Log) : Log := { l.use .fclose with logFileHandle := .closed }

/-- `log_file_handle = fopen(log_file_name, "w")` -/
def fopen (l : Log) (ok : Bool) : Log :=
  if ok then { l with logFileHandle := .opened, output := .truncated :: l.output }
  else { l with logFileHandle := .null }

/-- `fprintf` of a preamble, with the time stamp; it becomes `last_log_str`. -/
def putPreamble (l : Log) (call : LogCall) (curTsStr : List UInt8) : Log :=
  match preambleLogstr[call.level]? with
  -- No name for the level
  | none => { l.use .fprintf with undefined := true }
  | some name => { l.use .fprintf with
      output := .preamble call (CString.ascii "[" ++ curTsStr ++ CString.ascii "][" ++ name ++
        CString.ascii "] " ++ call.location) :: l.output
      lastLogStr := call.location }

/-- `fprintf` of a message, which is the format; it becomes `last_log_str`. -/
def putMessage (l : Log) (call : Option LogCall) (message : List UInt8) : Log :=
  match fprintfText message with
  | none => { l.use .fprintf with undefined := true }
  | some text => { l.use .fprintf with
      output := .message call text :: l.output
      lastLogStr := message }

/-- `log_s` returns without having written. -/
def noMessage (l : Log) : Option LogCall → Log
  | none => l
  | some call => { l with output := .unwritten call :: l.output }

/-- The preamble, if it is different from the last string and within the level. -/
def writePreamble (l : Log) (call : LogCall) (curTsStr : List UInt8) : Log :=
  if call.location ≠ l.lastLogStr ∧ call.level ≤ l.defLogLevel then l.putPreamble call curTsStr
  else l

/-- The message, if it is different from the last string and within the level. -/
def writeMessage (l : Log) (call : Option LogCall) (level : Nat) (message : List UInt8) : Log :=
  if message ≠ l.lastLogStr ∧ level ≤ l.defLogLevel then l.putMessage call message
  else l.noMessage call

/-- `++count`, and a new file after `MAX_LOG_LINE_NUM` lines; `ok` is the outcome of `fopen`. -/
def countLine (l : Log) (ok : Bool) : Log :=
  if l.count + 1 ≥ maxLogLineNum then ({ l with count := 0 }.fclose).fopen ok
  else { l with count := l.count + 1 }

/-- `log_preamble` -/
def logPreamble (l : Log) (call : LogCall) (curTsStr : List UInt8) (ok : Bool) : Log :=
  -- A closed handle is not NULL
  if l.logFileHandle = .null then l
  else ((l.countLine ok).writePreamble call curTsStr).use .fflush

/-- `log_s` -/
def logS (l : Log) (call : Option LogCall) (level : Nat) (text : List UInt8) : Log :=
  if l.logFileHandle = .null then l.noMessage call
  else (l.writeMessage call level (sBuffer text)).use .fflush

/-- `LOG_INFO`, in one thread. -/
def logInfo (l : Log) (call : LogCall) (curTsStr : List UInt8) (ok : Bool) : Log :=
  (l.logPreamble call curTsStr ok).logS (some call) call.level call.text

/-- `log_set_level` -/
def logSetLevel (l : Log) (level : Nat) : Log := { l with defLogLevel := level }

/-- A successful `log_init`. -/
def logInit : Log :=
  logS {
    logFileHandle := .opened, count := 0, defLogLevel := logLevelIndispensable, lastLogStr := []
    output := [], uses := [], undefined := false }
    none logLevelIndispensable (CString.ascii "LOG START\n")

end Log

/-! ### Calls of `LOG_INFO`, one critical section after the other -/

/-- The logger, and the call of `LOG_INFO` that each thread is in, between its two functions. -/
structure LogRun where
  log : Log
  inCall : Nat → Option LogCall
  calls : Nat

namespace LogRun

/-- A critical section of a thread. -/
inductive Section where
  | preamble (t : Nat) (info : LogInfo) (curTsStr : List UInt8) (ok : Bool)
  | message (t : Nat)

/-- A thread runs `log_preamble` or `log_s`, at a level within the threshold. -/
def step (s : LogRun) : Section → Option LogRun
  | .preamble t info curTsStr ok =>
    if s.log.undefined = false ∧ s.inCall t = none ∧ info.level ≤ s.log.defLogLevel then
      some {
        log := s.log.logPreamble { info with id := s.calls } curTsStr ok
        inCall := Function.update s.inCall t (some { info with id := s.calls })
        calls := s.calls + 1 }
    else none
  | .message t =>
    if s.log.undefined then none
    else (s.inCall t).map fun call => { s with
      log := s.log.logS (some call) call.level call.text
      inCall := Function.update s.inCall t none }

/-- Calls of `LOG_INFO` after `log_init` and `log_set_level`. -/
def system : Transition.System LogRun Section where
  init s := ∃ level, s = {
    log := Log.logInit.logSetLevel level, inCall := fun _ => none, calls := 0 }
  step := step

end LogRun

/-! ### Calls of `LOG_INFO` in one thread -/

/-- The logger, and the call of `LOG_INFO` before. -/
structure LogCalls where
  log : Log
  previous : Option LogInfo
  calls : Nat

/-- What a call of `LOG_INFO` is given, by its caller, by the clock and by `fopen`. -/
structure LogInfoArgs where
  info : LogInfo
  curTsStr : List UInt8
  ok : Bool

namespace LogCalls

/-- The next call. -/
def call (s : LogCalls) (info : LogInfo) : LogCall := { info with id := s.calls }

/-- The thread calls `LOG_INFO`, at a level within the threshold. -/
def step (s : LogCalls) (a : LogInfoArgs) : Option LogCalls :=
  if s.log.undefined = false ∧ a.info.level ≤ s.log.defLogLevel then
    some {
      log := s.log.logInfo (s.call a.info) a.curTsStr a.ok
      previous := some a.info
      calls := s.calls + 1 }
  else none

/-- The calls of one thread after `log_init` and `log_set_level`. -/
def system : Transition.System LogCalls LogInfoArgs where
  init s := ∃ level, s = {
    log := Log.logInit.logSetLevel level, previous := none, calls := 0 }
  step := step

end LogCalls

/-! ### Threads -/

/-- A function of the logger; `closing` says that `log_close` has called `log_s`. -/
inductive LogFn where
  | logPreamble (call : LogCall)
  | logS (call : Option LogCall) (level : Nat) (text : List UInt8) (closing : Bool)

/-- What a function of the logger does next. -/
inductive LogPlace where
  | check
  | lock
  | count
  | fclose
  | fopen
  | fprintf
  | fflush
  | unlock
  deriving DecidableEq

/-- Where a thread is: outside, in `log_preamble` or `log_s`, or in `log_close`, before its
    NULL check or before its `fclose`. -/
inductive LogPc where
  | idle
  | inFn (fn : LogFn) (place : LogPlace)
  | logClose
  | lastFclose

/-- Where a thread goes on when the function returns. -/
def LogFn.after : LogFn → LogPc
  | logPreamble call => .inFn (logS (some call) call.level call.text false) .check
  | logS _ _ _ closing => if closing then .lastFclose else .idle

/-- Where the function goes on with the mutex. -/
def LogFn.first : LogFn → LogPlace
  | logPreamble _ => .count
  | logS .. => .fprintf

/-- What the function writes. -/
def LogFn.write (curTsStr : List UInt8) (l : Log) : LogFn → Log
  | logPreamble call => l.writePreamble call curTsStr
  | logS call level text _ => l.writeMessage call level (sBuffer text)

/-- The function finds no file. -/
def LogFn.skip (l : Log) : LogFn → Log
  | logPreamble _ => l
  | logS call _ _ _ => l.noMessage call

/-- The logger and the threads that use it. `logClosed` says that `log_close` has closed the
    file. -/
structure LogThreads where
  log : Log
  logMutex : Option Nat
  pc : Nat → LogPc
  calls : Nat
  logClosed : Bool

namespace LogThreads

/-- A thread goes on. -/
def goto (s : LogThreads) (t : Nat) (pc : LogPc) : LogThreads :=
  { s with pc := Function.update s.pc t pc }

theorem goto_pc_self (s : LogThreads) (t : Nat) (pc : LogPc) : (s.goto t pc).pc t = pc :=
  Function.update_self ..

theorem goto_pc_of_ne {s : LogThreads} {t u : Nat} {pc : LogPc} (h : u ≠ t) :
    (s.goto t pc).pc u = s.pc u :=
  Function.update_of_ne h ..

/-- The next step of a function. -/
def fnStep (s : LogThreads) (t : Nat) (fn : LogFn) (curTsStr : List UInt8) (ok : Bool) :
    LogPlace → Option LogThreads
  -- Before the mutex is locked
  | .check =>
    if s.log.logFileHandle = .null then
      some ({ s with log := fn.skip s.log }.goto t fn.after)
    else some (s.goto t (.inFn fn .lock))
  | .lock =>
    if s.logMutex = none then
      some ({ s with logMutex := some t }.goto t (.inFn fn fn.first))
    else none
  | .count =>
    if s.log.count + 1 ≥ maxLogLineNum then
      some ({ s with log := { s.log with count := 0 } }.goto t (.inFn fn .fclose))
    else some ({ s with log := { s.log with count := s.log.count + 1 } }.goto t (.inFn fn .fprintf))
  -- Until `fopen` has returned, the handle is the one that was closed
  | .fclose => some ({ s with log := s.log.fclose }.goto t (.inFn fn .fopen))
  | .fopen => some ({ s with log := s.log.fopen ok }.goto t (.inFn fn .fprintf))
  | .fprintf => some ({ s with log := fn.write curTsStr s.log }.goto t (.inFn fn .fflush))
  | .fflush => some ({ s with log := s.log.use .fflush }.goto t (.inFn fn .unlock))
  | .unlock => some ({ s with logMutex := none }.goto t fn.after)

/-- A call of a thread, or its next step. -/
inductive Move where
  | logInfo (info : LogInfo)
  | logS (level : Nat) (text : List UInt8)
  | logClose
  | next (curTsStr : List UInt8) (ok : Bool)

/-- A thread makes a move. -/
def move (s : LogThreads) (t : Nat) : Move → Option LogThreads
  | .logInfo info =>
    match s.pc t with
    | .idle => some ({ s with calls := s.calls + 1 }.goto t
        (.inFn (.logPreamble { info with id := s.calls }) .check))
    | _ => none
  | .logS level text =>
    match s.pc t with
    | .idle => some (s.goto t (.inFn (.logS none level text false) .check))
    | _ => none
  | .logClose =>
    match s.pc t with
    | .idle => some (s.goto t .logClose)
    | _ => none
  | .next curTsStr ok =>
    match s.pc t with
    | .idle => none
    | .inFn fn place => s.fnStep t fn curTsStr ok place
    | .logClose =>
      if s.log.logFileHandle = .null then some (s.goto t .idle)
      else some (s.goto t (.inFn
        (.logS none logLevelIndispensable (CString.ascii "LOG END\n") true) .check))
    | .lastFclose => some ({ s with log := s.log.fclose, logClosed := true }.goto t .idle)

/-- The threads after `log_init` and `log_set_level`. After undefined behaviour the model
    stops. -/
def system : Transition.System LogThreads (Nat × Move) where
  init s := ∃ level, s = {
    log := Log.logInit.logSetLevel level, logMutex := none, pc := fun _ => .idle, calls := 0,
    logClosed := false }
  step s a := if s.log.undefined then none else s.move a.1 a.2

/-! ### A thread that is left alone -/

variable {s : LogThreads} {t : Nat} {curTsStr : List UInt8} {ok : Bool}

theorem goto_goto (pc pc' : LogPc) : (s.goto t pc).goto t pc' = s.goto t pc' := by
  simp only [goto, Function.update_idem]

/-- The next step of a thread in a function, which forgets where the thread was. -/
theorem leads_next {fn : LogFn} {place : LogPlace} {pc : LogPc} {s' : LogThreads}
    (hdefined : s.log.undefined = false)
    (hs : (s.goto t (.inFn fn place)).fnStep t fn curTsStr ok place =
      some ((s'.goto t (.inFn fn place)).goto t pc)) :
    system.Leads (· = (t, .next curTsStr ok)) (s.goto t (.inFn fn place)) (s'.goto t pc) := by
  refine .single rfl ?_
  have hundefined : ¬ (s.goto t (.inFn fn place)).log.undefined = true := by
    rw [show (s.goto t (.inFn fn place)).log.undefined = false from hdefined]
    exact nofun
  have hpc : (s.goto t (.inFn fn place)).pc t = .inFn fn place := goto_pc_self ..
  show (if (s.goto t (.inFn fn place)).log.undefined then none
    else (s.goto t (.inFn fn place)).move t (.next curTsStr ok)) = _
  rw [goto_goto] at hs
  rw [if_neg hundefined, move, hpc]
  exact hs

end LogThreads

namespace LogFn

/-- What the function does before it writes. -/
def begin (l : Log) (ok : Bool) : LogFn → Log
  | logPreamble _ => l.countLine ok
  | logS .. => l

/-- The function, run to its end. -/
def run (l : Log) (curTsStr : List UInt8) (ok : Bool) : LogFn → Log
  | logPreamble call => l.logPreamble call curTsStr ok
  | logS call level text _ => l.logS call level text

theorem run_eq (fn : LogFn) (l : Log) (curTsStr : List UInt8) (ok : Bool) :
    fn.run l curTsStr ok = if l.logFileHandle = .null then fn.skip l
      else (fn.write curTsStr (fn.begin l ok)).use .fflush := by
  cases fn with
  | logPreamble call => rfl
  | logS call level text closing => rfl

theorem of_write_defined {fn : LogFn} {l : Log} {curTsStr : List UInt8}
    (h : (fn.write curTsStr l).undefined = false) : l.undefined = false := by
  cases fn with
  | logPreamble call =>
    simp only [write, Log.writePreamble, Log.putPreamble] at h
    split at h
    · split at h
      · cases h
      · exact (Log.of_use_defined h).1
    · exact h
  | logS call level text closing =>
    simp only [write, Log.writeMessage, Log.putMessage] at h
    split at h
    · split at h
      · cases h
      · exact (Log.of_use_defined h).1
    · cases call with
      | none => exact h
      | some call => exact h

theorem of_begin_defined {fn : LogFn} {l : Log} {ok : Bool}
    (h : (fn.begin l ok).undefined = false) : l.undefined = false := by
  cases fn with
  | logS call level text closing => exact h
  | logPreamble call =>
    simp only [begin, Log.countLine] at h
    split at h
    · have hfclose : (({ l with count := 0 } : Log).use .fclose).undefined = false := by
        cases ok with
        | false => exact h
        | true => exact h
      exact (Log.of_use_defined hfclose).1
    · exact h

end LogFn

namespace LogThreads

variable {s : LogThreads} {t : Nat} {curTsStr : List UInt8} {ok : Bool}

/-- A thread gets with the mutex to what it writes. -/
theorem begin_leads {fn : LogFn} (h : (fn.begin s.log ok).undefined = false) :
    system.Leads (· = (t, .next curTsStr ok)) (s.goto t (.inFn fn fn.first))
      ({ s with log := fn.begin s.log ok }.goto t (.inFn fn .fprintf)) := by
  cases fn with
  | logS call level text closing => exact .refl
  | logPreamble call =>
    by_cases hmax : s.log.count + 1 ≥ maxLogLineNum
    · -- The log file is renewed
      let l₁ : Log := { s.log with count := 0 }
      have hlog : (LogFn.logPreamble call).begin s.log ok = l₁.fclose.fopen ok := if_pos hmax
      have hfclose : l₁.fclose.undefined = false := by
        rw [hlog] at h
        cases ok with
        | false => exact h
        | true => exact h
      have hcount : system.Leads (· = (t, .next curTsStr ok))
          (s.goto t (.inFn (.logPreamble call) .count))
          ({ s with log := l₁ }.goto t (.inFn (.logPreamble call) .fclose)) :=
        leads_next (Log.of_use_defined hfclose).1 (if_pos hmax)
      have hclose : system.Leads (· = (t, .next curTsStr ok))
          ({ s with log := l₁ }.goto t (.inFn (.logPreamble call) .fclose))
          ({ s with log := l₁.fclose }.goto t (.inFn (.logPreamble call) .fopen)) :=
        leads_next (Log.of_use_defined hfclose).1 rfl
      have hopen : system.Leads (· = (t, .next curTsStr ok))
          ({ s with log := l₁.fclose }.goto t (.inFn (.logPreamble call) .fopen))
          ({ s with log := l₁.fclose.fopen ok }.goto t (.inFn (.logPreamble call) .fprintf)) :=
        leads_next hfclose rfl
      rw [hlog]
      exact (hcount.trans hclose).trans hopen
    · have hlog : (LogFn.logPreamble call).begin s.log ok =
          { s.log with count := s.log.count + 1 } := if_neg hmax
      rw [hlog] at h ⊢
      exact leads_next h (if_neg hmax)

/-- A thread that runs a function of the logger and is left alone does what the function does
    when it is run to its end. -/
theorem fn_leads {fn : LogFn} (hmutex : s.logMutex = none)
    (h : (fn.run s.log curTsStr ok).undefined = false) :
    system.Leads (· = (t, .next curTsStr ok)) (s.goto t (.inFn fn .check))
      ({ s with log := fn.run s.log curTsStr ok }.goto t fn.after) := by
  obtain ⟨log, logMutex, pc, calls, logClosed⟩ := s
  obtain rfl : logMutex = none := hmutex
  let s : LogThreads := ⟨log, none, pc, calls, logClosed⟩
  show system.Leads _ (s.goto t (.inFn fn .check)) _
  rw [fn.run_eq] at h ⊢
  by_cases hnull : s.log.logFileHandle = .null
  · rw [if_pos hnull] at h ⊢
    have hdefined : s.log.undefined = false := by
      cases fn with
      | logPreamble call => exact h
      | logS call level text closing =>
        cases call with
        | none => exact h
        | some call => exact h
    exact leads_next hdefined (if_pos hnull)
  · rw [if_neg hnull] at h ⊢
    let s₁ : LogThreads := { s with logMutex := some t }
    let l₁ := fn.begin s.log ok
    have hwrite := (Log.of_use_defined h).1
    have hbegin : l₁.undefined = false := LogFn.of_write_defined hwrite
    have hdefined : s.log.undefined = false := LogFn.of_begin_defined hbegin
    have hcheck : system.Leads (· = (t, .next curTsStr ok)) (s.goto t (.inFn fn .check))
        (s.goto t (.inFn fn .lock)) :=
      leads_next hdefined (if_neg hnull)
    have hlock : system.Leads (· = (t, .next curTsStr ok)) (s.goto t (.inFn fn .lock))
        (s₁.goto t (.inFn fn fn.first)) :=
      leads_next hdefined rfl
    have hfirst : system.Leads (· = (t, .next curTsStr ok)) (s₁.goto t (.inFn fn fn.first))
        ({ s₁ with log := l₁ }.goto t (.inFn fn .fprintf)) :=
      begin_leads hbegin
    have hfprintf : system.Leads (· = (t, .next curTsStr ok))
        ({ s₁ with log := l₁ }.goto t (.inFn fn .fprintf))
        ({ s₁ with log := fn.write curTsStr l₁ }.goto t (.inFn fn .fflush)) :=
      leads_next hbegin rfl
    have hfflush : system.Leads (· = (t, .next curTsStr ok))
        ({ s₁ with log := fn.write curTsStr l₁ }.goto t (.inFn fn .fflush))
        ({ s₁ with log := (fn.write curTsStr l₁).use .fflush }.goto t (.inFn fn .unlock)) :=
      leads_next hwrite rfl
    have hunlock : system.Leads (· = (t, .next curTsStr ok))
        ({ s₁ with log := (fn.write curTsStr l₁).use .fflush }.goto t (.inFn fn .unlock))
        ({ s₁ with log := (fn.write curTsStr l₁).use .fflush, logMutex := none }.goto t fn.after) :=
      leads_next h rfl
    exact ((((hcheck.trans hlock).trans hfirst).trans hfprintf).trans hfflush).trans hunlock

end LogThreads

end JQServer
