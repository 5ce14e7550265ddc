import JQServer.Spec.LogHandle
import JQServer.Spec.LogText
import JQServer.ForStd.Fin
import Mathlib.Algebra.Order.BigOperators.Group.Finset

/-!
# The size of the log file

`log_preamble` counts its calls and renews the file at `MAX_LOG_LINE_NUM`; `log_s` counts
nothing, and takes the mutex again. Between the two functions of one thread another thread can
renew the file, so the file can get messages whose preambles are in the file before it. While
the threads below `N` call `LOG_INFO`, the file never has more than `MAX_LOG_LINE_NUM` preambles
and `N` messages more than that (`log_file_bounded`).
-/

namespace JQServer

namespace LogEntry

def isPreamble : LogEntry → Bool
  | preamble .. => true
  | _ => false

def isMessage : LogEntry → Bool
  | message .. => true
  | _ => false

end LogEntry

/-- The longest preamble: a time stamp, a level of seven characters and a location, in two pairs
    of brackets and with a space. -/
def preambleSize : Nat := timeStampBufLen - 1 + 7 + (logStrBufLen - 1) + 5

/-- The longest message. -/
def messageSize : Nat := logStrBufLen - 1

/-- The entry is not longer than the buffers allow. -/
def LogEntry.Fits (e : LogEntry) : Prop :=
  e.text.length ≤ preambleSize * e.isPreamble.toNat + messageSize * e.isMessage.toNat

namespace Log

/-- What has been written since the file was opened the last time, the latest first. -/
def inFile (l : Log) : List LogEntry := l.output.takeWhile (· ≠ .truncated)

/-- The preambles in the file. -/
def preambles (l : Log) : Nat := l.inFile.countP LogEntry.isPreamble

/-- The messages in the file. -/
def messages (l : Log) : Nat := l.inFile.countP LogEntry.isMessage

/-- The bytes in the file. -/
def fileSize (l : Log) : Nat := (l.inFile.map fun e => e.text.length).sum

variable {l : Log}

/-- An empty file. -/
theorem fopen_counts (l : Log) : (l.fopen true).preambles = 0 ∧ (l.fopen true).messages = 0 := by
  simp [fopen, preambles, messages, inFile]

theorem writePreamble_counts (l : Log) (call : LogCall) (curTsStr : List UInt8) :
    (l.writePreamble call curTsStr).preambles ≤ l.preambles + 1 ∧
      (l.writePreamble call curTsStr).messages = l.messages := by
  simp only [writePreamble, putPreamble]
  split
  · split
    · exact ⟨Nat.le_succ _, rfl⟩
    · simp [preambles, messages, inFile, List.countP_cons, LogEntry.isPreamble,
        LogEntry.isMessage]
  · exact ⟨Nat.le_succ _, rfl⟩

theorem noMessage_counts (l : Log) (call : Option LogCall) :
    (l.noMessage call).preambles = l.preambles ∧ (l.noMessage call).messages = l.messages := by
  cases call with
  | none => exact ⟨rfl, rfl⟩
  | some call =>
    simp [noMessage, preambles, messages, inFile, LogEntry.isPreamble, LogEntry.isMessage]

theorem writeMessage_counts (l : Log) (call : Option LogCall) (level : Nat)
    (message : List UInt8) :
    (l.writeMessage call level message).preambles = l.preambles ∧
      (l.writeMessage call level message).messages ≤ l.messages + 1 := by
  simp only [writeMessage, putMessage]
  split
  · split
    · exact ⟨rfl, Nat.le_succ _⟩
    · simp [preambles, messages, inFile, List.countP_cons, LogEntry.isPreamble,
        LogEntry.isMessage]
  · obtain ⟨hpre, hmes⟩ := l.noMessage_counts call
    exact ⟨hpre, by omega⟩

end Log

/-! ### The length of what is written -/

theorem sBuffer_length (text : List UInt8) : (sBuffer text).length ≤ messageSize :=
  List.length_take_le _ _

theorem preambleLogstr_length : ∀ name ∈ preambleLogstr, name.length ≤ 7 := by decide

/-- The file is as long as its entries, which fit. -/
theorem Log.fileSize_le {l : Log} (h : ∀ e ∈ l.output, e.Fits) :
    l.fileSize ≤ preambleSize * l.preambles + messageSize * l.messages := by
  have hin : ∀ e ∈ l.inFile, e.Fits := fun e he => h e (List.takeWhile_subset _ he)
  simp only [fileSize, preambles, messages]
  generalize l.inFile = es at hin
  induction es with
  | nil => exact Nat.zero_le _
  | cons e es ih =>
    obtain ⟨he, hes⟩ := List.forall_mem_cons.mp hin
    have hrest := ih hes
    have hpre : (e :: es).countP LogEntry.isPreamble =
        es.countP LogEntry.isPreamble + e.isPreamble.toNat := by
      cases hb : e.isPreamble <;> simp [hb]
    have hmes : (e :: es).countP LogEntry.isMessage =
        es.countP LogEntry.isMessage + e.isMessage.toNat := by
      cases hb : e.isMessage <;> simp [hb]
    simp only [List.map_cons, List.sum_cons, hpre, hmes, Nat.mul_add]
    unfold LogEntry.Fits at he
    omega

/-- What is written fits. -/
theorem LogFn.write_fits (fn : LogFn) {curTsStr : List UInt8} {l : Log}
    (hts : curTsStr.length < timeStampBufLen) (h : ∀ e ∈ l.output, e.Fits) :
    ∀ e ∈ (fn.write curTsStr l).output, e.Fits := by
  cases fn with
  | logPreamble call =>
    simp only [write, Log.writePreamble, Log.putPreamble]
    split
    · split
      · exact h
      · rename_i name hname
        -- The parts of a preamble: time stamp, level and location, each with its bound
        have hseven := preambleLogstr_length name (List.mem_of_getElem? hname)
        have hlocation : call.location.length ≤ messageSize := sBuffer_length _
        refine List.forall_mem_cons.mpr ⟨?_, h⟩
        have hopen : (CString.ascii "[").length = 1 := rfl
        have hbetween : (CString.ascii "][").length = 2 := rfl
        have hclose : (CString.ascii "] ").length = 2 := rfl
        simp only [LogEntry.Fits, LogEntry.text, LogEntry.isPreamble, LogEntry.isMessage,
          List.length_append, hopen, hbetween, hclose, Bool.toNat_true, Bool.toNat_false,
          Nat.mul_one, Nat.mul_zero, Nat.add_zero]
        unfold preambleSize
        unfold messageSize at hlocation
        omega
    · exact h
  | logS call level text closing =>
    simp only [write, Log.writeMessage, Log.putMessage]
    split
    · split
      · exact h
      · rename_i text' htext
        have hlength := length_fprintfText_le htext
        have hmessage := sBuffer_length text
        refine List.forall_mem_cons.mpr ⟨?_, h⟩
        simp only [LogEntry.Fits, LogEntry.text, LogEntry.isPreamble, LogEntry.isMessage,
          Bool.toNat_true, Bool.toNat_false, Nat.mul_one, Nat.mul_zero, Nat.zero_add]
        exact le_trans hlength hmessage
    · cases call with
      | none => exact h
      -- Above the level nothing is printed, and the call leaves a mark of no bytes
      | some call =>
        refine List.forall_mem_cons.mpr ⟨?_, h⟩
        exact Nat.zero_le _

/-- Nothing that a function writes changes the count of calls. -/
theorem LogFn.write_count (fn : LogFn) (curTsStr : List UInt8) (l : Log) :
    (fn.write curTsStr l).count = l.count := by
  cases fn with
  | logPreamble call =>
    simp only [write, Log.writePreamble, Log.putPreamble]
    split
    · split
      · rfl
      · rfl
    · rfl
  | logS call level text closing =>
    simp only [write, Log.writeMessage, Log.putMessage]
    split
    · split
      · rfl
      · rfl
    · cases call with
      | none => rfl
      | some call => rfl

/-- The file is being renewed. -/
def LogPlace.renewing : LogPlace → Bool
  | fclose | fopen => true
  | _ => false

/-- The call has been counted, and its preamble has not been written. -/
def LogPlace.counted : LogPlace → Bool
  | fclose | fopen | fprintf => true
  | _ => false

/-- The place is before the `fprintf` or at it. -/
def LogPlace.beforeWrite : LogPlace → Bool
  | fflush | unlock => false
  | _ => true

namespace LogPc

/-- The thread renews the file. -/
def renewing : LogPc → Bool
  | inFn _ place => place.renewing
  | _ => false

/-- The preamble that the thread is going to write, of a call that has been counted. -/
def countedPreamble : LogPc → Nat
  | inFn (.logPreamble _) place => place.counted.toNat
  | _ => 0

/-- The message that the thread is going to write, of a call that has been counted. -/
def countedMessage : LogPc → Nat
  | inFn (.logPreamble _) .fflush | inFn (.logPreamble _) .unlock => 1
  | inFn (.logPreamble _) place => place.counted.toNat
  | inFn (.logS ..) place => place.beforeWrite.toNat
  | _ => 0

/-- The thread is outside, or in a call of `LOG_INFO`. -/
def inLogInfo : LogPc → Bool
  | idle => true
  | inFn fn _ => !fn.closing
  | _ => false

variable {pc : LogPc}

/-- A thread that renews the file holds the mutex. -/
theorem locked_of_renewing (h : pc.renewing = true) : pc.locked = true := by
  cases pc with
  | inFn fn place =>
    cases place with
    | fclose => rfl
    | fopen => rfl
    | _ => cases h
  | _ => cases h

/-- A counted preamble is written with the mutex. -/
theorem countedPreamble_le (pc : LogPc) : pc.countedPreamble ≤ pc.locked.toNat := by
  cases pc with
  | inFn fn place =>
    cases fn with
    | logPreamble call =>
      cases place <;> simp [countedPreamble, LogPlace.counted, locked, LogPlace.locked]
    | logS call level text closing => exact Nat.zero_le _
  | _ => exact Nat.zero_le _

theorem countedMessage_le_one (pc : LogPc) : pc.countedMessage ≤ 1 := by
  cases pc with
  | inFn fn place =>
    cases fn with
    | logPreamble call => cases place <;> simp [countedMessage, LogPlace.counted]
    | logS call level text closing => exact Bool.toNat_le _
  | _ => exact Nat.zero_le _

end LogPc

namespace LogThreads

/-- The threads below `N` call `LOG_INFO` and nothing else of the logger, a time stamp fits into
    its buffer, and a file that is renewed can be opened. -/
def OnlyLogInfo (N : Nat) (s : LogThreads) (a : Nat × Move) : Prop :=
  a.1 < N ∧ match a.2 with
    | .logInfo _ => True
    | .next curTsStr ok => curTsStr.length < timeStampBufLen ∧
      ∀ fn, s.pc a.1 = .inFn fn .fopen → ok = true
    | .logS .. | .logClose => False

/-- The preambles that the threads are going to write, of calls that have been counted. -/
def countedPreambles (N : Nat) (s : LogThreads) : Nat :=
  ∑ t ∈ Finset.range N, (s.pc t).countedPreamble

/-- The messages that the threads are going to write, of calls that have been counted. -/
def countedMessages (N : Nat) (s : LogThreads) : Nat :=
  ∑ t ∈ Finset.range N, (s.pc t).countedMessage

/-- What is in the file is within the bounds; and unless the file is being renewed, what is in
    it and what comes is within the count of calls. -/
structure Bounded (N : Nat) (s : LogThreads) : Prop where
  inLogInfo : ∀ t, (s.pc t).inLogInfo = true
  notClosed : s.logClosed = false
  count : s.log.count < maxLogLineNum
  preambles : s.log.preambles ≤ maxLogLineNum
  messages : s.log.messages ≤ maxLogLineNum + N
  counted : (∀ t, (s.pc t).renewing = false) →
    s.log.preambles + s.countedPreambles N ≤ s.log.count + 1 ∧
      s.log.messages + s.countedMessages N ≤ s.log.count + N + 1

variable {N t : Nat} {s s' : LogThreads} {pc pc' : LogPc} {log : Log}
  {a : Nat × Move}

/-- A run of calls of `LOG_INFO` is orderly. -/
theorem Bounded.orderly (h : s.Bounded N) (ha : s.OnlyLogInfo N a) : s.Orderly a := by
  obtain ⟨t, m⟩ := a
  have hin := h.inLogInfo t
  cases m with
  | next curTsStr ok =>
    have hopen : ∀ fn, s.pc t = .inFn fn .fopen → ok = true := ha.2.2
    simp only [Orderly]
    cases hpc : s.pc t with
    | idle => trivial
    | inFn fn place =>
      cases place with
      -- The two places where the order matters
      | check => exact h.notClosed
      | fopen => exact hopen fn hpc
      | _ => trivial
    | logClose =>
      rw [hpc] at hin
      cases hin
    | lastFclose =>
      rw [hpc] at hin
      cases hin
  | _ => trivial

/-- A step of a thread changes what comes by what the thread had before it and has now. -/
theorem countedPreambles_goto (ht : t < N) (hpc : s'.pc = Function.update s.pc t pc) :
    s'.countedPreambles N + (s.pc t).countedPreamble =
      s.countedPreambles N + pc.countedPreamble := by
  have hsum := Finset.sum_apply_update (Finset.range N) s.pc t pc LogPc.countedPreamble
    (Finset.mem_range.mpr ht)
  simp only [countedPreambles, hpc]
  exact hsum

theorem countedMessages_goto (ht : t < N) (hpc : s'.pc = Function.update s.pc t pc) :
    s'.countedMessages N + (s.pc t).countedMessage =
      s.countedMessages N + pc.countedMessage := by
  have hsum := Finset.sum_apply_update (Finset.range N) s.pc t pc LogPc.countedMessage
    (Finset.mem_range.mpr ht)
  simp only [countedMessages, hpc]
  exact hsum

/-- While one thread holds the mutex, no other renews the file. -/
theorem Sound.not_renewing (h : s.Sound) (hlocked : (s.pc t).locked = true)
    (hnot : (s.pc t).renewing = false) (u : Nat) : (s.pc u).renewing = false := by
  cases hu : (s.pc u).renewing with
  | false => rfl
  | true =>
    have hut : u = t := Option.some.inj
      ((h.holder u (LogPc.locked_of_renewing hu)).symm.trans (h.holder t hlocked))
    rw [hut, hnot] at hu
    cases hu

/-- The threads stay in `LOG_INFO` when one of them moves inside of it. -/
theorem Bounded.inLogInfo_update (h : s.Bounded N) (hin : pc.inLogInfo = true) (u : Nat) :
    (Function.update s.pc t pc u).inLogInfo = true := by
  by_cases hut : u = t
  · rw [hut, Function.update_self]
    exact hin
  · rw [Function.update_of_ne hut]
    exact h.inLogInfo u

/-- A step of a thread that leaves the file open: what is in the file, what comes and the
    count change together. -/
theorem Bounded.goto (h : s.Bounded N) (ht : t < N) (hpc : s.pc t = pc)
    (hpc' : s'.pc = Function.update s.pc t pc') (hclosed : s'.logClosed = s.logClosed)
    (hin : pc'.inLogInfo = true) (hold : pc.renewing = false)
    (hcount : s'.log.count < maxLogLineNum)
    (hpre : s'.log.preambles + pc'.countedPreamble + s.log.count ≤
      s.log.preambles + pc.countedPreamble + s'.log.count)
    (hmes : s'.log.messages + pc'.countedMessage + s.log.count ≤
      s.log.messages + pc.countedMessage + s'.log.count)
    (hkeep : (∀ u, (s.pc u).renewing = false) ∨
      s'.log.preambles = s.log.preambles ∧ s'.log.messages = s.log.messages) :
    s'.Bounded N := by
  have hsum : s'.countedPreambles N + pc.countedPreamble =
      s.countedPreambles N + pc'.countedPreamble := by
    rw [← hpc]
    exact countedPreambles_goto ht hpc'
  have hsum' : s'.countedMessages N + pc.countedMessage =
      s.countedMessages N + pc'.countedMessage := by
    rw [← hpc]
    exact countedMessages_goto ht hpc'
  have hcounted : (∀ u, (s.pc u).renewing = false) →
      s'.log.preambles + s'.countedPreambles N ≤ s'.log.count + 1 ∧
        s'.log.messages + s'.countedMessages N ≤ s'.log.count + N + 1 := by
    intro hnone
    obtain ⟨hp, hm⟩ := h.counted hnone
    omega
  -- Either the count bounds what is in the file, or the step writes nothing
  have hbound : s'.log.preambles ≤ maxLogLineNum ∧ s'.log.messages ≤ maxLogLineNum + N := by
    rcases hkeep with hnone | ⟨hp, hm⟩
    · obtain ⟨hp, hm⟩ := hcounted hnone
      omega
    · have := h.preambles
      have := h.messages
      omega
  refine ⟨fun u => ?_, hclosed.trans h.notClosed, hcount, hbound.1, hbound.2, fun hnone => ?_⟩
  · rw [hpc']
    exact h.inLogInfo_update hin u
  · -- If nobody renews the file now, nobody did before
    apply hcounted
    intro u
    by_cases hut : u = t
    · rw [hut, hpc]
      exact hold
    · have hu := hnone u
      rwa [hpc', Function.update_of_ne hut] at hu

/-- A step of the thread that renews the file, which leaves what is in it. -/
theorem Bounded.renew (h : s.Bounded N) (hin : pc.inLogInfo = true) (hnew : pc.renewing = true)
    (hcount : log.count < maxLogLineNum) (hpre : log.preambles = s.log.preambles)
    (hmes : log.messages = s.log.messages) :
    ({ s with log := log }.goto t pc).Bounded N := by
  refine ⟨h.inLogInfo_update hin, h.notClosed, hcount, ?_, ?_, fun hnone => ?_⟩
  · show log.preambles ≤ maxLogLineNum
    rw [hpre]
    exact h.preambles
  · show log.messages ≤ maxLogLineNum + N
    rw [hmes]
    exact h.messages
  · -- The thread renews the file
    have ht := hnone t
    simp only [LogThreads.goto, Function.update_self, hnew] at ht
    cases ht

/-- The file is opened anew: only the thread with the mutex has a counted preamble to write, and
    every thread has at most one message. -/
theorem Bounded.fopen {fn : LogFn} (h : s.Bounded N) (hs : s.Sound) (ht : t < N)
    (hpc : s.pc t = .inFn fn .fopen) :
    ({ s with log := s.log.fopen true }.goto t (.inFn fn .fprintf)).Bounded N := by
  obtain ⟨hpre, hmes⟩ := s.log.fopen_counts
  let s' : LogThreads := { s with log := s.log.fopen true }.goto t (.inFn fn .fprintf)
  have hpreambles : s'.countedPreambles N ≤ 1 := by
    -- A thread without the mutex is not between the count and its preamble
    have hone : s'.countedPreambles N ≤ ∑ u ∈ Finset.range N, if u = t then 1 else 0 := by
      apply Finset.sum_le_sum
      intro u _
      have hle := (s'.pc u).countedPreamble_le
      by_cases hut : u = t
      · rw [if_pos hut]
        exact le_trans hle (Bool.toNat_le _)
      · rw [if_neg hut]
        have hu : (s.pc u).locked = false := by
          cases hu : (s.pc u).locked with
          | false => rfl
          | true =>
            have hlocked : (s.pc t).locked = true := by
              rw [hpc]
              rfl
            exact absurd (Option.some.inj ((hs.holder u hu).symm.trans (hs.holder t hlocked))) hut
        have hsame : s'.pc u = s.pc u := Function.update_of_ne hut ..
        rw [hsame, hu] at hle
        rw [hsame]
        exact hle
    have hsum : (∑ u ∈ Finset.range N, if u = t then 1 else 0) = 1 := by
      rw [Finset.sum_ite_eq' (Finset.range N) t, if_pos (Finset.mem_range.mpr ht)]
    omega
  have hmessages : s'.countedMessages N ≤ N := by
    have hall : s'.countedMessages N ≤ ∑ u ∈ Finset.range N, 1 :=
      Finset.sum_le_sum fun u _ => (s'.pc u).countedMessage_le_one
    rwa [← Finset.card_eq_sum_ones, Finset.card_range] at hall
  have hin : (LogPc.inFn fn .fprintf).inLogInfo = true := by
    have hin := h.inLogInfo t
    rw [hpc] at hin
    exact hin
  -- Nothing is in the file yet, and what comes is within 1 and `N`
  have hcount : s'.log.count = s.log.count := rfl
  refine ⟨h.inLogInfo_update hin, h.notClosed, h.count, ?_, ?_, fun _ => ?_⟩
  · show s'.log.preambles ≤ maxLogLineNum
    have : s'.log.preambles = 0 := hpre
    omega
  · show s'.log.messages ≤ maxLogLineNum + N
    have : s'.log.messages = 0 := hmes
    omega
  · show s'.log.preambles + s'.countedPreambles N ≤ s'.log.count + 1 ∧
      s'.log.messages + s'.countedMessages N ≤ s'.log.count + N + 1
    have : s'.log.preambles = 0 := hpre
    have : s'.log.messages = 0 := hmes
    omega

/-- A call that has been counted has at most one preamble and one message more to write. -/
theorem count_counts (fn : LogFn) :
    (LogPc.inFn fn .fprintf).countedPreamble ≤ (LogPc.inFn fn .count).countedPreamble + 1 ∧
      (LogPc.inFn fn .fprintf).countedMessage ≤ (LogPc.inFn fn .count).countedMessage + 1 := by
  cases fn with
  | logPreamble call => exact ⟨Nat.le_refl _, Nat.le_refl _⟩
  | logS call level text closing => exact ⟨Nat.zero_le _, Nat.le_succ _⟩

/-- What a function writes is no more than what it was going to write. -/
theorem write_counts (fn : LogFn) (curTsStr : List UInt8) (l : Log) :
    (fn.write curTsStr l).preambles + (LogPc.inFn fn .fflush).countedPreamble ≤
        l.preambles + (LogPc.inFn fn .fprintf).countedPreamble ∧
      (fn.write curTsStr l).messages + (LogPc.inFn fn .fflush).countedMessage ≤
        l.messages + (LogPc.inFn fn .fprintf).countedMessage := by
  cases fn with
  | logPreamble call =>
    obtain ⟨hpre, hmes⟩ := l.writePreamble_counts call curTsStr
    exact ⟨hpre, Nat.le_of_eq (congrArg (· + 1) hmes)⟩
  | logS call level text closing =>
    obtain ⟨hpre, hmes⟩ := l.writeMessage_counts call level (sBuffer text)
    exact ⟨Nat.le_of_eq hpre, hmes⟩

/-- A step of `log_preamble` or `log_s`. -/
theorem Bounded.fnStep {fn : LogFn} {place : LogPlace} {curTsStr : List UInt8} {ok : Bool}
    (h : s.Bounded N) (hsound : s.Sound) (ht : t < N) (hpc : s.pc t = .inFn fn place)
    (hok : place = .fopen → ok = true) (hs : s.fnStep t fn curTsStr ok place = some s') :
    s'.Bounded N := by
  have hin : fn.closing = false := by
    have hin := h.inLogInfo t
    rw [hpc] at hin
    simpa [LogPc.inLogInfo] using hin
  have hinFn : ∀ place', (LogPc.inFn fn place').inLogInfo = true := by
    simp [LogPc.inLogInfo, hin]
  have hcount := h.count
  -- With the mutex, no other thread renews the file
  have hnone : (s.pc t).locked = true → (s.pc t).renewing = false →
      ∀ u, (s.pc u).renewing = false := fun hl hr => hsound.not_renewing hl hr
  rw [hpc] at hnone
  cases place with
  | check =>
    have hnull : ¬ s.log.logFileHandle = .null := by
      intro hnull
      rcases hsound.handle h.notClosed with hopen | ⟨hclose, -⟩
      · rw [hnull] at hopen
        cases hopen
      · rw [hnull] at hclose
        cases hclose
    rw [LogThreads.fnStep, if_neg hnull] at hs
    obtain rfl := Option.some.inj hs
    refine h.goto ht hpc rfl rfl (hinFn .lock) rfl hcount ?_ ?_ (.inr ⟨rfl, rfl⟩)
    · cases fn <;> exact Nat.le_refl _
    · cases fn <;> exact Nat.le_refl _
  | lock =>
    obtain ⟨-, hs⟩ := Option.ite_none_right_eq_some.mp hs
    obtain rfl := Option.some.inj hs
    refine h.goto ht hpc rfl rfl (hinFn fn.first) rfl hcount ?_ ?_ (.inr ⟨rfl, rfl⟩)
    · cases fn <;> exact Nat.le_refl _
    · cases fn <;> exact Nat.le_refl _
  | count =>
    rw [LogThreads.fnStep] at hs
    split at hs
    · -- The file is going to be renewed
      obtain rfl := Option.some.inj hs
      have hpos : 0 < maxLogLineNum := by decide
      exact h.renew (hinFn .fclose) rfl hpos rfl rfl
    · rename_i hmax
      obtain rfl := Option.some.inj hs
      have hless : s.log.count + 1 < maxLogLineNum := by omega
      refine h.goto ht hpc rfl rfl (hinFn .fprintf) rfl hless ?_ ?_ (.inr ⟨rfl, rfl⟩)
      · show s.log.preambles + _ + s.log.count ≤ s.log.preambles + _ + (s.log.count + 1)
        have hone := count_counts fn
        omega
      · show s.log.messages + _ + s.log.count ≤ s.log.messages + _ + (s.log.count + 1)
        have hone := count_counts fn
        omega
  | fclose =>
    obtain rfl := Option.some.inj hs
    exact h.renew (hinFn .fopen) rfl hcount rfl rfl
  | fopen =>
    obtain rfl := hok rfl
    obtain rfl := Option.some.inj hs
    exact h.fopen hsound ht hpc
  | fprintf =>
    obtain ⟨hpre, hmes⟩ := write_counts fn curTsStr s.log
    have hsame := fn.write_count curTsStr s.log
    have hless : (fn.write curTsStr s.log).count < maxLogLineNum := by omega
    obtain rfl := Option.some.inj hs
    refine h.goto ht hpc rfl rfl (hinFn .fflush) rfl hless ?_ ?_ (.inl (hnone rfl rfl))
    · show (fn.write curTsStr s.log).preambles + _ + s.log.count ≤
        s.log.preambles + _ + (fn.write curTsStr s.log).count
      omega
    · show (fn.write curTsStr s.log).messages + _ + s.log.count ≤
        s.log.messages + _ + (fn.write curTsStr s.log).count
      omega
  | fflush =>
    obtain rfl := Option.some.inj hs
    refine h.goto ht hpc rfl rfl (hinFn .unlock) rfl hcount ?_ ?_ (.inr ⟨rfl, rfl⟩)
    · cases fn <;> exact Nat.le_refl _
    · cases fn <;> exact Nat.le_refl _
  | unlock =>
    obtain rfl := Option.some.inj hs
    cases fn with
    | logPreamble call =>
      exact h.goto ht hpc rfl rfl rfl rfl hcount (Nat.le_refl _) (Nat.le_refl _) (.inr ⟨rfl, rfl⟩)
    | logS call level text closing =>
      obtain rfl : closing = false := hin
      exact h.goto ht hpc rfl rfl rfl rfl hcount (Nat.le_refl _) (Nat.le_refl _) (.inr ⟨rfl, rfl⟩)

theorem Bounded.step (h : s.Bounded N) (hsound : s.Sound) (ha : s.OnlyLogInfo N a)
    (hs : system.step s a = some s') : s'.Bounded N := by
  obtain ⟨t, m⟩ := a
  obtain ⟨ht, ha⟩ := ha
  obtain ⟨-, hs⟩ := Option.ite_none_left_eq_some.mp hs
  have hin := h.inLogInfo t
  cases m with
  | logInfo info =>
    simp only [LogThreads.move] at hs
    split at hs
    · rename_i hpc
      obtain rfl := Option.some.inj hs
      exact h.goto ht hpc rfl rfl rfl rfl h.count (Nat.le_refl _) (Nat.le_refl _) (.inr ⟨rfl, rfl⟩)
    · cases hs
  | next curTsStr ok =>
    simp only [LogThreads.move] at hs
    split at hs
    · cases hs
    · rename_i fn place hpc
      apply h.fnStep hsound ht hpc _ hs
      rintro rfl
      exact ha.2 fn hpc
    · rename_i hpc
      rw [hpc] at hin
      cases hin
    · rename_i hpc
      rw [hpc] at hin
      cases hin
  | logS level text => cases ha
  | logClose => cases ha

theorem bounded_of_reach (h : Transition.Reach system (OnlyLogInfo N) s) :
    s.Bounded N ∧ s.Sound := by
  apply h.invariant
  -- At the start the file has the one message of `log_init`
  · rintro s ⟨level, rfl⟩
    have hpos : 0 < maxLogLineNum := by decide
    constructor
    · refine ⟨fun _ => rfl, rfl, hpos, Nat.zero_le _, ?_, fun _ => ?_⟩
      · show 1 ≤ maxLogLineNum + N
        omega
      · have hnone : countedPreambles N ⟨Log.logInit.logSetLevel level, none, fun _ => .idle, 0,
          false⟩ = 0 := Finset.sum_const_zero
        have hnone' : countedMessages N ⟨Log.logInit.logSetLevel level, none, fun _ => .idle, 0,
          false⟩ = 0 := Finset.sum_const_zero
        rw [hnone, hnone']
        show 0 + 0 ≤ 0 + 1 ∧ 1 + 0 ≤ 0 + N + 1
        omega
    · exact sound_of_reach (.init ⟨level, rfl⟩)
  · rintro s a s' - ⟨hbounded, hsound⟩ ha hs
    exact ⟨hbounded.step hsound ha hs, hsound.step (hbounded.orderly ha) hs⟩

/-- Every step adds entries that fit. -/
theorem step_fits (ha : s.OnlyLogInfo N a) (hs : system.step s a = some s')
    (h : ∀ e ∈ s.log.output, e.Fits) : ∀ e ∈ s'.log.output, e.Fits := by
  obtain ⟨t, m⟩ := a
  obtain ⟨ht, ha⟩ := ha
  obtain ⟨-, hs⟩ := Option.ite_none_left_eq_some.mp hs
  cases m with
  | logInfo info =>
    simp only [LogThreads.move] at hs
    split at hs
    · obtain rfl := Option.some.inj hs
      exact h
    · cases hs
  | logS level text => cases ha
  | logClose => cases ha
  | next curTsStr ok =>
    -- A call that is not printed leaves a mark of no bytes at most
    have hskip : ∀ fn : LogFn, ∀ e ∈ (fn.skip s.log).output, e.Fits := by
      intro fn
      cases fn with
      | logPreamble call => exact h
      | logS call level text closing =>
        cases call with
        | none => exact h
        | some call => exact List.forall_mem_cons.mpr ⟨Nat.zero_le _, h⟩
    simp only [LogThreads.move] at hs
    split at hs
    · cases hs
    · rename_i fn place hpc
      cases place with
      | check =>
        rw [LogThreads.fnStep] at hs
        split at hs
        · obtain rfl := Option.some.inj hs
          exact hskip fn
        · obtain rfl := Option.some.inj hs
          exact h
      | lock =>
        obtain ⟨-, hs⟩ := Option.ite_none_right_eq_some.mp hs
        obtain rfl := Option.some.inj hs
        exact h
      | count =>
        rw [LogThreads.fnStep] at hs
        split at hs
        · obtain rfl := Option.some.inj hs
          exact h
        · obtain rfl := Option.some.inj hs
          exact h
      | fclose =>
        obtain rfl := Option.some.inj hs
        exact h
      | fopen =>
        obtain rfl := Option.some.inj hs
        cases ok with
        | false => exact h
        | true => exact List.forall_mem_cons.mpr ⟨Nat.zero_le _, h⟩
      | fprintf =>
        obtain rfl := Option.some.inj hs
        exact fn.write_fits ha.1 h
      | fflush =>
        obtain rfl := Option.some.inj hs
        exact h
      | unlock =>
        obtain rfl := Option.some.inj hs
        exact h
    · split at hs
      · obtain rfl := Option.some.inj hs
        exact h
      · obtain rfl := Option.some.inj hs
        exact h
    · obtain rfl := Option.some.inj hs
      exact h

theorem fits_of_reach (h : Transition.Reach system (OnlyLogInfo N) s) :
    ∀ e ∈ s.log.output, e.Fits := by
  apply h.invariant
  · rintro s ⟨level, rfl⟩
    have hstart : (LogEntry.message none (CString.ascii "LOG START\n")).Fits := by
      unfold LogEntry.Fits
      decide
    exact List.forall_mem_cons.mpr ⟨hstart, fun e he => by cases he⟩
  · exact fun s a s' _ hfits ha hs => step_fits ha hs hfits

/-- While `N` threads call `LOG_INFO`, the log file stays bounded. -/
theorem log_file_bounded (h : Transition.Reach system (OnlyLogInfo N) s) :
    s.log.preambles ≤ maxLogLineNum ∧ s.log.messages ≤ maxLogLineNum + N ∧
      s.log.fileSize ≤ preambleSize * maxLogLineNum + messageSize * (maxLogLineNum + N) := by
  obtain ⟨hbounded, -⟩ := bounded_of_reach h
  refine ⟨hbounded.preambles, hbounded.messages, ?_⟩
  calc s.log.fileSize
    _ ≤ preambleSize * s.log.preambles + messageSize * s.log.messages :=
      Log.fileSize_le (fits_of_reach h)
    _ ≤ preambleSize * maxLogLineNum + messageSize * (maxLogLineNum + N) :=
      Nat.add_le_add (Nat.mul_le_mul_left _ hbounded.preambles)
        (Nat.mul_le_mul_left _ hbounded.messages)

/-! ### A renewal between the functions of a call -/

/-- `log_preamble` with an open file: it stays open, and the location is the last string. -/
private theorem logPreamble_spec {l : Log} (call : LogCall) (h : l.logFileHandle = .opened)
    (hle : call.level ≤ l.defLogLevel) (hlevel : call.level < preambleLogstr.length) :
    l.Goes (l.logPreamble call [] true) ∧
      (l.logPreamble call [] true).lastLogStr = call.location ∧
      (l.logPreamble call [] true).count = (l.countLine true).count := by
  have hnull : l.logFileHandle ≠ .null := by rw [h]; exact nofun
  obtain ⟨hcount, hlast, -⟩ := Log.countLine_spec h fun _ => rfl
  rw [Log.logPreamble, if_neg hnull]
  by_cases hnew : call.location = (l.countLine true).lastLogStr
  · rw [Log.writePreamble, if_neg fun hc => hc.1 hnew]
    exact ⟨hcount.trans (.use hcount.handle _), hnew.symm, rfl⟩
  · obtain ⟨hgoes, hstr, -⟩ :=
      Log.writePreamble_new [] hcount.handle hnew (hcount.defLogLevel ▸ hle) hlevel
    refine ⟨(hcount.trans hgoes).trans (.use hgoes.handle _), hstr, ?_⟩
    rw [Log.writePreamble, if_pos ⟨hnew, hcount.defLogLevel ▸ hle⟩, Log.putPreamble,
      List.getElem?_eq_getElem hlevel]
    rfl

/-- `log_s` with an open file: it stays open, and no line is counted. -/
private theorem logS_spec {l : Log} (call : LogCall) (h : l.logFileHandle = .opened)
    (hle : call.level ≤ l.defLogLevel) (hpercent : 37 ∉ call.message) :
    l.Goes (l.logS (some call) call.level call.text) ∧
      (l.logS (some call) call.level call.text).count = l.count := by
  have hnull : l.logFileHandle ≠ .null := by rw [h]; exact nofun
  by_cases hnew : call.message = l.lastLogStr
  · rw [Log.logS_last hnull hnew]
    have hskip : l.Goes (l.noMessage (some call)) := ⟨h, rfl, rfl⟩
    exact ⟨hskip.trans (.use hskip.handle _), rfl⟩
  · have htext : fprintfText (sBuffer call.text) = some (sBuffer call.text) :=
      fprintfText_of_notMem hpercent
    have hput : l.Goes { l.use .fprintf with
        output := .message (some call) (sBuffer call.text) :: l.output
        lastLogStr := sBuffer call.text } := ⟨h, rfl, Log.use_undefined .fprintf h⟩
    rw [Log.logS_new hnull hle hnew, Log.putMessage, htext]
    exact ⟨hput.trans (.use hput.handle _), rfl⟩

/-- `log_preamble` with a new location after the last line of a file: it is the first line of the
    next. -/
private theorem logPreamble_renews {l : Log} (call : LogCall) (h : l.logFileHandle = .opened)
    (hle : call.level ≤ l.defLogLevel) (hlevel : call.level < preambleLogstr.length)
    (hcount : l.count + 1 = maxLogLineNum) (hnew : call.location ≠ l.lastLogStr) :
    ∃ text, (l.logPreamble call [] true).output =
      .preamble call text :: .truncated :: l.output := by
  have hnull : l.logFileHandle ≠ .null := by rw [h]; exact nofun
  obtain ⟨hgoes, hlast, -⟩ := Log.countLine_spec h fun _ => rfl
  obtain ⟨-, -, text, -, houtput⟩ := Log.writePreamble_new [] hgoes.handle (hlast ▸ hnew)
    (hgoes.defLogLevel ▸ hle) hlevel
  refine ⟨text, ?_⟩
  rw [Log.logPreamble, if_neg hnull, Log.use_output, houtput, Log.countLine,
    if_pos (Nat.le_of_eq hcount.symm)]
  rfl

/-- `log_s` with a new message. -/
private theorem logS_written {l : Log} (call : LogCall) (h : l.logFileHandle = .opened)
    (hle : call.level ≤ l.defLogLevel) (hpercent : 37 ∉ call.message)
    (hnew : call.message ≠ l.lastLogStr) :
    (l.logS (some call) call.level call.text).lastLogStr = call.message ∧
      (l.logS (some call) call.level call.text).output =
        .message (some call) call.message :: l.output := by
  have htext : fprintfText (sBuffer call.text) = some (sBuffer call.text) :=
    fprintfText_of_notMem hpercent
  rw [Log.logS_new (h.trans_ne nofun) hle hnew, Log.putMessage, htext]
  exact ⟨rfl, rfl⟩

/-- Threads 0 and 1 call `LOG_INFO` and have come to this state of the logger, with the mutex
    free. -/
private structure ComeTo (log : Log) (pc : Nat → LogPc) (s : LogThreads) : Prop where
  reach : Transition.Reach system (OnlyLogInfo 2) s
  mutex : s.logMutex = none
  log : s.log = log
  pc : s.pc = pc

/-- A thread begins a call. -/
private theorem ComeTo.logInfo {log : Log} {pc : Nat → LogPc} {s : LogThreads} {t : Nat}
    (h : ComeTo log pc s) (ht : t < 2) (hpc : pc t = .idle) (hdefined : log.undefined = false)
    (info : LogInfo) : ∃ s' id, ComeTo log
      (Function.update pc t (.inFn (.logPreamble { info with id := id }) .check)) s' := by
  obtain ⟨hreach, hmutex, rfl, rfl⟩ := h
  refine ⟨{ s with calls := s.calls + 1 }.goto t
    (.inFn (.logPreamble { info with id := s.calls }) .check), s.calls,
    hreach.step (a := (t, .logInfo info)) ⟨ht, trivial⟩ ?_, hmutex, rfl, rfl⟩
  show (if s.log.undefined then none else s.move t (.logInfo info)) = _
  rw [if_neg (by simp [hdefined]), move, hpc]

/-- A thread that is left alone goes through the function that it is in. -/
private theorem ComeTo.fn {log : Log} {pc : Nat → LogPc} {s : LogThreads} {t : Nat}
    (h : ComeTo log pc s) (fn : LogFn) (ht : t < 2) (hpc : pc t = .inFn fn .check)
    (hdefined : (fn.run log [] true).undefined = false) :
    ∃ s', ComeTo (fn.run log [] true) (Function.update pc t fn.after) s' := by
  obtain ⟨hreach, hmutex, rfl, rfl⟩ := h
  have hself : s.goto t (.inFn fn .check) = s := by
    rw [goto, ← hpc, Function.update_eq_self]
  obtain ⟨as, has, hrun⟩ := fn_leads (t := t) hmutex hdefined
  rw [hself] at hrun
  refine ⟨_, hreach.run (system.meets_of_mem (fun a ha s => ?_) _) hrun, hmutex, rfl, rfl⟩
  rw [has a ha]
  exact ⟨ht, by decide, fun _ _ => rfl⟩

/-- Threads 0 and 1 are in no call, and `k` lines are counted in an open file. -/
private structure Quiet (k : Nat) (log : Log) (pc : Nat → LogPc) : Prop where
  comeTo : ∃ s, ComeTo log pc s
  idle : pc 0 = .idle ∧ pc 1 = .idle
  handle : log.logFileHandle = .opened
  defined : log.undefined = false
  level : log.defLogLevel = 4
  count : log.count = k

/-- A call of thread 1 counts a line. -/
private theorem Quiet.next {k : Nat} {log : Log} {pc : Nat → LogPc} (h : Quiet k log pc)
    (hk : k + 1 < maxLogLineNum) : ∃ log' pc', Quiet (k + 1) log' pc' := by
  obtain ⟨s, hs⟩ := h.comeTo
  obtain ⟨s₁, id, hs₁⟩ := hs.logInfo Nat.one_lt_two h.idle.2 h.defined killSignal
  let call : LogCall := { killSignal with id := id }
  have hle : call.level ≤ log.defLogLevel := by
    rw [h.level]
    show killSignal.level ≤ 4
    decide
  have hpercent : 37 ∉ call.message := by
    show 37 ∉ killSignal.message
    decide +kernel
  -- The two functions of the call
  obtain ⟨hpreamble, -, hcount⟩ :=
    logPreamble_spec call h.handle hle (show killSignal.level < _ by decide)
  obtain ⟨hmessage, hcount'⟩ := logS_spec call hpreamble.handle
    (hpreamble.defLogLevel ▸ hle) hpercent
  have hdefined := hpreamble.defined.trans h.defined
  obtain ⟨s₂, hs₂⟩ := hs₁.fn _ Nat.one_lt_two (Function.update_self ..) hdefined
  obtain ⟨s₃, hs₃⟩ := hs₂.fn (.logS (some call) call.level call.text false) Nat.one_lt_two
    (Function.update_self ..) (hmessage.defined.trans hdefined)
  refine ⟨_, _, ⟨s₃, hs₃⟩, ⟨?_, Function.update_self ..⟩, hmessage.handle,
    hmessage.defined.trans hdefined, (hpreamble.trans hmessage).defLogLevel.trans h.level, ?_⟩
  · simp only [Function.update_idem, Function.update_of_ne Nat.zero_ne_one]
    exact h.idle.1
  · refine (hcount'.trans hcount).trans ?_
    rw [Log.countLine, if_neg (by rw [h.count]; omega), h.count]

/-- Any number of lines below `MAX_LOG_LINE_NUM` can be counted. -/
private theorem exists_quiet {k : Nat} (hk : k < maxLogLineNum) : ∃ log pc, Quiet k log pc := by
  induction k with
  | zero =>
    exact ⟨atStart.log, atStart.pc, ⟨atStart, .init atStart_init, rfl, rfl, rfl⟩, ⟨rfl, rfl⟩,
      rfl, rfl, rfl, rfl⟩
  | succ k ih =>
    obtain ⟨log, pc, h⟩ := ih (Nat.lt_of_succ_lt hk)
    exact h.next hk

/-- Thread 0 renews the file between the two functions of thread 1: the file has one preamble
    and two messages. -/
theorem log_file_bounded_renewed :
    ∃ s, Transition.Reach system (OnlyLogInfo 2) s ∧
      (s.log.preambles = 1 ∧ s.log.messages = 2) ∧
      s.log.preambles ≤ maxLogLineNum ∧ s.log.messages ≤ maxLogLineNum + 2 ∧
        s.log.fileSize ≤ preambleSize * maxLogLineNum + messageSize * (maxLogLineNum + 2) := by
  obtain ⟨log, pc, h⟩ := exists_quiet (k := maxLogLineNum - 2) (by decide)
  obtain ⟨s, hs⟩ := h.comeTo
  have hlevels : killSignal.level ≤ 4 ∧ LogRun.initError.level ≤ 4 := by decide
  have hpercents : 37 ∉ killSignal.message ∧ 37 ∉ LogRun.initError.message := by decide +kernel
  have hdistinct : LogRun.initError.location ≠ killSignal.location ∧
      LogRun.initError.message ≠ LogRun.initError.location ∧
      killSignal.message ≠ LogRun.initError.message := by decide +kernel
  -- `log_preamble` of thread 1 counts the last line of the file
  obtain ⟨s₁, id₁, hs₁⟩ := hs.logInfo Nat.one_lt_two h.idle.2 h.defined killSignal
  let call₁ : LogCall := { killSignal with id := id₁ }
  obtain ⟨hgoes₁, hlast₁, hcount₁⟩ := logPreamble_spec call₁ h.handle
    (h.level ▸ hlevels.1) (show killSignal.level < _ by decide)
  have hdefined₁ := hgoes₁.defined.trans h.defined
  have hlevel₁ := hgoes₁.defLogLevel.trans h.level
  obtain ⟨s₂, hs₂⟩ := hs₁.fn _ Nat.one_lt_two (Function.update_self ..) hdefined₁
  -- That of thread 0 renews it
  obtain ⟨s₃, id₀, hs₃⟩ := hs₂.logInfo (t := 0) Nat.two_pos (by
    simp only [Function.update_of_ne Nat.zero_ne_one]
    exact h.idle.1) hdefined₁ LogRun.initError
  let call₀ : LogCall := { LogRun.initError with id := id₀ }
  obtain ⟨hgoes₂, hlast₂, -⟩ := logPreamble_spec call₀ hgoes₁.handle
    (hlevel₁ ▸ hlevels.2) (show LogRun.initError.level < _ by decide)
  obtain ⟨text, houtput₂⟩ := logPreamble_renews call₀ hgoes₁.handle
    (hlevel₁ ▸ hlevels.2) (show LogRun.initError.level < _ by decide)
    (by rw [hcount₁, Log.countLine, if_neg (by rw [h.count]; decide), h.count]; rfl)
    (by rw [hlast₁]; exact hdistinct.1)
  have hdefined₂ := hgoes₂.defined.trans hdefined₁
  have hlevel₂ := hgoes₂.defLogLevel.trans hlevel₁
  obtain ⟨s₄, hs₄⟩ := hs₃.fn _ Nat.two_pos (Function.update_self ..) hdefined₂
  -- The messages of the two threads go to the new file
  obtain ⟨hgoes₃, -⟩ := logS_spec call₀ hgoes₂.handle (hlevel₂ ▸ hlevels.2) hpercents.2
  obtain ⟨hlast₃, houtput₃⟩ := logS_written call₀ hgoes₂.handle
    (hlevel₂ ▸ hlevels.2) hpercents.2 (by rw [hlast₂]; exact hdistinct.2.1)
  have hdefined₃ := hgoes₃.defined.trans hdefined₂
  have hlevel₃ := hgoes₃.defLogLevel.trans hlevel₂
  obtain ⟨s₅, hs₅⟩ := hs₄.fn (.logS (some call₀) call₀.level call₀.text false) Nat.two_pos
    (Function.update_self ..) hdefined₃
  obtain ⟨hgoes₄, -⟩ := logS_spec call₁ hgoes₃.handle (hlevel₃ ▸ hlevels.1) hpercents.1
  obtain ⟨-, houtput₄⟩ := logS_written call₁ hgoes₃.handle
    (hlevel₃ ▸ hlevels.1) hpercents.1 (by rw [hlast₃]; exact hdistinct.2.2)
  obtain ⟨s₆, hs₆⟩ := hs₅.fn (t := 1)
    (.logS (some call₁) call₁.level call₁.text false) Nat.one_lt_two (by
      rw [Function.update_of_ne Nat.one_ne_zero, Function.update_of_ne Nat.one_ne_zero,
        Function.update_of_ne Nat.one_ne_zero, Function.update_self]
      rfl) (hgoes₄.defined.trans hdefined₃)
  have houtput := (congrArg Log.output hs₆.log).trans
    (houtput₄.trans (congrArg _ (houtput₃.trans (congrArg _ houtput₂))))
  -- The file has what stands in front of `truncated`
  have hfile : s₆.log.inFile = [.message (some call₁) call₁.message,
      .message (some call₀) call₀.message, .preamble call₀ text] := by
    simp [Log.inFile, houtput]
  refine ⟨s₆, hs₆.reach, ?_, log_file_bounded hs₆.reach⟩
  rw [Log.preambles, Log.messages, hfile]
  exact ⟨rfl, rfl⟩

end LogThreads

end JQServer
