import JQServer.Native.Log

/-!
# The file handle of the logger

The handle is checked for NULL before the mutex is taken, and `log_close` closes the file
without the mutex and leaves the pointer. Two steps spoil the handle: an `fopen` that fails when
the log file is renewed, and the `fclose` of `log_close` while a thread is past its check or
before another one gets there. In runs without these, every file operation is on an open
handle (`handle_open`).
-/

namespace JQServer

/-- `log_close` has called the function, and closes the file after it. -/
def LogFn.closing : LogFn → Bool
  | logPreamble _ => false
  | logS _ _ _ closing => closing

/-- The mutex is held. -/
def LogPlace.locked : LogPlace → Bool
  | check | lock => false
  | _ => true

/-- File operations follow without another NULL check. -/
def LogPlace.usesFile : LogPlace → Bool
  | check | unlock => false
  | _ => true

namespace LogPc

/-- The thread holds the mutex. -/
def locked : LogPc → Bool
  | inFn _ place => place.locked
  | _ => false

/-- The thread is going to use the file without another NULL check. -/
def usesFile : LogPc → Bool
  | inFn fn place => place.usesFile || fn.closing
  | lastFclose => true
  | _ => false

/-- The thread has closed the file and opens it next. -/
def reopening : LogPc → Bool
  | inFn _ .fopen => true
  | _ => false

end LogPc

namespace LogThreads

/-- Every file operation was on an open handle. -/
def HandleOpen (s : LogThreads) : Prop := ∀ use ∈ s.log.uses, use.2 = .opened

/-- The log file can be opened anew, no thread checks the handle after `log_close` has closed
    it, and `log_close` closes it while no other thread is going to use it. -/
def Orderly (s : LogThreads) : Nat × Move → Prop
  | (t, .next _ ok) =>
    match s.pc t with
    | .inFn _ .fopen => ok = true
    | .inFn _ .check | .logClose => s.logClosed = false
    | .lastFclose => ∀ u, u ≠ t → (s.pc u).usesFile = false
    | _ => True
  | _ => True

/-- How the handle, the mutex and the threads fit together. -/
structure Sound (s : LogThreads) : Prop where
  holder : ∀ t, (s.pc t).locked = true → s.logMutex = some t
  uses : s.HandleOpen
  closed : s.logClosed = true → ∀ t, (s.pc t).usesFile = false
  handle : s.logClosed = false → s.log.logFileHandle = .opened ∨
    s.log.logFileHandle = .closed ∧ ∃ t, (s.pc t).reopening = true

variable {s s' : LogThreads} {t : Nat} {pc : LogPc} {log : Log}

/-- A thread that opens the file anew holds the mutex. -/
theorem locked_of_reopening (h : pc.reopening = true) : pc.locked = true := by
  unfold LogPc.reopening at h
  split at h
  · rfl
  · cases h

theorem usesFile_of_reopening (h : pc.reopening = true) : pc.usesFile = true := by
  unfold LogPc.reopening at h
  split at h
  · rfl
  · cases h

/-- A thread with the mutex finds the file open, unless it has closed it itself. -/
theorem Sound.opened (h : s.Sound) (hlocked : (s.pc t).locked = true)
    (huse : (s.pc t).usesFile = true) (hnot : (s.pc t).reopening = false) :
    s.logClosed = false ∧ s.log.logFileHandle = .opened := by
  have hclosed : s.logClosed = false := by
    cases hc : s.logClosed with
    | false => rfl
    | true => exact nomatch (h.closed hc t).symm.trans huse
  rcases h.handle hclosed with hopen | ⟨-, u, hu⟩
  · exact ⟨hclosed, hopen⟩
  -- The file is closed: by the thread with the mutex, which is this one
  · have hut : u = t :=
      Option.some.inj ((h.holder u (locked_of_reopening hu)).symm.trans (h.holder t hlocked))
    rw [hut, hnot] at hu
    cases hu

/-- A step that leaves the mutex as it is. -/
theorem Sound.keep (h : s.Sound) (hlocked : pc.locked = true → s.logMutex = some t)
    (huses : ∀ use ∈ log.uses, use.2 = .opened)
    (hclosed : s.logClosed = true → pc.usesFile = false)
    (hhandle : s.logClosed = false → log.logFileHandle = .opened ∨
      log.logFileHandle = .closed ∧ ∃ u, (Function.update s.pc t pc u).reopening = true) :
    Sound ({ s with log := log }.goto t pc) := by
  refine ⟨fun u hu => ?_, huses, fun hc u => ?_, hhandle⟩
  · simp only [goto] at hu
    by_cases hut : u = t
    · rw [hut, Function.update_self] at hu
      rw [hut]
      exact hlocked hu
    · rw [Function.update_of_ne hut] at hu
      exact h.holder u hu
  · show (Function.update s.pc t pc u).usesFile = false
    by_cases hut : u = t
    · rw [hut, Function.update_self]
      exact hclosed hc
    · rw [Function.update_of_ne hut]
      exact h.closed hc u

/-- A step that leaves the file and the mutex as they are. -/
theorem Sound.move (h : s.Sound) (hlocked : pc.locked = true → s.logMutex = some t)
    (hclosed : s.logClosed = true → pc.usesFile = false) (hnot : (s.pc t).reopening = false)
    (huses : log.uses = s.log.uses) (hsame : log.logFileHandle = s.log.logFileHandle) :
    Sound ({ s with log := log }.goto t pc) := by
  refine h.keep hlocked ?_ hclosed fun hc => ?_
  · rw [huses]
    exact h.uses
  · rw [hsame]
    rcases h.handle hc with hopen | ⟨hclose, u, hu⟩
    · exact .inl hopen
    · have hut : u ≠ t := by
        rintro rfl
        exact nomatch hnot.symm.trans hu
      refine .inr ⟨hclose, u, ?_⟩
      rwa [Function.update_of_ne hut]

/-- The mutex may have any value while no thread holds it. -/
theorem Sound.setMutex (h : s.Sound) (hnone : ∀ u, (s.pc u).locked = false)
    (logMutex : Option Nat) : Sound { s with logMutex := logMutex } :=
  ⟨fun u hu => absurd ((hnone u).symm.trans hu) nofun, h.uses, h.closed, h.handle⟩

/-! ### Steps -/

/-- What a function writes, it writes to the file that is open. -/
theorem write_opened {l : Log} (fn : LogFn) (curTsStr : List UInt8)
    (hopen : l.logFileHandle = .opened) (huses : ∀ use ∈ l.uses, use.2 = .opened) :
    (fn.write curTsStr l).logFileHandle = .opened ∧
      ∀ use ∈ (fn.write curTsStr l).uses, use.2 = .opened := by
  have hcons : ∀ op, ∀ use ∈ (l.use op).uses, use.2 = .opened := fun op =>
    List.forall_mem_cons.mpr ⟨hopen, huses⟩
  cases fn with
  | logPreamble call =>
    simp only [LogFn.write, Log.writePreamble, Log.putPreamble]
    split
    · split
      · exact ⟨hopen, hcons .fprintf⟩
      · exact ⟨hopen, hcons .fprintf⟩
    · exact ⟨hopen, huses⟩
  | logS call level text closing =>
    simp only [LogFn.write, Log.writeMessage, Log.putMessage]
    split
    · split
      · exact ⟨hopen, hcons .fprintf⟩
      · exact ⟨hopen, hcons .fprintf⟩
    · cases call with
      | none => exact ⟨hopen, huses⟩
      | some call => exact ⟨hopen, huses⟩

/-- A step of `log_preamble` or `log_s`. -/
theorem Sound.fnStep {fn : LogFn} {place : LogPlace} {curTsStr : List UInt8} {ok : Bool}
    (h : s.Sound) (hpc : s.pc t = .inFn fn place) (ho : s.Orderly (t, .next curTsStr ok))
    (hs : s.fnStep t fn curTsStr ok place = some s') : s'.Sound := by
  simp only [Orderly, hpc] at ho
  have hclosed : s.logClosed = true → (LogPc.inFn fn place).usesFile = false := fun hc => by
    rw [← hpc]
    exact h.closed hc t
  have hopened := h.opened (t := t)
  have hholder := h.holder t
  rw [hpc] at hopened hholder
  cases place with
  | check =>
    -- The file has not been closed for good, so the handle is not NULL
    have hnull : ¬ s.log.logFileHandle = .null := by
      intro hnull
      rcases h.handle ho with hopen | ⟨hclose, -⟩
      · exact nomatch hnull.symm.trans hopen
      · exact nomatch hnull.symm.trans hclose
    rw [LogThreads.fnStep, if_neg hnull] at hs
    rw [← Option.some.inj hs]
    exact h.move nofun (fun hc => nomatch ho.symm.trans hc) (by rw [hpc]; rfl) rfl rfl
  | lock =>
    obtain ⟨hfree, hs⟩ := Option.ite_none_right_eq_some.mp hs
    rw [← Option.some.inj hs]
    -- The mutex is free, so no thread is in a critical section
    have hnone : ∀ u, (s.pc u).locked = false := fun u => by
      cases hu : (s.pc u).locked with
      | false => rfl
      | true => exact nomatch hfree.symm.trans (h.holder u hu)
    exact (h.setMutex hnone (some t)).move (fun _ => rfl) (fun hc => nomatch hclosed hc)
      (show (s.pc t).reopening = false by rw [hpc]; rfl) rfl rfl
  | count =>
    rw [LogThreads.fnStep] at hs
    split at hs
    · rw [← Option.some.inj hs]
      exact h.move (fun _ => hholder rfl) (fun hc => nomatch hclosed hc) (by rw [hpc]; rfl) rfl rfl
    · rw [← Option.some.inj hs]
      exact h.move (fun _ => hholder rfl) (fun hc => nomatch hclosed hc) (by rw [hpc]; rfl) rfl rfl
  | fclose =>
    -- The file is closed until the same thread opens it anew
    obtain ⟨-, hopen⟩ := hopened rfl rfl rfl
    rw [← Option.some.inj hs]
    refine h.keep (fun _ => hholder rfl) (List.forall_mem_cons.mpr ⟨hopen, h.uses⟩)
      (fun hc => nomatch hclosed hc) fun _ => .inr ⟨rfl, t, ?_⟩
    rw [Function.update_self]
    rfl
  | fopen =>
    -- The condition on the run is that the file can be opened
    subst ho
    rw [← Option.some.inj hs]
    exact h.keep (fun _ => hholder rfl) h.uses (fun hc => nomatch hclosed hc) fun _ => .inl rfl
  | fprintf =>
    obtain ⟨-, hopen⟩ := hopened rfl rfl rfl
    obtain ⟨hopen', huses⟩ := write_opened fn curTsStr hopen h.uses
    rw [← Option.some.inj hs]
    exact h.keep (fun _ => hholder rfl) huses (fun hc => nomatch hclosed hc) fun _ => .inl hopen'
  | fflush =>
    obtain ⟨-, hopen⟩ := hopened rfl rfl rfl
    rw [← Option.some.inj hs]
    exact h.keep (fun _ => hholder rfl) (List.forall_mem_cons.mpr ⟨hopen, h.uses⟩)
      (fun hc => nomatch hclosed hc) fun _ => .inl hopen
  | unlock =>
    -- Of the places behind a function only that of `log_close` uses the file
    have hafter : fn.after.locked = false ∧ fn.after.usesFile = fn.closing := by
      cases fn with
      | logPreamble call => exact ⟨rfl, rfl⟩
      | logS call level text closing =>
        cases closing with
        | false => exact ⟨rfl, rfl⟩
        | true => exact ⟨rfl, rfl⟩
    rw [← Option.some.inj hs]
    have hmove : Sound (s.goto t fn.after) :=
      h.move (fun hl => nomatch hafter.1.symm.trans hl) (fun hc => hafter.2.trans (hclosed hc))
        (by rw [hpc]; rfl) rfl rfl
    -- Only this thread held the mutex
    refine hmove.setMutex (fun u => ?_) none
    cases hu : ((s.goto t fn.after).pc u).locked with
    | false => rfl
    | true =>
      have hut : u = t := Option.some.inj ((hmove.holder u hu).symm.trans (hholder rfl))
      simp only [goto, hut, Function.update_self] at hu
      exact nomatch hafter.1.symm.trans hu

/-- `log_close` closes the file, which no other thread is going to use. -/
theorem Sound.lastFclose (h : s.Sound) (hpc : s.pc t = .lastFclose)
    (ho : ∀ u, u ≠ t → (s.pc u).usesFile = false) :
    Sound ({ s with log := s.log.fclose, logClosed := true }.goto t .idle) := by
  -- The file is closed for good once
  have hclosed : s.logClosed = false := by
    cases hc : s.logClosed with
    | false => rfl
    | true =>
      have huse := h.closed hc t
      rw [hpc] at huse
      cases huse
  -- No other thread is between its `fclose` and its `fopen`
  have hopen : s.log.logFileHandle = .opened := by
    rcases h.handle hclosed with hopen | ⟨-, u, hu⟩
    · exact hopen
    · have hut : u ≠ t := by
        rintro rfl
        rw [hpc] at hu
        cases hu
      exact absurd ((ho u hut).symm.trans (usesFile_of_reopening hu)) Bool.false_ne_true
  refine ⟨fun u hu => ?_, List.forall_mem_cons.mpr ⟨hopen, h.uses⟩, fun _ u => ?_,
    fun hc => by cases hc⟩
  · simp only [goto] at hu
    by_cases hut : u = t
    · rw [hut, Function.update_self] at hu
      cases hu
    · rw [Function.update_of_ne hut] at hu
      exact h.holder u hu
  · show (Function.update s.pc t LogPc.idle u).usesFile = false
    by_cases hut : u = t
    · rw [hut, Function.update_self]
      rfl
    · rw [Function.update_of_ne hut]
      exact ho u hut

theorem Sound.step {a : Nat × Move} (h : s.Sound) (ho : s.Orderly a)
    (hs : system.step s a = some s') : s'.Sound := by
  obtain ⟨t, m⟩ := a
  obtain ⟨-, hs⟩ := Option.ite_none_left_eq_some.mp hs
  -- A call that begins checks the handle first
  have hbegin : ∀ (calls : Nat) (pc' : LogPc), s.pc t = .idle → pc'.locked = false →
      pc'.usesFile = false → Sound ({ s with calls := calls }.goto t pc') := by
    intro calls pc' hpc hlocked huse
    have hmove : Sound (s.goto t pc') :=
      h.move (fun hl => absurd (hlocked.symm.trans hl) Bool.false_ne_true) (fun _ => huse)
        (by rw [hpc]; rfl) rfl rfl
    exact ⟨hmove.holder, hmove.uses, hmove.closed, hmove.handle⟩
  cases m with
  | logInfo info =>
    simp only [LogThreads.move] at hs
    split at hs
    · rw [← Option.some.inj hs]
      exact hbegin _ _ ‹_› rfl rfl
    · cases hs
  | logS level text =>
    simp only [LogThreads.move] at hs
    split at hs
    · rw [← Option.some.inj hs]
      exact hbegin _ _ ‹_› rfl rfl
    · cases hs
  | logClose =>
    simp only [LogThreads.move] at hs
    split at hs
    · rw [← Option.some.inj hs]
      exact hbegin _ _ ‹_› rfl rfl
    · cases hs
  | next curTsStr ok =>
    simp only [LogThreads.move] at hs
    split at hs
    · cases hs
    · exact h.fnStep ‹_› ho hs
    · rename_i hpc
      simp only [Orderly, hpc] at ho
      split at hs
      · rw [← Option.some.inj hs]
        exact h.move (absurd · Bool.false_ne_true) (fun _ => rfl) (by rw [hpc]; rfl) rfl rfl
      · rw [← Option.some.inj hs]
        exact h.move (absurd · Bool.false_ne_true)
          (fun hc => absurd (ho.symm.trans hc) Bool.false_ne_true) (by rw [hpc]; rfl) rfl rfl
    · rename_i hpc
      simp only [Orderly, hpc] at ho
      rw [← Option.some.inj hs]
      exact h.lastFclose hpc ho

theorem sound_of_reach (h : Transition.Reach system Orderly s) : s.Sound := by
  apply h.invariant
  · rintro s ⟨level, rfl⟩
    have huses : ∀ use ∈ [(FileOp.fflush, LogFile.opened), (.fprintf, .opened)],
        use.2 = .opened := by
      decide
    exact ⟨nofun, huses, nofun, fun _ => .inl rfl⟩
  · exact fun s a s' _ hsound ho hs => hsound.step ho hs

/-- In an orderly run every file operation is on an open handle. -/
theorem handle_open (h : Transition.Reach system Orderly s) : s.HandleOpen :=
  (sound_of_reach h).uses

/-- Before the first call. -/
def atStart : LogThreads where
  log := Log.logInit.logSetLevel 4
  logMutex := none
  pc _ := .idle
  calls := 0
  logClosed := false

theorem atStart_init : system.init atStart := ⟨4, rfl⟩

/-- A call of `LOG_INFO` in `signal_handler_reboot`. -/
def killSignal : LogInfo where
  level := 2
  file := CString.ascii "g_net_update.c"
  function := CString.ascii "signal_handler_reboot"
  line := 61
  text := CString.ascii "receive kill signal exit the server."

/-- `log_close`, and its steps. -/
def closeLog : List (Nat × Move) :=
  [(0, .logClose), (0, .next [] true), (0, .next [] true), (0, .next [] true), (0, .next [] true),
    (0, .next [] true), (0, .next [] true), (0, .next [] true)]

/-- A thread that gets as far as its `fprintf` in `log_preamble`. -/
def logAndWrite : List (Nat × Move) :=
  [(1, .logInfo killSignal), (1, .next [] true), (1, .next [] true), (1, .next [] true),
    (1, .next [] true)]

/-- Two calls of `LOG_INFO`, the second between the two functions of the first. -/
def twoCalls : List (Nat × Move) :=
  (1, .logInfo killSignal) :: List.replicate 6 (1, .next [] true) ++
    ((2, .logInfo killSignal) :: List.replicate 11 (2, .next [] true) ++
      List.replicate 5 (1, .next [] true))

/-- Two threads log at the same time, and the log is closed when they have finished. -/
theorem handle_open_closed :
    ∃ s, system.run atStart (twoCalls ++ closeLog) = some s ∧ s.logClosed = true ∧
      s.HandleOpen := by
  have hrun : system.run atStart (twoCalls ++ closeLog) = some _ := rfl
  have hmeets : system.Meets Orderly atStart (twoCalls ++ closeLog) := by
    -- `log_preamble` of the first call, the second call, `log_s` of the first, `log_close`
    refine .cons rfl trivial (.cons rfl rfl (.cons rfl trivial (.cons rfl trivial (.cons rfl trivial
      (.cons rfl trivial (.cons rfl trivial ?_))))))
    refine .cons rfl trivial (.cons rfl rfl (.cons rfl trivial (.cons rfl trivial (.cons rfl trivial
      (.cons rfl trivial (.cons rfl trivial (.cons rfl rfl (.cons rfl trivial (.cons rfl trivial
      (.cons rfl trivial (.cons rfl trivial ?_)))))))))))
    refine .cons rfl rfl (.cons rfl trivial (.cons rfl trivial (.cons rfl trivial
      (.cons rfl trivial ?_))))
    refine .cons rfl trivial (.cons rfl rfl (.cons rfl rfl (.cons rfl trivial (.cons rfl trivial
      (.cons rfl trivial (.cons rfl trivial (.cons rfl (fun u hu => ?_) .nil)))))))
    by_cases h1 : u = 1
    · rw [h1]
      rfl
    by_cases h2 : u = 2
    · rw [h2]
      rfl
    simp [goto, hu, h1, h2, atStart, LogPc.usesFile]
  exact ⟨_, hrun, rfl, handle_open (.run (.init atStart_init) hmeets hrun)⟩

/-- A thread logs after `main` has closed the log. -/
theorem handle_open_fails :
    ¬ ∀ s, Transition.Reachable system s → s.HandleOpen := by
  intro h
  have hrun : system.run atStart (closeLog ++ logAndWrite) = some _ := rfl
  have hopen := h _ (.of_run atStart_init hrun) (.fprintf, .closed) List.mem_cons_self
  exact nomatch hopen

end LogThreads

end JQServer
