import JQServer.Spec.Identity

/-!
# The order of logins

The event loop queues the messages of a connection in the order received, and workers take
them in that order. But each worker then runs its job by itself, so a CMD_SENDUI can copy a
field to the slot after one that was received later. `last_login_stored` holds in every run in
which that does not happen to the last login of a connection; `last_login_stored_fails` is the
run in which two workers change places.
-/

namespace JQServer

/-- What has become of the jobs. A job has the number of the `malloc` that made it, so
    these follow the order received. -/
structure JobLog where
  /-- The parameters of the jobs that were queued. -/
  received : Nat → Option JobParameter := fun _ => none
  /-- The job that the handler of a worker has looked at. -/
  running : Nat → Nat := fun _ => 0
  /-- The logins that have copied both fields. -/
  executed : List Nat := []

namespace JobLog

variable {r : JobLog}

/-- Job `p` is a login of connection `c`. -/
def Login (r : JobLog) (c p : Nat) (msg : SendUIMessage) : Prop :=
  ∃ arg, r.received p = some arg ∧ arg.conn = c ∧ Command.ofBuffer arg.recvBuffer = .sendUI msg

/-- Job `p` is the last login received on connection `c`. -/
def LastLogin (r : JobLog) (c p : Nat) (msg : SendUIMessage) : Prop :=
  r.Login c p msg ∧ ∀ q msg', r.Login c q msg' → q ≤ p

/-- All logins of connection `c` were executed, apart from `p` perhaps. -/
def AllExecutedBut (r : JobLog) (c p : Nat) : Prop :=
  ∀ q msg, r.Login c q msg → q ≠ p → q ∈ r.executed

/-- All logins of connection `c` were executed. -/
def AllExecuted (r : JobLog) (c : Nat) : Prop :=
  ∀ q msg, r.Login c q msg → q ∈ r.executed

end JobLog

/-- What a step adds to the log. -/
def recordJobs (r : JobLog) (s : Server) (a : Action) (_ : Server) : JobLog :=
  match a with
  | .op =>
    match s.ops with
    | .enqueue _ arg :: _ =>
      { r with received := Function.update r.received s.pool.allocated (some arg) }
    | _ => r
  | .lookup w =>
    match s.pool.workers w with
    | .running p => { r with running := Function.update r.running w p }
    | _ => r
  | .copy w =>
    match s.handlers w, s.parameter w with
    | .sendUI _ _ .passwd, some _ => { r with executed := r.running w :: r.executed }
    | _, _ => r
  | _ => r

namespace Server

variable {s s' : Server} {r : JobLog}

/-- The server with a log of its jobs. -/
def logged : Transition.System (Server × JobLog) Action :=
  system.withHistory (fun _ => {}) recordJobs

/-- A SENDUI of connection `c` is between its two copies. -/
def Storing (s : Server) (c : Nat) : Prop := ∃ i, s.LoggingIn i c

/-- Once all logins of a connection are executed, its slot stores the last one received. -/
def LastLoginStored (x : Server × JobLog) : Prop :=
  ∀ i c p msg, x.1.owner i = some c → x.2.LastLogin c p msg → x.2.AllExecuted c →
    ¬ x.1.Storing c →
    (x.1.table i).usrhashId.str = msg.userId.str ∧ (x.1.table i).passwd.str = msg.passwd.str

/-- Worker `w` makes the copy that ends the last outstanding login of its connection. -/
def EndsLogins (x : Server × JobLog) (w : Nat) (arg : JobParameter) : Prop :=
  x.2.AllExecutedBut arg.conn (x.2.running w) ∧
    ∀ v arg' i, v ≠ w → x.1.handlers v = .sendUI arg' i .passwd → arg'.conn ≠ arg.conn

/-- When the last outstanding login of a connection stores its password, the user id that was
    copied last and this password are those of the login received last. -/
def LastInOrder (x : Server × JobLog) (a : Action) : Prop :=
  ∀ w arg i, a = .copy w → x.1.handlers w = .sendUI arg i .passwd → EndsLogins x w arg →
    ∀ p msg, x.2.LastLogin arg.conn p msg →
      (∀ m, x.1.login .userId arg.conn = some m → m.userId.str = msg.userId.str) ∧
        (SendUIMessage.ofBuffer arg.recvBuffer).passwd.str = msg.passwd.str

/-- The invariant: the log knows every job, and a connection whose logins are all executed
    has copied the last one received. -/
structure OrderInv (s : Server) (r : JobLog) : Prop where
  live : ∀ p job, s.pool.heap p = some job → r.received p = some job.arg
  fresh : s.pool.fault = false → ∀ p, s.pool.allocated ≤ p → r.received p = none
  executed : ∀ p ∈ r.executed, r.received p ≠ none
  job : ∀ w arg, (s.handlers w).arg = some arg → r.received (r.running w) = some arg
  copied : ∀ w arg i, s.handlers w = .sendUI arg i .passwd → s.login .userId arg.conn ≠ none
  last : ∀ c p msg, r.LastLogin c p msg → r.AllExecuted c → ¬ s.Storing c →
    ∀ field, ∃ m, s.login field c = some m ∧ field.sent m = field.sent msg

/-- The invariant holds at the start. -/
theorem orderInv_start (t n : Int) : (start t n).OrderInv {} where
  live := by rintro _ _ ⟨⟩
  fresh _ _ _ := rfl
  executed := by rintro _ ⟨⟩
  job := by rintro _ _ ⟨⟩
  copied := by rintro _ _ _ ⟨⟩
  last := by rintro _ _ _ ⟨⟨_, ⟨⟩, -⟩, -⟩

/-! ### The log -/

/-- The log after the event loop has queued a job. -/
private theorem recordJobs_received (r : JobLog) (s : Server) (a : Action) (s' : Server) (p : Nat) :
    (recordJobs r s a s').received p = r.received p ∨ p = s.pool.allocated ∧
      ∃ now arg ops, a = .op ∧ s.ops = .enqueue now arg :: ops ∧
        (recordJobs r s a s').received p = some arg := by
  unfold recordJobs
  -- Each branch is one of the recorded actions
  split
  · split
    · rename_i now arg ops ho
      by_cases hp : p = s.pool.allocated
      · refine .inr ⟨hp, now, arg, ops, rfl, ho, ?_⟩
        rw [hp]
        exact Function.update_self ..
      · exact .inl (Function.update_of_ne hp ..)
    · exact .inl rfl
  · split <;> exact .inl rfl
  · split <;> exact .inl rfl
  · exact .inl rfl

/-- A job that is in the log stays there. -/
private theorem OrderInv.received_some {a : Action} (h : s.OrderInv r)
    (hs : s.step a = some s') {p : Nat} (hp : r.received p ≠ none) :
    (recordJobs r s a s').received p = r.received p := by
  rcases recordJobs_received r s a s' p with heq | ⟨rfl, -⟩
  · exact heq
  · exact absurd (h.fresh (not_fault_of_step hs) _ (Nat.le_refl _)) hp

/-- A live job is an old one, or the one that is queued by the step. -/
private theorem queued_step {a : Action} (hs : s.step a = some s') {p : Nat}
    {job' : ThpoolJob JobParameter} (hp : s'.pool.heap p = some job') :
    (∃ job, s.pool.heap p = some job ∧ job.arg = job'.arg) ∨ p = s.pool.allocated ∧
      ∃ now ops, a = .op ∧ s.ops = .enqueue now job'.arg :: ops := by
  rcases pool_step hs with heq | ⟨b, hb, hkind⟩ | ⟨now, arg, ops, ha, ho, hb⟩
  · exact .inl ⟨job', heq ▸ hp, rfl⟩
  · rcases Thpool.step_args hb p job' hp with hjob | ⟨-, now, rfl⟩
    · -- A new job is queued by `thpool_add_work` only, which is no worker step and no sweep
      exact .inl hjob
    · obtain ⟨-, hkind⟩ | hkind | ⟨_, hkind⟩ := hkind <;> cases hkind
  · rcases Thpool.step_args hb p job' hp with hjob | ⟨hnew, now', heq⟩
    · exact .inl hjob
    · obtain ⟨rfl, rfl⟩ := Thpool.Action.addWork.inj heq
      exact .inr ⟨hnew, now, ops, ha, ho⟩

/-- The pending `thpool_add_work` is made. -/
private theorem enqueue_step {now : Int} {arg : JobParameter} {ops : List LoopOp}
    (ho : s.ops = .enqueue now arg :: ops) (hs : s.step .op = some s') :
    s.pool.step (.addWork now arg) = some s'.pool := by
  simp only [step, ho, opStep] at hs
  split at hs
  · cases hs
  · obtain ⟨pool, hp, rfl⟩ := Option.map_eq_some_iff.mp hs
    exact hp

/-- Addresses are handed out in order, and a job that is queued gets the next one. -/
private theorem allocated_step {a : Action} (hs : s.step a = some s')
    (hf : s'.pool.fault = false) : s.pool.allocated ≤ s'.pool.allocated ∧
      ∀ now arg ops, a = .op → s.ops = .enqueue now arg :: ops →
        s.pool.allocated < s'.pool.allocated := by
  have hadd : ∀ now arg, s.pool.step (.addWork now arg) = some s'.pool →
      s.pool.allocated < s'.pool.allocated := by
    intro now arg hp
    rcases Thpool.addWork_allocated hp with heq | hfault
    · omega
    · cases hf.symm.trans hfault
  constructor
  · rcases pool_step hs with heq | ⟨b, hb, hkind⟩ | ⟨now, arg, ops, -, -, hb⟩
    · exact Nat.le_of_eq (congrArg Thpool.allocated heq.symm)
    · refine Nat.le_of_eq (Eq.symm ?_)
      -- Workers and the sweep only free jobs
      obtain ⟨-, hkind⟩ | rfl | ⟨now, rfl⟩ := hkind
      · exact Thpool.worker_allocated hkind hb
      · have hmoves := (Thpool.step_moves hb).2
        generalize s'.pool = pool at hmoves
        cases hmoves
        rfl
      · exact Thpool.sweepLocked_allocated hb
    · exact Nat.le_of_lt (hadd now arg hb)
  · rintro now arg ops rfl ho
    exact hadd now arg (enqueue_step ho hs)

/-! ### Steps -/

/-- The log of jobs follows the heap. -/
private theorem OrderInv.heap_step {a : Action} (h : s.OrderInv r) (hs : s.step a = some s') :
    (∀ p job, s'.pool.heap p = some job → (recordJobs r s a s').received p = some job.arg) ∧
      (s'.pool.fault = false → ∀ p, s'.pool.allocated ≤ p →
        (recordJobs r s a s').received p = none) := by
  constructor
  · intro p job hp
    rcases queued_step hs hp with ⟨job', hjob, harg⟩ | ⟨rfl, now, ops, rfl, ho⟩
    · -- A job that was live before is in the log, and the log keeps it
      have hlive := h.live p job' hjob
      rw [h.received_some hs (hlive ▸ Option.some_ne_none _), hlive, harg]
    · -- The job that the step queues is recorded by the step
      simp only [recordJobs, ho, Function.update_self]
  · intro hf p hp
    obtain ⟨hle, hlt⟩ := allocated_step hs hf
    rcases recordJobs_received r s a s' p with
      heq | ⟨rfl, now, arg, ops, ha, ho, -⟩
    · -- An address that is free after the step was free before
      rw [heq]
      exact h.fresh (not_fault_of_step hs) p (Nat.le_trans hle hp)
    · -- The job that the step queues has the last address
      exact absurd (hlt now arg ops ha ho) (Nat.not_lt.mpr hp)

/-- Only its own search gives a handler another job. -/
private theorem recordJobs_running {a : Action} {w : Nat} (ha : a ≠ .lookup w) :
    (recordJobs r s a s').running w = r.running w := by
  unfold recordJobs
  split
  · split <;> rfl
  · rename_i w'
    have hw : w ≠ w' := by
      rintro rfl
      exact ha rfl
    split
    · exact Function.update_of_ne hw ..
    · rfl
  · split <;> rfl
  · rfl

/-- The log knows the job that a handler runs. -/
private theorem OrderInv.job_step {a : Action} (h : s.OrderInv r) (hs : s.step a = some s')
    (w : Nat) (arg : JobParameter) (hpc : (s'.handlers w).arg = some arg) :
    (recordJobs r s a s').received ((recordJobs r s a s').running w) = some arg := by
  rcases (step_handlers hs w).arg_eq hpc with hold | ⟨rfl, -, hjob⟩
  · -- The handler goes on with its job
    have hrec := h.job w arg hold
    have ha : a ≠ .lookup w := by
      rintro rfl
      rw [(lookup_step hs).1] at hold
      cases hold
    rw [recordJobs_running ha, h.received_some hs (hrec ▸ Option.some_ne_none _), hrec]
  · -- It has just read the job, which is live
    simp only [parameter] at hjob
    split at hjob
    · rename_i p hp
      obtain ⟨job, hheap, rfl⟩ := Option.map_eq_some_iff.mp hjob
      simp only [recordJobs, hp, Function.update_self]
      exact h.live p job hheap
    · cases hjob

/-- A connection that has copied a field has done so ever after. -/
private theorem login_some {a : Action} {field : SendUIField} {c : Nat} (hs : s.step a = some s')
    (h : s.login field c ≠ none) : s'.login field c ≠ none := by
  rcases login_step hs with heq | ⟨w, arg, i, field', -, -, heq⟩
  · rwa [heq]
  · rw [heq]
    by_cases hne : field ≠ field' ∨ c ≠ arg.conn
    · rwa [login_storeField_of_ne i hne]
    · obtain ⟨rfl, rfl⟩ : field = field' ∧ c = arg.conn := by simpa [not_or] using hne
      rw [login_storeField_self]
      exact Option.some_ne_none _

/-- A handler that is at its second copy has made the first. -/
private theorem OrderInv.copied_step {a : Action} (h : s.OrderInv r) (hs : s.step a = some s')
    (w : Nat) (arg : JobParameter) (i : Fin maxEvents)
    (hpc : s'.handlers w = .sendUI arg i .passwd) : s'.login .userId arg.conn ≠ none := by
  by_cases hold : s.handlers w = .sendUI arg i .passwd
  · exact login_some hs (h.copied w arg i hold)
  · have hmoves := step_handlers hs w
    rw [hpc] at hmoves
    generalize hpc' : HandlerPc.sendUI arg i .passwd = pc at hmoves
    cases hmoves with
    | same => exact absurd hpc'.symm hold
    | @copy arg' i' field hw =>
      cases field with
      | passwd => cases hpc'
      | userId =>
        obtain ⟨rfl, rfl, -⟩ := HandlerPc.sendUI.inj hpc'
        obtain ⟨arg', i', field', hw', heq⟩ := copy_step hs
        obtain ⟨rfl, rfl, rfl⟩ := HandlerPc.sendUI.inj (hw.symm.trans hw')
        rw [heq] at hpc ⊢
        simp only [copyStep] at hpc ⊢
        cases hjob : s.parameter w with
        | none =>
          simp only [hjob] at hpc
          cases hw.symm.trans hpc
        | some parameter =>
          have hlogin := login_storeField_self (s := s) arg i .userId
          exact fun hnone => by cases hlogin.symm.trans hnone
    | @write _ _ n r' => cases hn : sendBufferStep n r' <;> rw [hn] at hpc' <;> cases hpc'
    | _ => cases hpc'

/-- A step that ends no login. -/
private theorem recordJobs_executed (r : JobLog) (s : Server) (a : Action) (s' : Server) :
    (recordJobs r s a s').executed = r.executed ∨ ∃ w arg i, a = .copy w ∧
      s.handlers w = .sendUI arg i .passwd ∧ s.parameter w ≠ none ∧
      recordJobs r s a s' = { r with executed := r.running w :: r.executed } := by
  unfold recordJobs
  split
  · split <;> exact .inl rfl
  · split <;> exact .inl rfl
  · split
    · rename_i w _ _ arg i _ hpc hjob
      exact .inr ⟨w, arg, i, rfl, hpc, hjob ▸ Option.some_ne_none _, rfl⟩
    · exact .inl rfl
  · exact .inl rfl

/-- A connection that is between two copies stays so until one of them is made. -/
private theorem storing_step {a : Action} {c : Nat} (ha : ∀ w, a ≠ .copy w)
    (hs : s.step a = some s') (h : s.Storing c) : s'.Storing c := by
  obtain ⟨i, w, arg, hpc, hconn⟩ := h
  exact ⟨i, w, arg, sendUI_step (ha w) hs hpc, hconn⟩

/-- The last login of a connection, over a step that copies nothing. -/
private theorem OrderInv.last_frame {a : Action} (h : s.OrderInv r) (ha : ∀ w, a ≠ .copy w)
    (hs : s.step a = some s') (c p : Nat) (msg : SendUIMessage)
    (hlast : (recordJobs r s a s').LastLogin c p msg)
    (hall : (recordJobs r s a s').AllExecuted c) (hidle : ¬ s'.Storing c) (field : SendUIField) :
    ∃ m, s'.login field c = some m ∧ field.sent m = field.sent msg := by
  have hex : (recordJobs r s a s').executed = r.executed := by
    rcases recordJobs_executed r s a s' with hex | ⟨w, _, _, rfl, -⟩
    · exact hex
    · exact absurd rfl (ha w)
  have hlogin : s'.login = s.login := by
    rcases login_step hs with heq | ⟨w, _, _, _, rfl, -⟩
    · exact heq
    · exact absurd rfl (ha w)
  -- A job that is executed was received before the step
  have hold : ∀ q m, (recordJobs r s a s').Login c q m ↔ r.Login c q m := by
    intro q m
    unfold JobLog.Login
    constructor
    · intro hq
      rwa [h.received_some hs (h.executed q (hex ▸ hall q m hq))] at hq
    · intro hq
      rwa [h.received_some hs (hq.choose_spec.1 ▸ Option.some_ne_none _)]
  rw [hlogin]
  refine h.last c p msg ⟨(hold p msg).mp hlast.1, fun q m hq => hlast.2 q m ((hold q m).mpr hq)⟩
    (fun q m hq => hex ▸ hall q m ((hold q m).mpr hq))
    (fun hstoring => hidle (storing_step ha hs hstoring)) field

/-- Where the handlers are after a copy. -/
private theorem handlers_copy {w v : Nat} {arg : JobParameter} {i : Fin maxEvents}
    {field : SendUIField} (hv : v ≠ w) :
    ((s.storeField arg i field).setHandler w (field.next arg i)).handlers v = s.handlers v :=
  Function.update_of_ne hv ..

/-- The last login of a connection, over a copy that meets the condition. -/
private theorem OrderInv.last_copy {w : Nat} {arg : JobParameter} {i : Fin maxEvents}
    {field : SendUIField} (h : s.OrderInv r) (ha : LastInOrder (s, r) (.copy w))
    (hpc : s.handlers w = .sendUI arg i field) (hparam : s.parameter w ≠ none) (c p : Nat)
    (msg : SendUIMessage) (hlast : (recordJobs r s (.copy w) s').LastLogin c p msg)
    (hall : (recordJobs r s (.copy w) s').AllExecuted c)
    (hidle : ¬ ((s.storeField arg i field).setHandler w (field.next arg i)).Storing c)
    (other : SendUIField) :
    ∃ m, (s.storeField arg i field).login other c = some m ∧ other.sent m = other.sent msg := by
  have hw : ((s.storeField arg i field).setHandler w (field.next arg i)).handlers w =
      field.next arg i := setHandler_self ..
  obtain ⟨parameter, hjob⟩ := Option.ne_none_iff_exists'.mp hparam
  by_cases hown : c = arg.conn
  · subst hown
    cases field with
    | userId => exact absurd ⟨i, w, arg, hw, rfl⟩ hidle
    | passwd =>
      -- The condition is about this copy: it ends the last login that is outstanding
      have hlog : recordJobs r s (.copy w) s' =
          { r with executed := r.running w :: r.executed } := by
        simp only [recordJobs, hpc, hjob]
      rw [hlog] at hlast hall
      have hends : EndsLogins (s, r) w arg := by
        refine ⟨fun q m hq hne => (List.mem_cons.mp (hall q m hq)).resolve_left hne, ?_⟩
        exact fun v arg' j hv hpc' hconn =>
          hidle ⟨j, v, arg', (handlers_copy hv).trans hpc', hconn⟩
      obtain ⟨huserId, hpasswd⟩ := ha w arg i rfl hpc hends p msg hlast
      cases other with
      | userId =>
        obtain ⟨m, hm⟩ := Option.ne_none_iff_exists'.mp (h.copied w arg i hpc)
        have hne : SendUIField.userId ≠ .passwd := by decide
        exact ⟨m, (login_storeField_of_ne i (.inl hne)).trans hm, huserId m hm⟩
      | passwd => exact ⟨_, login_storeField_self arg i .passwd, hpasswd⟩
  · -- It is another connection's copy, which leaves its logins as they are
    have hjobs : r.received (r.running w) = some arg := h.job w arg (by rw [hpc]; rfl)
    have hrec : (recordJobs r s (.copy w) s').received = r.received := by
      simp only [recordJobs]
      split <;> rfl
    have hmem : ∀ q m, r.Login c q m → q ∈ (recordJobs r s (.copy w) s').executed →
        q ∈ r.executed := by
      intro q m hq hin
      rcases recordJobs_executed r s (.copy w) s' with hex | ⟨w', _, _, heq, -, -, hlog⟩
      · exact hex ▸ hin
      · cases heq
        rw [hlog] at hin
        refine (List.mem_cons.mp hin).resolve_left ?_
        rintro rfl
        obtain ⟨arg', harg, hconn, -⟩ := hq
        obtain rfl := Option.some.inj (hjobs.symm.trans harg)
        exact hown hconn.symm
    have hlogin : ∀ q m, (recordJobs r s (.copy w) s').Login c q m ↔ r.Login c q m := by
      intro q m
      rw [JobLog.Login, hrec]
      exact Iff.rfl
    have hold : ¬ s.Storing c := by
      rintro ⟨j, v, arg', hpc', hconn⟩
      by_cases hv : v = w
      · obtain ⟨rfl, -⟩ := HandlerPc.sendUI.inj (hpc.symm.trans (hv ▸ hpc'))
        exact hown hconn.symm
      · exact hidle ⟨j, v, arg', (handlers_copy hv).trans hpc', hconn⟩
    rw [login_storeField_of_ne i (.inr hown)]
    exact h.last c p msg ⟨(hlogin p msg).mp hlast.1,
      fun q m hq => hlast.2 q m ((hlogin q m).mpr hq)⟩
      (fun q m hq => hmem q m hq (hall q m ((hlogin q m).mpr hq))) hold other

/-- The last login of every connection, over a step that meets the condition. -/
private theorem OrderInv.last_step {a : Action} (h : s.OrderInv r) (ha : LastInOrder (s, r) a)
    (hs : s.step a = some s') (c p : Nat) (msg : SendUIMessage)
    (hlast : (recordJobs r s a s').LastLogin c p msg)
    (hall : (recordJobs r s a s').AllExecuted c) (hidle : ¬ s'.Storing c) (field : SendUIField) :
    ∃ m, s'.login field c = some m ∧ field.sent m = field.sent msg := by
  by_cases hcopy : ∃ w, a = .copy w
  · obtain ⟨w, rfl⟩ := hcopy
    obtain ⟨arg, i, field', hpc, rfl⟩ := copy_step hs
    cases hjob : s.parameter w with
    | some parameter =>
      simp only [copyStep, hjob] at hidle ⊢
      exact h.last_copy ha hpc (hjob ▸ Option.some_ne_none _) c p msg hlast hall hidle field
    | none =>
      -- The job is freed: nothing is copied, and nothing recorded
      have hlog : recordJobs r s (.copy w) (s.copyStep w arg i field') = r := by
        simp only [recordJobs, hpc, hjob]
      simp only [copyStep, hjob] at hidle ⊢
      rw [hlog] at hlast hall
      exact h.last c p msg hlast hall hidle field
  · exact h.last_frame (fun w heq => hcopy ⟨w, heq⟩) hs c p msg hlast hall hidle field

/-- Every step that meets the condition keeps the invariant. -/
private theorem OrderInv.step {a : Action} (h : s.OrderInv r) (ha : LastInOrder (s, r) a)
    (hs : s.step a = some s') : s'.OrderInv (recordJobs r s a s') := by
  obtain ⟨hlive, hfresh⟩ := h.heap_step hs
  refine ⟨hlive, hfresh, fun p hp => ?_, h.job_step hs, h.copied_step hs, h.last_step ha hs⟩
  have hold : r.received p ≠ none := by
    rcases recordJobs_executed r s a s' with hex | ⟨w, arg, i, -, hpc, -, hlog⟩
    · exact h.executed p (hex ▸ hp)
    · rw [hlog] at hp
      rcases List.mem_cons.mp hp with rfl | hp
      · rw [h.job w arg (by rw [hpc]; rfl)]
        exact Option.some_ne_none _
      · exact h.executed p hp
  rwa [h.received_some hs hold]

/-- Once all logins of a connection are executed, its slot stores the last one received,
    in every run in which SENDUI copies to slots of its own connection and the last
    outstanding login of a connection leaves the fields of the one received last. -/
theorem last_login_stored {x : Server × JobLog} (h : Transition.Reach logged
    (fun x a => x.1.OwnSlot a ∧ LastInOrder x a) x) : LastLoginStored x := by
  have hinv : x.1.OrderInv x.2 := by
    refine h.invariant (I := fun x => x.1.OrderInv x.2) ?_ fun x a x' _ hinv ha hs => ?_
    · rintro ⟨s, r⟩ ⟨⟨t, n, rfl⟩, hr⟩
      -- The log starts empty
      obtain rfl : r = {} := hr
      exact orderInv_start t n
    · obtain ⟨hs, hr⟩ := Transition.System.withHistory_step hs
      rw [hr]
      exact hinv.step ha.2 hs
  have hid : x.1.IdInv := idInv_of_reach (h.forget fun _ _ => And.left)
  intro i c p msg howner hlast hall hidle
  have hfield : ∀ field : SendUIField, field.stored (x.1.table i) = field.sent msg := by
    intro field
    obtain ⟨m, hlogin, hsame⟩ := hinv.last c p msg hlast hall hidle field
    exact (hid.identity field i c m howner hlogin).trans hsame
  exact ⟨hfield .userId, hfield .passwd⟩

/-- A step that is no copy meets the conditions. -/
private theorem meets_of_no_copy {as : List Action} (has : ∀ w, .copy w ∉ as)
    (x : Server × JobLog) :
    logged.Meets (fun x a => x.1.OwnSlot a ∧ LastInOrder x a) x as := by
  refine logged.meets_of_mem (fun a ha y => ⟨?_, ?_⟩) x
  · rintro w arg i field rfl
    exact absurd ha (has w)
  · rintro w arg i rfl
    exact absurd ha (has w)

/-- A login copies to the slot of its connection. -/
private theorem ownSlot_of_owner {w : Nat} {data : List UInt8} {field : SendUIField}
    (hpc : s.handlers w = .sendUI (.received data 5 0) 0 field)
    (howner : s.owner = Function.update (fun _ => none) 0 (some 0)) : s.OwnSlot (.copy w) := by
  intro w' arg i field' heq hpc'
  cases heq
  -- Slot 0 is the only one, and belongs to connection 0
  obtain ⟨rfl, rfl, -⟩ := HandlerPc.sendUI.inj (hpc.symm.trans hpc')
  refine ⟨fun c hc => ?_, fun j hj => ?_⟩
  · rw [howner, Function.update_self] at hc
    exact (Option.some.inj hc).symm
  · by_contra hne
    rw [howner, Function.update_of_ne hne] at hj
    cases hj

/-- The copy of a user id is no copy that the order is about. -/
private theorem lastInOrder_userId {x : Server × JobLog} {w : Nat} {arg : JobParameter}
    {i : Fin maxEvents} (hpc : x.1.handlers w = .sendUI arg i .userId) :
    LastInOrder x (.copy w) := by
  intro w' arg' i' heq hpc'
  cases heq
  cases hpc.symm.trans hpc'

/-- The steps that lead to two logins on one connection, each at its first copy. -/
private def twoLoginsRun : List Action :=
  acceptRun { fd := 5, addr := .zero _, port := 80 } 0 ++ receiveRun 5 (sendUIBytes [97]) 0 ++
    receiveRun 5 (sendUIBytes [98]) 0 ++ takeJobRun 0 ++ takeJobRun 1 ++ [.dispatch 0, .dispatch 1]

/-- These steps execute no login yet. -/
private theorem reach_twoLogins {x : Server × JobLog}
    (hx : logged.run (start 0, {}) twoLoginsRun = some x) :
    Transition.Reach logged (fun x a => x.1.OwnSlot a ∧ LastInOrder x a) x :=
  .run (.init ⟨⟨0, 15, rfl⟩, rfl⟩) (meets_of_no_copy
    (by simp [twoLoginsRun, acceptRun, fillRun, receiveRun, takeJobRun]) _) hx

/-- What the log says after two logins. -/
private def twoLogins : Nat → Option JobParameter :=
  Function.update (Function.update (fun _ => none) 0 (some (.received (sendUIBytes [97]) 5 0))) 1
    (some (.received (sendUIBytes [98]) 5 0))

set_option maxRecDepth 100000 in
/-- The second of two logins is the last. -/
private theorem lastLogin_two (hr : r.received = twoLogins) :
    ∃ msg, r.LastLogin 0 1 msg ∧ msg.userId.str = [98] := by
  refine ⟨{ userId := .ofBytes 10 [98], passwd := .zero _ },
    ⟨⟨.received (sendUIBytes [98]) 5 0, ?_, rfl, rfl⟩, ?_⟩, rfl⟩
  · rw [hr]
    rfl
  · -- The log has no job after the second
    rintro q msg ⟨arg, hq, -⟩
    by_contra hlt
    rw [hr, twoLogins, Function.update_of_ne (by omega), Function.update_of_ne (by omega)] at hq
    cases hq

/-- The message of the last of two logins. -/
private theorem ofBuffer_lastLogin (hr : r.received = twoLogins) {p : Nat} {msg : SendUIMessage}
    (h : r.LastLogin 0 p msg) :
    msg = .ofBuffer (JobParameter.received (sendUIBytes [98]) 5 0).recvBuffer := by
  obtain ⟨msg', hlast, -⟩ := lastLogin_two hr
  obtain rfl : p = 1 := le_antisymm (hlast.2 p msg h.1) (h.2 1 msg' hlast.1)
  obtain ⟨arg, harg, -, hcmd⟩ := h.1
  rw [hr, twoLogins, Function.update_self, Option.some.injEq] at harg
  exact harg ▸ SendUIMessage.eq_ofBuffer hcmd

/-- There are no logins but two. -/
private theorem allExecuted_two (hr : r.received = twoLogins) (h0 : 0 ∈ r.executed)
    (h1 : 1 ∈ r.executed) : r.AllExecuted 0 := by
  rintro q msg ⟨arg, hq, -⟩
  by_cases hq1 : q = 1
  · exact hq1 ▸ h1
  · by_cases hq0 : q = 0
    · exact hq0 ▸ h0
    · rw [hr, twoLogins, Function.update_of_ne hq1, Function.update_of_ne hq0] at hq
      cases hq

set_option maxRecDepth 100000 in
/-- Two logins are executed in order, and the second one is stored. -/
theorem last_login_stored_two :
    ∃ x : Server × JobLog, logged.run (start 0, {})
      (twoLoginsRun ++ [.copy 0] ++ [.copy 0] ++ [.copy 1] ++ [.copy 1]) = some x ∧
        LastLoginStored x := by
  have hrun : ∃ x₀ x₁ x₂ x₃ x₄ : Server × JobLog,
      logged.run (start 0, {}) twoLoginsRun = some x₀ ∧ logged.step x₀ (.copy 0) = some x₁ ∧
      logged.step x₁ (.copy 0) = some x₂ ∧ logged.step x₂ (.copy 1) = some x₃ ∧
      logged.step x₃ (.copy 1) = some x₄ ∧
      (x₀.1.handlers 0 = .sendUI (.received (sendUIBytes [97]) 5 0) 0 .userId ∧
        x₀.1.owner = Function.update (fun _ => none) 0 (some 0)) ∧
      (x₁.1.handlers 0 = .sendUI (.received (sendUIBytes [97]) 5 0) 0 .passwd ∧
        x₁.1.owner = Function.update (fun _ => none) 0 (some 0) ∧ x₁.2.received = twoLogins ∧
        x₁.2.running 0 = 0 ∧ x₁.2.executed = []) ∧
      (x₂.1.handlers 1 = .sendUI (.received (sendUIBytes [98]) 5 0) 0 .userId ∧
        x₂.1.owner = Function.update (fun _ => none) 0 (some 0)) ∧
      x₃.1.handlers 1 = .sendUI (.received (sendUIBytes [98]) 5 0) 0 .passwd ∧
        x₃.1.owner = Function.update (fun _ => none) 0 (some 0) ∧ x₃.2.received = twoLogins ∧
        x₃.1.login .userId 0 =
          some (.ofBuffer (JobParameter.received (sendUIBytes [98]) 5 0).recvBuffer) :=
    ⟨_, _, _, _, _, rfl, rfl, rfl, rfl, rfl, ⟨rfl, rfl⟩, ⟨rfl, rfl, rfl, rfl, rfl⟩, ⟨rfl, rfl⟩,
      rfl, rfl, rfl, rfl⟩
  obtain ⟨x₀, x₁, x₂, x₃, x₄, hx₀, hx₁, hx₂, hx₃, hx₄, ⟨hw0, hown0⟩,
    ⟨hw1, hown1, hrec1, hjob, hex⟩, ⟨hw2, hown2⟩, hw3, hown3, hrec3, hlogin⟩ := hrun
  have horder1 : LastInOrder x₁ (.copy 0) := by
    -- The second login is still outstanding
    intro w arg i heq hpc hends
    cases heq
    obtain ⟨rfl, -⟩ := HandlerPc.sendUI.inj (hw1.symm.trans hpc)
    obtain ⟨msg₁, hlast, -⟩ := lastLogin_two hrec1
    have hmem := hends.1 1 msg₁ hlast.1 (by rw [hjob]; decide)
    rw [hex] at hmem
    cases hmem
  have horder3 : LastInOrder x₃ (.copy 1) := by
    intro w arg i heq hpc _ p msg hlast
    cases heq
    obtain ⟨rfl, -⟩ := HandlerPc.sendUI.inj (hw3.symm.trans hpc)
    obtain rfl := ofBuffer_lastLogin hrec3 hlast
    exact ⟨fun m hm => by rw [Option.some.inj (hlogin.symm.trans hm)], rfl⟩
  have hreach : Transition.Reach logged (fun x a => x.1.OwnSlot a ∧ LastInOrder x a) x₄ :=
    .step (.step (.step (.step (reach_twoLogins hx₀)
      ⟨ownSlot_of_owner hw0 hown0, lastInOrder_userId hw0⟩ hx₁)
      ⟨ownSlot_of_owner hw1 hown1, horder1⟩ hx₂)
      ⟨ownSlot_of_owner hw2 hown2, lastInOrder_userId hw2⟩ hx₃)
      ⟨ownSlot_of_owner hw3 hown3, horder3⟩ hx₄
  have hall := Transition.System.run_snoc (Transition.System.run_snoc
    (Transition.System.run_snoc (Transition.System.run_snoc hx₀ hx₁) hx₂) hx₃) hx₄
  exact ⟨x₄, hall, last_login_stored hreach⟩

/-- A handler stays where it is in a run of other threads. -/
private theorem handlers_run {x x' : Server × JobLog} {v : Nat} {as : List Action}
    (has : ∀ a ∈ as, a.handler ≠ some v ∧ a ≠ .worker (.execute v))
    (hr : logged.run x as = some x') : x'.1.handlers v = x.1.handlers v := by
  induction as generalizing x with
  | nil => rw [Option.some.inj hr]
  | cons a as ih =>
    obtain ⟨y, hy, hr⟩ := Transition.System.run_cons_some hr
    obtain ⟨ha, hexec⟩ := has a List.mem_cons_self
    have hfirst := handlers_step_of_ne ha hexec (Transition.System.withHistory_step hy).1
    exact (ih (fun b hb => has b (List.mem_cons_of_mem a hb)) hr).trans hfirst

set_option maxRecDepth 100000 in
/-- The worker that took the second login copies to the slot before the one that took the
    first. -/
theorem last_login_stored_fails :
    ¬ ∀ x : Server × JobLog, Transition.Reach logged (fun x a => x.1.OwnSlot a) x →
      LastLoginStored x := by
  intro h
  have hrun : ∃ x₀ x₁ x₂ x₃ x₄ : Server × JobLog,
      logged.run (start 0, {}) twoLoginsRun = some x₀ ∧ logged.step x₀ (.copy 1) = some x₁ ∧
      logged.step x₁ (.copy 1) = some x₂ ∧ logged.step x₂ (.copy 0) = some x₃ ∧
      logged.step x₃ (.copy 0) = some x₄ ∧
      (x₀.1.handlers 1 = .sendUI (.received (sendUIBytes [98]) 5 0) 0 .userId ∧
        x₀.1.owner = Function.update (fun _ => none) 0 (some 0)) ∧
      (x₁.1.handlers 1 = .sendUI (.received (sendUIBytes [98]) 5 0) 0 .passwd ∧
        x₁.1.owner = Function.update (fun _ => none) 0 (some 0)) ∧
      (x₂.1.handlers 0 = .sendUI (.received (sendUIBytes [97]) 5 0) 0 .userId ∧
        x₂.1.owner = Function.update (fun _ => none) 0 (some 0)) ∧
      (x₃.1.handlers 0 = .sendUI (.received (sendUIBytes [97]) 5 0) 0 .passwd ∧
        x₃.1.owner = Function.update (fun _ => none) 0 (some 0)) ∧
      (x₄.1.handlers 0 = .done ∧ x₄.1.handlers 1 = .done) ∧ x₄.1.owner 0 = some 0 ∧
        (x₄.1.table 0).usrhashId.str = [97] ∧ x₄.2.received = twoLogins ∧
        x₄.2.executed = [0, 1] :=
    ⟨_, _, _, _, _, rfl, rfl, rfl, rfl, rfl, ⟨rfl, rfl⟩, ⟨rfl, rfl⟩, ⟨rfl, rfl⟩, ⟨rfl, rfl⟩,
      ⟨rfl, rfl⟩, rfl, rfl, rfl, rfl⟩
  -- Worker 1 runs the second login first
  obtain ⟨x₀, x₁, x₂, x₃, x₄, hx₀, hx₁, hx₂, hx₃, hx₄, ⟨hw0, hown0⟩, ⟨hw1, hown1⟩, ⟨hw2, hown2⟩,
    ⟨hw3, hown3⟩, ⟨hdone0, hdone1⟩, howner, hid, hrec, hex⟩ := hrun
  have hreach : Transition.Reach logged (fun x a => x.1.OwnSlot a) x₄ :=
    .step (.step (.step (.step ((reach_twoLogins hx₀).mono fun _ _ => And.left)
      (ownSlot_of_owner hw0 hown0) hx₁) (ownSlot_of_owner hw1 hown1) hx₂)
      (ownSlot_of_owner hw2 hown2) hx₃) (ownSlot_of_owner hw3 hown3) hx₄
  have hall := Transition.System.run_snoc (Transition.System.run_snoc
    (Transition.System.run_snoc (Transition.System.run_snoc hx₀ hx₁) hx₂) hx₃) hx₄
  have hidle : ¬ x₄.1.Storing 0 := by
    rintro ⟨i, v, arg, hpc, -⟩
    by_cases hv : v = 0 ∨ v = 1
    · rcases hv with rfl | rfl
      · cases hdone0.symm.trans hpc
      · cases hdone1.symm.trans hpc
    · -- No other handler takes a step in the run
      have hentered := handlers_run (v := v) (by
        have hv0 : v ≠ 0 := fun heq => hv (.inl heq)
        have hv1 : v ≠ 1 := fun heq => hv (.inr heq)
        simp [twoLoginsRun, acceptRun, fillRun, receiveRun, takeJobRun, Action.handler, hv0.symm,
          hv1.symm]) hall
      cases hentered.symm.trans hpc
  obtain ⟨msg, hlast, hmsg⟩ := lastLogin_two hrec
  have hstored := (h x₄ hreach 0 0 1 msg howner hlast
    (allExecuted_two hrec (by rw [hex]; decide) (by rw [hex]; decide)) hidle).1
  rw [hid, hmsg] at hstored
  exact absurd hstored (by decide)

/-- The condition excludes nothing but violations: when the last outstanding login of a
    connection ends, and the user id copied last or its password is not that of the login
    received last, the slot of the connection stores something else. -/
theorem overtaken_login_fails {x x' : Server × JobLog} {w : Nat} {arg : JobParameter}
    {i : Fin maxEvents} {msg : SendUIMessage} {p : Nat}
    (h : Transition.Reach logged (fun x a => x.1.OwnSlot a) x)
    (hpc : x.1.handlers w = .sendUI arg i .passwd) (hparam : x.1.parameter w ≠ none)
    (howner : x.1.owner i = some arg.conn) (hends : EndsLogins x w arg)
    (hlast : x.2.LastLogin arg.conn p msg)
    (hne : ¬ ((∀ m, x.1.login .userId arg.conn = some m → m.userId.str = msg.userId.str) ∧
      (SendUIMessage.ofBuffer arg.recvBuffer).passwd.str = msg.passwd.str))
    (hs : logged.step x (.copy w) = some x') : ¬ LastLoginStored x' := by
  intro hstored
  obtain ⟨hs, hr⟩ := Transition.System.withHistory_step hs
  obtain ⟨parameter, hjob⟩ := Option.ne_none_iff_exists'.mp hparam
  -- The step logs the job and stores its password
  have hlog : x'.2 = { x.2 with executed := x.2.running w :: x.2.executed } := by
    rw [hr]
    simp only [recordJobs, hpc, hjob]
  have hcopy : x'.1 = (x.1.storeField arg i .passwd).setHandler w .done := by
    obtain ⟨arg', i', field, hpc', hcopy⟩ := copy_step hs
    obtain ⟨rfl, rfl, rfl⟩ := HandlerPc.sendUI.inj (hpc.symm.trans hpc')
    rw [hcopy]
    simp only [copyStep, hjob, SendUIField.next]
  have hidle : ¬ x'.1.Storing arg.conn := by
    rintro ⟨j, v, arg', hv, hconn⟩
    rw [hcopy] at hv
    by_cases hvw : v = w
    · rw [hvw, setHandler_self] at hv
      cases hv
    · simp only [setHandler, Function.update_of_ne hvw] at hv
      exact hends.2 v arg' j hvw hv hconn
  have hall : x'.2.AllExecuted arg.conn := by
    rw [hlog]
    intro q m hq
    by_cases hqw : q = x.2.running w
    · exact hqw ▸ List.mem_cons_self
    · exact List.mem_cons_of_mem _ (hends.1 q m hq hqw)
  obtain ⟨huserId, hpasswd⟩ := hstored i arg.conn p msg (by rw [hcopy]; exact howner)
    (by rw [hlog]; exact hlast) hall hidle
  refine hne ⟨fun m hm => ?_, ?_⟩
  · have hold : (x.1.table i).usrhashId.str = m.userId.str :=
      (idInv_of_reach (h.forget fun _ _ => id)).identity .userId i arg.conn m howner hm
    have hsame : (x'.1.table i).usrhashId.str = (x.1.table i).usrhashId.str := by
      rw [hcopy]
      exact stored_storeField_of_ne .passwd .userId (.inl (by decide))
    rw [← hold, ← hsame, huserId]
  · rw [← hpasswd, hcopy]
    exact (stored_storeField_self arg i .passwd).symm

end Server

end JQServer
