import JQServer.Spec.HandlerAlone
import JQServer.Spec.Login

/-!
# Jobs of different connections

A job is run by `respons_stb_info` on the one table that all workers share. It finds the
slot of its descriptor and writes at most the user id and the password in it, and none of
its commands changes a descriptor, an address or a port. So a login does not change which
slot another job finds, nor what a handshake is answered, and jobs of different
descriptors can be run in any order (`jobs_isolated`). Queries are left out there: they
read what logins write.
-/

namespace JQServer

open CString

namespace Table

/-- `respons_stb_info` run by itself: the table after it and the reply it sends, `none` if
    it follows a NULL slot pointer. -/
def responsStbInfo (t : Table) (arg : JobParameter) : Option (Table × Option Reply) :=
  if arg.fd = -1 then some (t, none)
  else
    match Command.ofBuffer arg.recvBuffer with
    | .sendUI sendUIMsg =>
      (t.getMatchedEventIndexByFd arg.fd).map fun i =>
        (Function.update t i (responsSendUI (t i) sendUIMsg), none)
    | _ => some (t, SharedTable.reply t arg)

/-- Jobs run one after the other: the table at the end, and each job with its reply. -/
def serve (t : Table) : List JobParameter → Option (Table × List (JobParameter × Option Reply))
  | [] => some (t, [])
  | arg :: args =>
    (t.responsStbInfo arg).bind fun (t', r) =>
      (t'.serve args).map fun (t'', rs) => (t'', (arg, r) :: rs)

/-- Slot `i` after a job differs from the slot before in `UsrhashId` and `passwd` at most. -/
def SameButLogin (t t' : Table) (i : Fin maxEvents) : Prop :=
  t' i = { t i with usrhashId := (t' i).usrhashId, passwd := (t' i).passwd }

/-- The descriptor is in the table. -/
def HasFd (t : Table) (fd : Int) : Prop := ∃ i, (t i).connectFd = fd

end Table

/-- A command that does not read what other connections have stored: HANDSHAKE, SENDUI, a
    heartbeat or an unknown one. -/
def Command.Own : Command → Prop
  | .handshake _ | .sendUI _ | .other _ => True
  | .getRemote _ | .getAllUser => False

/-- Jobs on the table `t` are isolated: each changes at most the login of the slot found
    for its descriptor, and jobs with different descriptors that only use their own slot
    give the same table and the same replies in every order. -/
structure Table.Isolated (t : Table) : Prop where
  frame : ∀ arg : JobParameter, t.HasFd arg.fd → ∃ i t' r,
    t.getMatchedEventIndexByFd arg.fd = some i ∧ t.responsStbInfo arg = some (t', r) ∧
    t.SameButLogin t' i ∧ ∀ j, j ≠ i → t' j = t j
  commute : ∀ jobs jobs' : List JobParameter, jobs.Perm jobs' → (jobs.map (·.fd)).Nodup →
    (∀ arg ∈ jobs, t.HasFd arg.fd ∧ (Command.ofBuffer arg.recvBuffer).Own) →
    ∃ t' rs rs', t.serve jobs = some (t', rs) ∧ t.serve jobs' = some (t', rs') ∧ rs.Perm rs'

namespace Table

variable {t t' : Table} {arg arg' : JobParameter} {i : Fin maxEvents}

/-! ### One job -/

/-- A descriptor of the table is found. -/
theorem HasFd.matched {fd : Int} (h : t.HasFd fd) :
    ∃ i, t.getMatchedEventIndexByFd fd = some i := by
  obtain ⟨i, hi⟩ := h
  exact exists_getMatchedEventIndexByFd hi

/-- A job changes at most the login of the slot found for its descriptor. -/
theorem responsStbInfo_frame (h : t.getMatchedEventIndexByFd arg.fd = some i) :
    ∃ t' r, t.responsStbInfo arg = some (t', r) ∧ t.SameButLogin t' i ∧
      ∀ j, j ≠ i → t' j = t j := by
  have hsame : t.SameButLogin t i := rfl
  unfold responsStbInfo
  split
  · exact ⟨t, none, rfl, hsame, fun _ _ => rfl⟩
  · cases Command.ofBuffer arg.recvBuffer with
    | sendUI msg =>
      rw [h]
      refine ⟨_, none, rfl, ?_, fun j hj => Function.update_of_ne hj _ _⟩
      simp only [SameButLogin, Function.update_self, responsSendUI]
    | _ => exact ⟨t, _, rfl, hsame, fun _ _ => rfl⟩

/-- What no job changes: the descriptors, the addresses and the ports. -/
def SameClients (t t' : Table) : Prop :=
  ∀ j, (t' j).connectFd = (t j).connectFd ∧ (t' j).clientIpAddr = (t j).clientIpAddr ∧
    (t' j).clientPort = (t j).clientPort

/-- A job changes no descriptor, address or port. -/
theorem responsStbInfo_sameClients (h : t.getMatchedEventIndexByFd arg.fd = some i)
    {r : Option Reply} (hr : t.responsStbInfo arg = some (t', r)) : t.SameClients t' := by
  obtain ⟨t₁, r₁, heq, hi, hother⟩ := responsStbInfo_frame h
  obtain ⟨rfl, rfl⟩ := Prod.mk.inj (Option.some.inj (heq.symm.trans hr))
  intro j
  by_cases hj : j = i
  · rw [hj, hi]
    exact ⟨rfl, rfl, rfl⟩
  · rw [hother j hj]
    exact ⟨rfl, rfl, rfl⟩

/-- The same slot is found after a job. -/
theorem SameClients.matched (h : t.SameClients t') (fd : Int) :
    t'.getMatchedEventIndexByFd fd = t.getMatchedEventIndexByFd fd := by
  simp only [getMatchedEventIndexByFd, (h _).1]

/-- A descriptor stays in the table. -/
theorem SameClients.hasFd (h : t.SameClients t') {fd : Int} (hfd : t.HasFd fd) : t'.HasFd fd := by
  obtain ⟨i, hi⟩ := hfd
  exact ⟨i, (h i).1.trans hi⟩

/-! ### Two jobs -/

/-- What a job does to the slot found for it. -/
def effect (arg : JobParameter) (c : EpollConnect) : EpollConnect :=
  if arg.fd = -1 then c
  else
    match Command.ofBuffer arg.recvBuffer with
    | .sendUI sendUIMsg => responsSendUI c sendUIMsg
    | _ => c

/-- The reply to a job, if it has a descriptor. -/
def replyTo (t : Table) (arg : JobParameter) : Option Reply :=
  if arg.fd = -1 then none else SharedTable.reply t arg

/-- A job is its effect on one slot and a reply. -/
theorem responsStbInfo_eq (h : t.getMatchedEventIndexByFd arg.fd = some i) :
    t.responsStbInfo arg = some (Function.update t i (effect arg (t i)), t.replyTo arg) := by
  unfold responsStbInfo effect replyTo
  split
  · rw [Function.update_eq_self]
  · unfold SharedTable.reply
    cases Command.ofBuffer arg.recvBuffer with
    | sendUI msg =>
      rw [h]
      rfl
    | _ => simp only [Function.update_eq_self]

/-- The effect of a job changes no descriptor, address or port. -/
theorem sameClients_effect (t : Table) (arg : JobParameter) (i : Fin maxEvents) :
    t.SameClients (Function.update t i (effect arg (t i))) := by
  intro j
  by_cases hj : j = i
  · subst hj
    rw [Function.update_self]
    unfold effect
    split
    · exact ⟨rfl, rfl, rfl⟩
    · cases Command.ofBuffer arg.recvBuffer <;> exact ⟨rfl, rfl, rfl⟩
  · rw [Function.update_of_ne hj]
    exact ⟨rfl, rfl, rfl⟩

/-- Logins of others do not change the reply to a job that only uses its own slot. -/
theorem SameClients.replyTo (h : t.SameClients t') (hown : (Command.ofBuffer arg.recvBuffer).Own) :
    t'.replyTo arg = t.replyTo arg := by
  unfold Table.replyTo SharedTable.reply
  split
  · rfl
  · cases hcmd : Command.ofBuffer arg.recvBuffer with
    | handshake greetings =>
      -- The reply has the address of the slot, which is the same in both tables
      have haddr : ∀ m, responsHandshake t' m = responsHandshake t m := by
        intro m
        cases m with
        | none => rfl
        | some j =>
          simp only [responsHandshake, getClientAddrByIndex, getClientPortByIndex, (h j).2.1,
            (h j).2.2]
      simp only [h.matched, haddr]
    | getRemote grMsg =>
      rw [hcmd] at hown
      exact hown.elim
    | getAllUser =>
      rw [hcmd] at hown
      exact hown.elim
    | sendUI msg => rfl
    | other c => rfl

/-- Jobs with different descriptors give the same table in both orders, and the same
    replies. -/
theorem responsStbInfo_comm (hne : arg.fd ≠ arg'.fd) (hfd : t.HasFd arg.fd)
    (hfd' : t.HasFd arg'.fd) (hown : (Command.ofBuffer arg.recvBuffer).Own)
    (hown' : (Command.ofBuffer arg'.recvBuffer).Own) :
    ∃ t₁ t₂ t₃, t.responsStbInfo arg = some (t₁, t.replyTo arg) ∧
      t₁.responsStbInfo arg' = some (t₃, t.replyTo arg') ∧
      t.responsStbInfo arg' = some (t₂, t.replyTo arg') ∧
      t₂.responsStbInfo arg = some (t₃, t.replyTo arg) := by
  obtain ⟨i, hi⟩ := hfd.matched
  obtain ⟨j, hj⟩ := hfd'.matched
  -- Different descriptors are in different slots
  have hij : i ≠ j := by
    rintro rfl
    exact hne ((getMatchedEventIndexByFd_some hi).symm.trans (getMatchedEventIndexByFd_some hj))
  have hsame := t.sameClients_effect arg i
  have hsame' := t.sameClients_effect arg' j
  have hsecond := responsStbInfo_eq ((hsame.matched arg'.fd).trans hj)
  have hsecond' := responsStbInfo_eq ((hsame'.matched arg.fd).trans hi)
  rw [hsame.replyTo hown', Function.update_of_ne hij.symm] at hsecond
  rw [hsame'.replyTo hown, Function.update_of_ne hij, Function.update_comm hij.symm] at hsecond'
  exact ⟨_, _, _, responsStbInfo_eq hi, hsecond, responsStbInfo_eq hj, hsecond'⟩

/-! ### Any number of jobs -/

/-- The jobs that are run have descriptors in the table and only use their own slots. -/
def Serves (t : Table) (jobs : List JobParameter) : Prop :=
  ∀ arg ∈ jobs, t.HasFd arg.fd ∧ (Command.ofBuffer arg.recvBuffer).Own

/-- Jobs can still be run after another one. -/
private theorem Serves.after {jobs : List JobParameter} (h : t.Serves jobs)
    (hsame : t.SameClients t') : t'.Serves jobs :=
  fun arg harg => ⟨hsame.hasFd (h arg harg).1, (h arg harg).2⟩

/-- A job and then the rest. -/
private theorem serve_cons {r : Option Reply} {jobs : List JobParameter} {t'' : Table}
    {rs : List (JobParameter × Option Reply)} (h : t.responsStbInfo arg = some (t', r))
    (hs : t'.serve jobs = some (t'', rs)) : t.serve (arg :: jobs) = some (t'', (arg, r) :: rs) := by
  simp only [serve, h, Option.bind_some, hs, Option.map_some]

/-- Every list of jobs can be run. -/
private theorem exists_serve {jobs : List JobParameter} (h : t.Serves jobs) :
    ∃ t' rs, t.serve jobs = some (t', rs) := by
  induction jobs generalizing t with
  | nil => exact ⟨t, [], rfl⟩
  | cons arg jobs ih =>
    obtain ⟨i, hi⟩ := (h arg List.mem_cons_self).1.matched
    have hrest : t.Serves jobs := fun a ha => h a (List.mem_cons_of_mem arg ha)
    obtain ⟨t', rs, hs⟩ := ih (hrest.after (t.sameClients_effect arg i))
    exact ⟨t', _, serve_cons (responsStbInfo_eq hi) hs⟩

/-- Every order of the jobs gives the same table and the same replies. -/
theorem serve_perm {jobs jobs' : List JobParameter} (hperm : jobs.Perm jobs')
    (hfds : (jobs.map (·.fd)).Nodup) (h : t.Serves jobs) :
    ∃ t' rs rs', t.serve jobs = some (t', rs) ∧ t.serve jobs' = some (t', rs') ∧ rs.Perm rs' := by
  induction hperm generalizing t with
  | nil => exact ⟨t, [], [], rfl, rfl, .nil⟩
  | cons arg _ ih =>
    obtain ⟨i, hi⟩ := (h arg List.mem_cons_self).1.matched
    have hrest : t.Serves _ := fun a ha => h a (List.mem_cons_of_mem arg ha)
    obtain ⟨t', rs, rs', hs, hs', hrs⟩ := ih (List.nodup_cons.mp hfds).2
      (hrest.after (t.sameClients_effect arg i))
    exact ⟨t', _, _, serve_cons (responsStbInfo_eq hi) hs, serve_cons (responsStbInfo_eq hi) hs',
      hrs.cons _⟩
  | swap x y jobs =>
    -- The two jobs commute, and the rest starts from one table
    have hne : y.fd ≠ x.fd := by
      intro heq
      exact (List.nodup_cons.mp hfds).1 (List.mem_map.mpr ⟨x, List.mem_cons_self, heq.symm⟩)
    have hy := h y List.mem_cons_self
    have hx := h x (List.mem_cons_of_mem y List.mem_cons_self)
    obtain ⟨t₁, t₂, t₃, h1, h2, h3, h4⟩ := responsStbInfo_comm hne hy.1 hx.1 hy.2 hx.2
    obtain ⟨i, hi⟩ := hy.1.matched
    have hsame₁ := responsStbInfo_sameClients hi h1
    obtain ⟨j, hj⟩ := (hsame₁.hasFd hx.1).matched
    have hrest : t.Serves jobs := fun a ha =>
      h a (List.mem_cons_of_mem y (List.mem_cons_of_mem x ha))
    obtain ⟨t', rs, hs⟩ := exists_serve
      ((hrest.after hsame₁).after (responsStbInfo_sameClients hj h2))
    exact ⟨t', _, _, serve_cons h1 (serve_cons h2 hs), serve_cons h3 (serve_cons h4 hs),
      .swap _ _ _⟩
  | trans hp _ ih ih' =>
    obtain ⟨t', rs, rs', hs, hs', hrs⟩ := ih hfds h
    obtain ⟨t'', rs₂, rs'', hs₂, hs'', hrs'⟩ := ih' ((hp.map _).nodup hfds)
      fun arg harg => h arg (hp.mem_iff.mpr harg)
    obtain ⟨rfl, rfl⟩ := Prod.mk.inj (Option.some.inj (hs'.symm.trans hs₂))
    exact ⟨t', rs, rs'', hs, hs'', hrs.trans hrs'⟩

/-- Jobs of different connections are isolated, on every table. -/
theorem jobs_isolated (t : Table) : t.Isolated where
  frame arg h := by
    obtain ⟨i, hi⟩ := h.matched
    obtain ⟨t', r, hr, hlogin, hother⟩ := responsStbInfo_frame hi
    exact ⟨i, t', r, hi, hr, hlogin, hother⟩
  commute _ _ hperm hfds h := serve_perm hperm hfds h

/-- A table with two clients, who have descriptors 5 and 6. -/
def twoClientsTable : Table :=
  Function.update (Function.update initEpollConnect 0 { initEpollConnect 0 with connectFd := 5 })
    1 { initEpollConnect 1 with connectFd := 6 }

/-- A login of the first client and a greeting of the second, in both orders. -/
theorem jobs_isolated_two :
    let login : JobParameter := .received (Packet.sendUI ⟨ascii "ab", by decide, by decide⟩
      ⟨ascii "pw", by decide, by decide⟩).bytes 5 0
    let greeting : JobParameter := .received
      (Packet.handshake ⟨ascii "hello", by decide, by decide⟩).bytes 6 1
    (∃ t' r, twoClientsTable.getMatchedEventIndexByFd 5 = some 0 ∧
      twoClientsTable.responsStbInfo login = some (t', r) ∧ twoClientsTable.SameButLogin t' 0 ∧
      ∀ j, j ≠ 0 → t' j = twoClientsTable j) ∧
    ∃ t' rs rs', twoClientsTable.serve [login, greeting] = some (t', rs) ∧
      twoClientsTable.serve [greeting, login] = some (t', rs') ∧ rs.Perm rs' := by
  intro login greeting
  have hfirst : twoClientsTable.getMatchedEventIndexByFd 5 = some 0 := by
    refine Fin.firstIndex_eq_some_iff.mpr ⟨rfl, fun j hj => ?_⟩
    exact absurd hj (Nat.not_lt_zero _)
  have hlogin : Command.ofBuffer login.recvBuffer = _ := Packet.ofBuffer_bytes _
  have hgreeting : Command.ofBuffer greeting.recvBuffer = _ := Packet.ofBuffer_bytes _
  constructor
  · obtain ⟨i, t', r, hi, hr, hsame, hother⟩ :=
      (jobs_isolated twoClientsTable).frame login ⟨0, rfl⟩
    obtain rfl : (0 : Fin maxEvents) = i := Option.some.inj (hfirst.symm.trans hi)
    exact ⟨t', r, hfirst, hr, hsame, hother⟩
  · refine (jobs_isolated twoClientsTable).commute _ _ (.swap _ _ _) (by decide) fun arg harg => ?_
    rcases List.mem_pair.mp harg with rfl | rfl
    · exact ⟨⟨0, rfl⟩, by rw [hlogin]; trivial⟩
    · exact ⟨⟨1, rfl⟩, by rw [hgreeting]; trivial⟩

end Table

/-! ### The handlers of the other models -/

/-- Up to its reply the handler of the server does this to the table. -/
theorem Server.responsStbInfo_table {s : Server} {arg : JobParameter} {t' : Table}
    {r : Option Reply} (w : Nat) (h : s.table.responsStbInfo arg = some (t', r)) :
    (s.responsStbInfo w arg).table = t' ∧ (s.responsStbInfo w arg).crashed = s.crashed := by
  unfold Table.responsStbInfo at h
  unfold Server.responsStbInfo
  split at h
  · rename_i hfd
    obtain ⟨rfl, -⟩ := Prod.mk.inj (Option.some.inj h)
    rw [if_pos hfd]
    exact ⟨rfl, rfl⟩
  · rename_i hfd
    rw [if_neg hfd]
    cases hcmd : Command.ofBuffer arg.recvBuffer with
    | sendUI msg =>
      -- The two copies together store the message
      simp only [hcmd] at h
      obtain ⟨i, hi, h⟩ := Option.map_eq_some_iff.mp h
      obtain ⟨rfl, -⟩ := Prod.mk.inj h
      simp only [hi, Server.storeFields_table, SendUIMessage.eq_ofBuffer hcmd, true_and]
      rfl
    | handshake greetings | getRemote grMsg | getAllUser | other c =>
      simp only [hcmd] at h
      obtain ⟨rfl, -⟩ := Prod.mk.inj (Option.some.inj h)
      simp only [Server.switchMessageType, hcmd]
      exact ⟨rfl, rfl⟩

/-- After its reply is made the handler leaves the table alone. -/
theorem Server.handlerStep_table {s s' : Server} {w n : Nat} {arg : JobParameter}
    {reply : Reply} {a : Action} (h : s.handlerStep w a (.sending arg reply n) = some s') :
    s'.table = s.table := by
  cases a with
  -- Whatever `write` returns, it moves the handler and adds an effect at most
  | write v r =>
    simp only [handlerStep, writeStep] at h
    split at h
    · rw [← Option.some.inj h]
      rfl
    · rw [← Option.some.inj h]
      rfl
    · rw [← Option.some.inj h]
      rfl
    · obtain ⟨-, h⟩ := Option.ite_none_right_eq_some.mp h
      rw [← Option.some.inj h]
      rfl
    · cases h
  | _ => cases h

namespace SharedTable

variable {s : SharedTable} {w : Nat} {arg : JobParameter} {t' : Table} {r : Option Reply}

/-- Look by look and copy by copy, a worker that runs a job while no other thread steps
    does this to the table and makes this reply. -/
theorem run_responsStbInfo (hidle : s.handlers w = .idle)
    (h : s.table.responsStbInfo arg = some (t', r)) :
    ∃ n s', system.run s (.start w arg :: List.replicate n (.handle w)) = some s' ∧
      s'.table = t' ∧ s'.handlers w = r.elim .idle .replied := by
  unfold Table.responsStbInfo at h
  split at h
  · rename_i hfd
    obtain ⟨rfl, rfl⟩ := Prod.mk.inj (Option.some.inj h)
    refine ⟨0, s.setHandler w .idle, ?_, rfl, Function.update_self ..⟩
    show Option.bind (s.startStep w arg (s.handlers w)) _ = _
    rw [hidle]
    show Option.bind (some (s.setHandler w (if arg.fd = -1 then .idle else _))) _ = _
    rw [if_pos hfd]
    rfl
  · rename_i hfd
    cases hcmd : Command.ofBuffer arg.recvBuffer with
    | sendUI msg =>
      simp only [hcmd] at h
      obtain ⟨i, hi, h⟩ := Option.map_eq_some_iff.mp h
      obtain ⟨rfl, rfl⟩ := Prod.mk.inj h
      have hdispatch : dispatch arg (s.table.getMatchedEventIndexByFd arg.fd) =
          some (.sendUI arg.conn i msg) := by simp only [dispatch, hcmd, hi]
      -- The search for the slot, and then the two copies
      obtain ⟨n, hn⟩ := run_start hidle hfd (alone_searchingFd hdispatch)
      obtain ⟨s', hs', hpc, htable⟩ := run_sendUI (s := s.setHandler w (.sendUI arg.conn i msg))
        (w := w) (Function.update_self ..)
      refine ⟨n + 2, s', ?_, htable, hpc⟩
      rw [List.replicate_add, ← List.cons_append, Transition.System.run_append, hn,
        Option.bind_some]
      exact hs'
    | other c =>
      simp only [hcmd] at h
      obtain ⟨rfl, rfl⟩ := Prod.mk.inj (Option.some.inj h)
      have hdispatch : dispatch arg (s.table.getMatchedEventIndexByFd arg.fd) = some .idle := by
        simp only [dispatch, hcmd]
      obtain ⟨n, hn⟩ := run_start hidle hfd (alone_searchingFd hdispatch)
      refine ⟨n, _, hn, rfl, ?_⟩
      simp only [setHandler, Function.update_self, reply, hcmd, Option.elim_none]
    | handshake _ | getRemote _ | getAllUser =>
      simp only [hcmd] at h
      obtain ⟨rfl, hr⟩ := Prod.mk.inj (Option.some.inj h)
      obtain ⟨rep, hrep⟩ : ∃ rep, reply s.table arg = some rep := by
        simp only [reply, hcmd, Option.some.injEq, exists_eq']
      obtain ⟨n, hn⟩ := run_reply hidle hfd hrep
      refine ⟨n, _, hn, rfl, ?_⟩
      rw [← hr, hrep]
      exact Function.update_self ..

end SharedTable

end JQServer
