import JQServer.Native.SqlPool

/-!
# Closing the database connections

`sql_pool_destroy` closes the connection that each node has at the end. Connections are
opened by `mysql_real_connect` and nothing but `sql_pool_destroy` closes them, so all of
them are closed exactly if no node has lost one: if the pool is `Held`. A node loses its
connection when `create_connect` is called for it again, after a failed ping or
`check_sql_sock_normal`: `mysql_init` makes a fresh handle of one that has a connection.

The functions are called one after the other here: all moves are one thread's.
-/

namespace JQServer

/-- The node whose handle has just been made fresh. -/
def SqlPc.fresh (poolNumber : Nat) : SqlPc → Option Nat
  | .inGet scan .mutexInit | .inGet scan .realConnect => some (scan.index poolNumber)
  | _ => none

namespace SqlPool

/-- Every connection that was opened has been closed. -/
def AllClosed (s : SqlPool) : Prop := ∀ c < s.opened, c ∈ s.closed

/-- `mysql_init` makes a fresh handle only where the handle has no connection. -/
def HandleFree (s : SqlPool) : Nat × Move → Prop
  | (t, .next true) =>
    match s.pc t with
    | .inGet scan .mysqlInit => (s.sqlPool (scan.index s.poolNumber)).fd = none
    | _ => True
  | _ => True

/-- Every connection that was opened is one of a node. -/
def Held (s : SqlPool) : Prop := ∀ c < s.opened, ∃ i, (s.sqlPool i).fd = some c

/-- The handles of the first `n` nodes: a connection is that of one node, which refers to
    its handle. Nothing has been closed. -/
structure Handles (n : Nat) (s : SqlPool) : Prop where
  closed : s.closed = []
  node : ∀ i c, (s.sqlPool i).fd = some c →
    i < n ∧ c < s.opened ∧ (s.sqlPool i).mysqlSock = true
  one : ∀ i j c, (s.sqlPool i).fd = some c → (s.sqlPool j).fd = some c → i = j

/-- The connections are the same, and nodes that have one refer to their handles still. -/
structure SameHandles (s s' : SqlPool) : Prop where
  poolNumber : s'.poolNumber = s.poolNumber
  closed : s'.closed = s.closed
  opened : s'.opened = s.opened
  fd : ∀ i, (s'.sqlPool i).fd = (s.sqlPool i).fd
  mysqlSock : ∀ i, (s.sqlPool i).fd ≠ none → (s'.sqlPool i).mysqlSock = (s.sqlPool i).mysqlSock

/-- The thread that calls the functions is past `mysql_init` only with a handle that has no
    connection. -/
structure Caller (t : Nat) (s : SqlPool) : Prop where
  pos : 0 < s.poolNumber
  handles : s.Handles s.poolNumber
  fresh : ∀ i, (s.pc t).fresh s.poolNumber = some i → (s.sqlPool i).fd = none

variable {s s' : SqlPool} {n i t : Nat} {scan : SqlScan} {place : GetPlace} {ok : Bool}

/-! ### The same handles -/

theorem SameHandles.refl : s.SameHandles s := ⟨rfl, rfl, rfl, fun _ => rfl, fun _ _ => rfl⟩

/-- A write to a node, not to its handle. -/
theorem SameHandles.setNode {node : SqlSockNode} (hfd : node.fd = (s.sqlPool i).fd)
    (hsock : (s.sqlPool i).fd ≠ none → node.mysqlSock = (s.sqlPool i).mysqlSock) :
    s.SameHandles (s.setNode i node) := by
  refine ⟨rfl, rfl, rfl, setNode_field _ _ _ SqlSockNode.fd hfd, fun j hj => ?_⟩
  by_cases hji : j = i
  · rw [hji] at hj
    rw [hji, setNode_sqlPool_self, hsock hj]
  · rw [setNode_sqlPool_of_ne _ _ _ hji]

/-- Other threads and holders. -/
theorem SameHandles.others (h : s.SameHandles s') (pc : Nat → SqlPc) (holders : Nat → List Nat) :
    s.SameHandles { s' with pc := pc, holders := holders } :=
  ⟨h.poolNumber, h.closed, h.opened, h.fd, h.mysqlSock⟩

theorem SameHandles.held (h : s.SameHandles s') : s'.Held ↔ s.Held := by
  simp only [Held, h.opened, h.fd]

theorem Handles.same (h : s.Handles n) (hsame : s.SameHandles s') : s'.Handles n := by
  refine ⟨hsame.closed.trans h.closed, fun i c hi => ?_, fun i j c hi hj => ?_⟩
  · rw [hsame.fd] at hi
    obtain ⟨hlt, hc, hsock⟩ := h.node i c hi
    rw [hsame.opened, hsame.mysqlSock i (by rw [hi]; exact nofun)]
    exact ⟨hlt, hc, hsock⟩
  · rw [hsame.fd] at hi hj
    exact h.one i j c hi hj

theorem SameHandles.setConnState : s.SameHandles (s.setConnState i ok) := by
  cases ok with
  | false => exact .setNode rfl fun _ => rfl
  | true => exact .setNode rfl fun _ => rfl

theorem Handles.mono {m : Nat} (h : s.Handles n) (hle : n ≤ m) : s.Handles m := by
  refine ⟨h.closed, fun i c hi => ?_, h.one⟩
  obtain ⟨hlt, hnode⟩ := h.node i c hi
  exact ⟨Nat.lt_of_lt_of_le hlt hle, hnode⟩

/-! ### `create_connect` -/

/-- A fresh handle has no connection; the others keep theirs. -/
theorem fd_mysqlInit (s : SqlPool) (i j : Nat) :
    ((s.mysqlInit i).sqlPool j).fd = if j = i then none else (s.sqlPool j).fd := by
  split
  · rename_i hji
    rw [hji, mysqlInit, setNode_sqlPool_self]
  · rename_i hji
    rw [mysqlInit, setNode_sqlPool_of_ne _ _ _ hji]

/-- A connection after `mysql_init` is one from before, of another node. -/
theorem fd_of_mysqlInit {j c : Nat} (h : ((s.mysqlInit i).sqlPool j).fd = some c) :
    j ≠ i ∧ (s.sqlPool j).fd = some c := by
  rw [fd_mysqlInit] at h
  split at h
  · cases h
  · exact ⟨‹_›, h⟩

theorem Handles.mysqlInit (h : s.Handles n) : (s.mysqlInit i).Handles n := by
  refine ⟨h.closed, fun j c hj => ?_, fun j k c hj hk => ?_⟩
  · obtain ⟨hji, hj⟩ := fd_of_mysqlInit hj
    have hnode := h.node j c hj
    rw [SqlPool.mysqlInit, setNode_sqlPool_of_ne _ _ _ hji, setNode_opened]
    exact hnode
  · exact h.one j k c (fd_of_mysqlInit hj).2 (fd_of_mysqlInit hk).2

/-- No connection is lost exactly if the handle had none. -/
theorem Handles.held_mysqlInit (h : s.Handles n) :
    (s.mysqlInit i).Held ↔ s.Held ∧ (s.sqlPool i).fd = none := by
  constructor
  · intro hheld
    refine ⟨fun c hc => ?_, ?_⟩
    · obtain ⟨j, hj⟩ := hheld c hc
      exact ⟨j, (fd_of_mysqlInit hj).2⟩
    · -- The connection of the handle would be that of another node
      by_contra hfd
      obtain ⟨c, hc⟩ := Option.ne_none_iff_exists'.mp hfd
      obtain ⟨j, hj⟩ := hheld c (h.node i c hc).2.1
      obtain ⟨hji, hj⟩ := fd_of_mysqlInit hj
      exact hji (h.one j i c hj hc)
  · rintro ⟨hheld, hfd⟩ c hc
    obtain ⟨j, hj⟩ := hheld c hc
    refine ⟨j, ?_⟩
    rw [fd_mysqlInit, if_neg, hj]
    rintro rfl
    rw [hfd] at hj
    cases hj

/-- The handle gets the new connection. -/
theorem fd_realConnect (s : SqlPool) (i j : Nat) :
    ((s.realConnect i true).sqlPool j).fd = if j = i then some s.opened else (s.sqlPool j).fd := by
  show (Function.update s.sqlPool i _ j).fd = _
  split
  · rename_i hji
    rw [hji, Function.update_self]
  · rename_i hji
    rw [Function.update_of_ne hji]

theorem Handles.realConnect (h : s.Handles n) (hi : i < n) :
    (s.realConnect i true).Handles n := by
  -- A connection is the new one or one of another node
  have hnew : ∀ j c, ((s.realConnect i true).sqlPool j).fd = some c →
      j = i ∧ c = s.opened ∨ j ≠ i ∧ (s.sqlPool j).fd = some c := by
    intro j c hj
    rw [fd_realConnect] at hj
    split at hj
    · exact .inl ⟨‹_›, (Option.some.inj hj).symm⟩
    · exact .inr ⟨‹_›, hj⟩
  refine ⟨h.closed, fun j c hj => ?_, fun j k c hj hk => ?_⟩
  · rcases hnew j c hj with ⟨rfl, rfl⟩ | ⟨hji, hj⟩
    · refine ⟨hi, Nat.lt_succ_self _, ?_⟩
      show (Function.update s.sqlPool j _ j).mysqlSock = true
      rw [Function.update_self]
    · obtain ⟨hlt, hc, hsock⟩ := h.node j c hj
      refine ⟨hlt, Nat.lt_succ_of_lt hc, ?_⟩
      show (Function.update s.sqlPool i _ j).mysqlSock = true
      rw [Function.update_of_ne hji, hsock]
  · -- The number of the new connection is not used yet
    rcases hnew j c hj with ⟨rfl, rfl⟩ | ⟨hji, hj⟩
    · rcases hnew k s.opened hk with ⟨rfl, -⟩ | ⟨-, hk⟩
      · rfl
      · exact absurd (h.node k _ hk).2.1 (Nat.lt_irrefl _)
    · rcases hnew k c hk with ⟨-, rfl⟩ | ⟨-, hk⟩
      · exact absurd (h.node j _ hj).2.1 (Nat.lt_irrefl _)
      · exact h.one j k c hj hk

theorem held_realConnect (hfd : (s.sqlPool i).fd = none) :
    (s.realConnect i true).Held ↔ s.Held := by
  constructor
  · intro hheld c hc
    obtain ⟨j, hj⟩ := hheld c (Nat.lt_succ_of_lt hc)
    rw [fd_realConnect] at hj
    split at hj
    · exact absurd (Option.some.inj hj).symm (Nat.ne_of_lt hc)
    · exact ⟨j, hj⟩
  · intro hheld c hc
    rcases Nat.lt_succ_iff_lt_or_eq.mp hc with hlt | rfl
    · obtain ⟨j, hj⟩ := hheld c hlt
      refine ⟨j, ?_⟩
      rw [fd_realConnect, if_neg, hj]
      rintro rfl
      rw [hfd] at hj
      cases hj
    · exact ⟨i, by rw [fd_realConnect, if_pos rfl]⟩

/-! ### Creation -/

/-- `create_connect` of a node without a connection loses none. -/
theorem Handles.createConnect (h : s.Handles n) (hi : i < n) (hfd : (s.sqlPool i).fd = none)
    (connect : Bool) : (s.createConnect i true connect).2.Handles n ∧
      ((s.createConnect i true connect).2.Held ↔ s.Held) := by
  -- The handle is as it was when `mysql_real_connect` is called
  have hinit : s.SameHandles (s.mysqlInit i) := .setNode hfd.symm fun hne => absurd hfd hne
  have hmutex : (s.mysqlInit i).SameHandles ((s.mysqlInit i).mutexInit i) :=
    .setNode rfl fun _ => rfl
  have hs₁ := (h.same hinit).same hmutex
  have hheld₁ : ((s.mysqlInit i).mutexInit i).Held ↔ s.Held := hmutex.held.trans hinit.held
  have hfd₁ : (((s.mysqlInit i).mutexInit i).sqlPool i).fd = none := by
    rw [hmutex.fd, hinit.fd, hfd]
  have hconnect : (((s.mysqlInit i).mutexInit i).realConnect i connect).Handles n ∧
      ((((s.mysqlInit i).mutexInit i).realConnect i connect).Held ↔ s.Held) := by
    cases connect with
    | false =>
      have hfail : ((s.mysqlInit i).mutexInit i).SameHandles
          (((s.mysqlInit i).mutexInit i).realConnect i false) :=
        .setNode rfl fun hne => absurd hfd₁ hne
      exact ⟨hs₁.same hfail, hfail.held.trans hheld₁⟩
    | true => exact ⟨hs₁.realConnect hi, (held_realConnect hfd₁).trans hheld₁⟩
  exact ⟨hconnect.1.same .setConnState, SameHandles.setConnState.held.trans hconnect.2⟩

/-- Every connection of a pool that was created is one of a node. -/
theorem createLoop_handles {outcomes : List (Bool × Bool)} (h : s.Handles s.poolNumber)
    (hheld : s.Held) (hcreate : s.createLoop outcomes = (0, s')) :
    s'.Handles s'.poolNumber ∧ s'.Held ∧ s'.poolNumber = s.poolNumber + outcomes.length := by
  induction outcomes generalizing s with
  | nil =>
    obtain rfl : s = s' := congrArg Prod.snd hcreate
    exact ⟨h, hheld, rfl⟩
  | cons outcome outcomes ih =>
    obtain ⟨init, connect⟩ := outcome
    cases init with
    | false => simp [createLoop, SqlPool.createConnect] at hcreate
    | true =>
      -- The next node has no connection yet
      have hfd : (s.sqlPool s.poolNumber).fd = none := by
        by_contra hne
        obtain ⟨c, hc⟩ := Option.ne_none_iff_exists'.mp hne
        exact absurd (h.node _ c hc).1 (Nat.lt_irrefl _)
      have hn : (s.createConnect s.poolNumber true connect).2.poolNumber = s.poolNumber := by
        cases connect <;> rfl
      have hret : (s.createConnect s.poolNumber true connect).1 ≠ -1 := by
        cases connect
        · show (1 : Int) ≠ -1
          decide
        · show (0 : Int) ≠ -1
          decide
      obtain ⟨hs', hheld'⟩ :=
        (h.mono (Nat.le_succ _)).createConnect (Nat.lt_succ_self _) hfd connect
      simp only [createLoop, if_neg hret, hn] at hcreate
      have hnext : Handles (s.poolNumber + 1)
          { (s.createConnect s.poolNumber true connect).2 with poolNumber := s.poolNumber + 1 } :=
        ⟨hs'.closed, hs'.node, hs'.one⟩
      have hheldnext : Held
          { (s.createConnect s.poolNumber true connect).2 with poolNumber := s.poolNumber + 1 } :=
        hheld'.mpr hheld
      obtain ⟨h₁, h₂, h₃⟩ := ih hnext hheldnext hcreate
      refine ⟨h₁, h₂, h₃.trans ?_⟩
      simp only [List.length_cons]
      omega

/-- A pool that was created. -/
theorem Created.caller (h : s.Created) (t : Nat) : s.Caller t ∧ s.Held := by
  obtain ⟨outcomes, hpos, -, hcreate⟩ := h
  have hstart : start.Handles start.poolNumber := ⟨rfl, nofun, nofun⟩
  obtain ⟨hh, hheld, hn⟩ := createLoop_handles hstart nofun hcreate
  refine ⟨⟨?_, hh, fun i hi => ?_⟩, hheld⟩
  · rw [hn]
    exact Nat.lt_of_lt_of_le hpos (Nat.le_add_left _ _)
  · rw [(createLoop_threads hcreate).1] at hi
    cases hi

/-! ### Steps and runs -/

/-- A step that keeps the handles. -/
theorem Caller.same (h : s.Caller t) (hsame : s.SameHandles s')
    (hfresh : ∀ i, (s'.pc t).fresh s.poolNumber = some i → (s.sqlPool i).fd = none) :
    s'.Caller t ∧ (s'.Held ↔ s.Held) := by
  have hn := hsame.poolNumber
  refine ⟨⟨hn ▸ h.pos, hn ▸ h.handles.same hsame, fun i hi => ?_⟩, hsame.held⟩
  rw [hn] at hi
  rw [hsame.fd]
  exact hfresh i hi

/-- A step that keeps the handles, after which the thread goes on. -/
theorem Caller.keep (h : s.Caller t) (hsame : s.SameHandles s') {pc : SqlPc}
    (hfresh : ∀ i, pc.fresh s.poolNumber = some i → (s.sqlPool i).fd = none) :
    (s'.goto t pc).Caller t ∧ ((s'.goto t pc).Held ↔ s.Held) := by
  refine h.same (hsame.others _ _) fun i hi => hfresh i ?_
  rwa [goto_pc_self] at hi

/-- `mysql_init` succeeds. -/
theorem Caller.mysqlInit (h : s.Caller t) :
    ((s.mysqlInit (scan.index s.poolNumber)).goto t (.inGet scan .mutexInit)).Caller t ∧
      (((s.mysqlInit (scan.index s.poolNumber)).goto t (.inGet scan .mutexInit)).Held ↔
        s.Held ∧ (s.sqlPool (scan.index s.poolNumber)).fd = none) := by
  have hinit := h.handles.mysqlInit (i := scan.index s.poolNumber)
  refine ⟨⟨h.pos, ⟨hinit.closed, hinit.node, hinit.one⟩, fun i hi => ?_⟩, h.handles.held_mysqlInit⟩
  rw [goto_pc_self] at hi
  obtain rfl := Option.some.inj hi
  rw [goto_sqlPool, fd_mysqlInit]
  exact if_pos rfl

/-- `mysql_real_connect` succeeds. -/
theorem Caller.realConnect (h : s.Caller t) (hpc : s.pc t = .inGet scan .realConnect) :
    ((s.realConnect (scan.index s.poolNumber) true).goto t (.inGet scan .connected)).Caller t ∧
      (((s.realConnect (scan.index s.poolNumber) true).goto t (.inGet scan .connected)).Held ↔
        s.Held) := by
  have hfd : (s.sqlPool (scan.index s.poolNumber)).fd = none := h.fresh _ (by rw [hpc]; rfl)
  have hconnect := h.handles.realConnect (i := scan.index s.poolNumber) (Nat.mod_lt _ h.pos)
  refine ⟨⟨h.pos, ⟨hconnect.closed, hconnect.node, hconnect.one⟩, fun i hi => ?_⟩,
    held_realConnect hfd⟩
  rw [goto_pc_self] at hi
  cases hi

/-- A step of `get_db_connect_from_pool`. -/
theorem Caller.getStep (h : s.Caller t) (hpc : s.pc t = .inGet scan place) :
    (s.getStep t scan ok place).Caller t ∧
      ((s.getStep t scan ok place).Held ↔ s.Held ∧ s.HandleFree (t, .next ok)) := by
  -- Only `mysql_init` can lose a connection
  have hother (hne : place ≠ .mysqlInit) {s' : SqlPool} (hs' : s'.Caller t ∧ (s'.Held ↔ s.Held)) :
      s'.Caller t ∧ (s'.Held ↔ s.Held ∧ s.HandleFree (t, .next ok)) := by
    refine ⟨hs'.1, hs'.2.trans (and_iff_left ?_).symm⟩
    cases ok with
    | false => trivial
    | true =>
      simp only [HandleFree, hpc]
      split
      · rename_i heq
        exact absurd (SqlPc.inGet.inj heq).2 hne
      · trivial
  cases place with
  | trylock =>
    simp only [SqlPool.getStep]
    split
    · split
      · exact hother nofun (h.keep .refl nofun)
      · refine hother nofun (h.keep ?_ ?_)
        · exact .setNode rfl fun _ => rfl
        · exact nofun
    · exact hother nofun (h.keep .refl nofun)
  | state =>
    refine hother nofun (h.keep .refl fun i hi => ?_)
    split at hi
    · cases hi
    · cases hi
  | mysqlInit =>
    cases ok with
    | false =>
      have hkeep := h.keep (t := t) .refl
        (show ∀ i, (SqlPc.inGet scan .clearUsed).fresh s.poolNumber = some i → _ from nofun)
      exact ⟨hkeep.1, hkeep.2.trans (and_iff_left trivial).symm⟩
    | true =>
      simp only [HandleFree, hpc]
      exact h.mysqlInit
  | mutexInit =>
    -- The handle is fresh until `mysql_real_connect`
    refine hother nofun (h.keep ?_ fun i hi => h.fresh i ?_)
    · exact .setNode rfl fun _ => rfl
    · rw [hpc]
      exact hi
  | realConnect =>
    cases ok with
    | true => exact hother nofun (h.realConnect hpc)
    | false =>
      -- `mysql_sock` is NULL, but the handle has no connection either
      refine hother nofun (h.keep ?_ ?_)
      · refine .setNode rfl fun hne => absurd (h.fresh _ ?_) hne
        rw [hpc]
        rfl
      · exact nofun
  | connected | connectFailed =>
    refine hother nofun (h.keep ?_ ?_)
    · exact .setConnState
    · exact nofun
  | ping reconnected =>
    cases ok with
    | false => exact hother nofun (h.keep .refl nofun)
    | true => exact hother nofun (h.keep .refl nofun)
  | pingFailed | clearUsed | unlock =>
    refine hother nofun (h.keep ?_ ?_)
    · exact .setNode rfl fun _ => rfl
    · exact nofun
  | markUsed =>
    refine hother nofun (h.same ?_ fun i hi => ?_)
    · have hused : s.SameHandles (s.setNode (scan.index s.poolNumber)
          { s.sqlPool (scan.index s.poolNumber) with used := true }) := .setNode rfl fun _ => rfl
      exact hused.others _ _
    · simp [SqlPool.getStep, goto, SqlPc.fresh] at hi

/-- A step loses no connection exactly if it makes no fresh handle of one that has a
    connection. -/
theorem Caller.step {m : Move} (h : s.Caller t) (hs : s.step (t, m) = some s') :
    s'.Caller t ∧ (s'.Held ↔ s.Held ∧ s.HandleFree (t, m)) := by
  -- A call starts without the MySQL library
  have hother (hm : ∀ ok, m ≠ .next ok) (hs' : s'.Caller t ∧ (s'.Held ↔ s.Held)) :
      s'.Caller t ∧ (s'.Held ↔ s.Held ∧ s.HandleFree (t, m)) := by
    refine ⟨hs'.1, hs'.2.trans (and_iff_left ?_).symm⟩
    cases m with
    | next ok => exact absurd rfl (hm ok)
    | _ => trivial
  cases m with
  | getDbConnectFromPool startIndex =>
    obtain ⟨-, hs⟩ := Option.ite_none_right_eq_some.mp hs
    obtain rfl := Option.some.inj hs
    exact hother nofun (h.keep .refl nofun)
  | releaseSockToSqlPool i =>
    obtain ⟨-, hs⟩ := Option.ite_none_right_eq_some.mp hs
    obtain rfl := Option.some.inj hs
    refine hother nofun (h.keep ?_ nofun)
    exact .setNode rfl fun _ => rfl
  | checkSqlSockNormal i =>
    obtain ⟨-, hs⟩ := Option.ite_none_right_eq_some.mp hs
    obtain rfl := Option.some.inj hs
    exact hother nofun (h.same (.setNode rfl fun _ => rfl) h.fresh)
  | next ok =>
    simp only [SqlPool.step] at hs
    split at hs
    · cases hs
    · rename_i hpc
      obtain rfl := Option.some.inj hs
      exact h.getStep hpc
    · rename_i i hpc
      obtain rfl := Option.some.inj hs
      have hfree : s.HandleFree (t, .next ok) := by
        cases ok with
        | false => trivial
        | true => simp only [HandleFree, hpc]
      refine (h.same ?_ fun j hj => ?_).imp_right fun hiff => hiff.trans (and_iff_left hfree).symm
      · have hunlock : s.SameHandles (s.setNode i { s.sqlPool i with sqlLock := false }) :=
          .setNode rfl fun _ => rfl
        exact hunlock.others _ _
      · simp [goto, SqlPc.fresh] at hj

/-- A run loses no connection exactly if none of its steps does. -/
theorem Caller.run {moves : List Move} (h : s.Caller t)
    (hs : system.run s (moves.map (Prod.mk t)) = some s') :
    s'.Caller t ∧ (s'.Held ↔ s.Held ∧ system.Meets HandleFree s (moves.map (Prod.mk t))) := by
  induction moves generalizing s with
  | nil =>
    obtain rfl := Option.some.inj hs
    exact ⟨h, (and_iff_left trivial).symm⟩
  | cons m moves ih =>
    -- The first step, then the rest of the run from where it leads
    obtain ⟨s₁, hs₁, hrest⟩ := Transition.System.run_cons_some hs
    obtain ⟨h₁, hiff⟩ := h.step hs₁
    obtain ⟨h', hiff'⟩ := ih h₁ hrest
    refine ⟨h', ?_⟩
    rw [hiff', hiff, and_assoc]
    refine and_congr_right fun _ => and_congr_right fun _ => ?_
    constructor
    · intro hmeets u hu
      rwa [← Option.some.inj (hs₁.symm.trans hu)]
    · exact fun hmeets => hmeets s₁ hs₁

/-! ### `sql_pool_destroy` -/

/-- The connections that are closed by passing over some nodes. -/
theorem mem_closed_destroy (nodes : List Nat) (hnodup : nodes.Nodup) (c : Nat) :
    c ∈ (nodes.foldl destroyNode s).closed ↔
      c ∈ s.closed ∨ ∃ i ∈ nodes, (s.sqlPool i).mysqlSock = true ∧ (s.sqlPool i).fd = some c := by
  induction nodes generalizing s with
  | nil => simp
  | cons i nodes ih =>
    obtain ⟨hi, hnodes⟩ := List.nodup_cons.mp hnodup
    -- The nodes after this one are as they were
    have hother : ∀ j ∈ nodes, (s.destroyNode i).sqlPool j = s.sqlPool j := by
      intro j hj
      have hji : j ≠ i := fun hji => hi (hji ▸ hj)
      rw [destroyNode]
      split
      · exact setNode_sqlPool_of_ne _ _ _ hji
      · exact setNode_sqlPool_of_ne _ _ _ hji
    have hclosed : c ∈ (s.destroyNode i).closed ↔
        c ∈ s.closed ∨ (s.sqlPool i).mysqlSock = true ∧ (s.sqlPool i).fd = some c := by
      rw [destroyNode]
      split
      · rename_i hsock
        simp only [List.mem_append, Option.mem_toList, hsock, true_and]
        exact or_comm
      · rename_i hsock
        simp [hsock]
    rw [List.foldl_cons, ih hnodes, hclosed, or_assoc]
    simp only [List.mem_cons, or_and_right, exists_or, exists_eq_left]
    refine or_congr_right (or_congr_right (exists_congr fun j => and_congr_right fun hj => ?_))
    rw [hother j hj]

/-- Destroying opens nothing. -/
theorem opened_destroy (nodes : List Nat) : (nodes.foldl destroyNode s).opened = s.opened := by
  induction nodes generalizing s with
  | nil => rfl
  | cons i nodes ih =>
    rw [List.foldl_cons, ih, destroyNode]
    split
    · rfl
    · rfl

/-- `sql_pool_destroy` closes everything exactly if every connection is one of a node. -/
theorem Caller.destroy (h : s.Caller t) : s.sqlPoolDestroy.AllClosed ↔ s.Held := by
  have hclosed : ∀ c, c ∈ s.sqlPoolDestroy.closed ↔ ∃ i, (s.sqlPool i).fd = some c := by
    intro c
    rw [sqlPoolDestroy, mem_closed_destroy _ List.nodup_range, h.handles.closed]
    constructor
    · rintro (hc | ⟨i, -, -, hi⟩)
      · cases hc
      · exact ⟨i, hi⟩
    · rintro ⟨i, hi⟩
      obtain ⟨hlt, -, hsock⟩ := h.handles.node i c hi
      exact .inr ⟨i, List.mem_range.mpr hlt, hsock, hi⟩
  have hopened : s.sqlPoolDestroy.opened = s.opened := opened_destroy _
  simp only [AllClosed, Held, hopened, hclosed]

/-- After a successful `sql_pool_create`, any sequence of calls and `sql_pool_destroy`, all
    connections have been closed exactly if `mysql_init` was never given the handle of a
    node that had a connection. -/
theorem connections_closed_iff {moves : List Move} (h : s.Created) (t : Nat)
    (hs : system.run s (moves.map (Prod.mk t)) = some s') :
    s'.sqlPoolDestroy.AllClosed ↔ system.Meets HandleFree s (moves.map (Prod.mk t)) := by
  obtain ⟨hcaller, hheld⟩ := h.caller t
  obtain ⟨hcaller', hiff⟩ := hcaller.run hs
  rw [hcaller'.destroy, hiff]
  exact and_iff_right hheld

/-- The node is returned and released, and its connection is closed in the end. -/
theorem connections_closed_first :
    ∃ s, system.run oneNode ([.getDbConnectFromPool 0, .next true, .next true, .next true,
      .next true, .releaseSockToSqlPool 0, .next true].map (Prod.mk 0)) = some s ∧
      s.sqlPoolDestroy.AllClosed := by
  have hmeets : system.Meets HandleFree oneNode ([.getDbConnectFromPool 0, .next true, .next true,
      .next true, .next true, .releaseSockToSqlPool 0, .next true].map (Prod.mk 0)) :=
    .cons rfl trivial (.cons rfl trivial (.cons rfl trivial (.cons rfl trivial
      (.cons rfl trivial (.cons rfl trivial (.cons rfl trivial .nil))))))
  exact ⟨_, rfl, (connections_closed_iff oneNode_created 0 rfl).mpr hmeets⟩

/-- The ping fails, the next call reconnects: the first connection is not closed. -/
theorem connections_closed_fails :
    ¬ ∀ (s s' : SqlPool) (moves : List Move), s.Created →
      system.run s (moves.map (Prod.mk 0)) = some s' → s'.sqlPoolDestroy.AllClosed := by
  intro h
  have hrun : (system.run oneNode ([.getDbConnectFromPool 0, .next true, .next true, .next false,
      .next true, .next true, .next true, .next true, .getDbConnectFromPool 0, .next true,
      .next true, .next true, .next true, .next true, .next true, .next true, .next true].map
      (Prod.mk 0))).map (fun s => (s.sqlPoolDestroy.opened, s.sqlPoolDestroy.closed)) =
        some (2, [1]) := by
    decide +kernel
  obtain ⟨s, hs, hend⟩ := Option.map_eq_some_iff.mp hrun
  obtain ⟨hopened, hclosed⟩ := Prod.mk.inj hend
  have hmem := h oneNode s _ oneNode_created hs 0 (by rw [hopened]; decide)
  rw [hclosed] at hmem
  exact absurd hmem (by decide)

end SqlPool

end JQServer
