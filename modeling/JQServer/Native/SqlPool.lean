import JQServer.ForStd.Transition
import Mathlib.Logic.Function.Basic

/-!
# The pool of database connections (`src/server/sql_pool.c`)

The functions of the pool as threads run them: a step is one look at a node, one write to
it or one call of the MySQL or the mutex library. The outcome of a MySQL call is part of
the step. What the library does to a handle is taken from its manual:

* `mysql_init` makes a handle without a connection of whatever it is given; if it fails
  it leaves the handle alone.
* `mysql_real_connect` opens a connection in the handle and returns the handle, or NULL.
* `mysql_close` closes the connection of the handle.

`pthread_mutex_init` makes the mutex unlocked, and `pthread_mutex_unlock` does so whoever
has locked it. `opened`, `closed` and `holders` are bookkeeping: the connections opened so
far are the numbers below `opened`, and `holders i` are the threads that node `i` was
returned to and that have not released it.
-/

namespace JQServer

/-- `sql_state` -/
inductive SqlState where
  | disconn
  | conn
  deriving DecidableEq

/-- `SQL_SOCK_NODE`. `fd` is the connection that the handle has, if any; `mysql_sock` is
    NULL or the address of `fd`. -/
structure SqlSockNode where
  fd : Option Nat
  mysqlSock : Bool
  sqlLock : Bool
  used : Bool
  sqlState : SqlState
  deriving DecidableEq

/-- After `memset`; a mutex of zeros is unlocked. -/
def SqlSockNode.zero : SqlSockNode :=
  { fd := none, mysqlSock := false, sqlLock := false, used := false, sqlState := .disconn }

/-- `POOL_NUMBER` -/
def poolNumberMax : Nat := 20

/-- Where `get_db_connect_from_pool` is in its loop. -/
structure SqlScan where
  startIndex : Nat
  loopIndex : Nat
  deriving DecidableEq

/-- What a pass of the loop does next. `ping` says whether `create_connect` was called in
    this pass, which the code does not look at. -/
inductive GetPlace where
  | trylock
  | state
  | mysqlInit
  | mutexInit
  | realConnect
  | connected
  | connectFailed
  | ping (reconnected : Bool)
  | pingFailed
  | markUsed
  | clearUsed
  | unlock
  deriving DecidableEq

/-- Where a thread is: outside, in `get_db_connect_from_pool`, or before the unlock of
    `release_sock_to_sql_pool`. -/
inductive SqlPc where
  | idle
  | inGet (scan : SqlScan) (place : GetPlace)
  | inRelease (i : Nat)
  deriving DecidableEq

/-- `sql_sock_pool` and the threads that use it. -/
structure SqlPool where
  poolNumber : Nat
  sqlPool : Nat → SqlSockNode
  pc : Nat → SqlPc
  holders : Nat → List Nat
  opened : Nat
  closed : List Nat

/-- `index` -/
def SqlScan.index (scan : SqlScan) (poolNumber : Nat) : Nat :=
  (scan.startIndex + scan.loopIndex) % poolNumber

/-- `loop_index++` -/
def SqlScan.next (scan : SqlScan) : SqlScan := { scan with loopIndex := scan.loopIndex + 1 }

namespace SqlPool

/-- A write to a node. -/
def setNode (s : SqlPool) (i : Nat) (node : SqlSockNode) : SqlPool :=
  { s with sqlPool := Function.update s.sqlPool i node }

/-- A thread goes on. -/
def goto (s : SqlPool) (t : Nat) (pc : SqlPc) : SqlPool :=
  { s with pc := Function.update s.pc t pc }

section

variable (s : SqlPool) (i t : Nat) (node : SqlSockNode) (pc : SqlPc)

@[simp] theorem setNode_poolNumber : (s.setNode i node).poolNumber = s.poolNumber := rfl

@[simp] theorem setNode_pc : (s.setNode i node).pc = s.pc := rfl

@[simp] theorem setNode_holders : (s.setNode i node).holders = s.holders := rfl

@[simp] theorem setNode_opened : (s.setNode i node).opened = s.opened := rfl

@[simp] theorem setNode_closed : (s.setNode i node).closed = s.closed := rfl

@[simp] theorem setNode_sqlPool_self : (s.setNode i node).sqlPool i = node :=
  Function.update_self ..

theorem setNode_sqlPool_of_ne {j : Nat} (h : j ≠ i) :
    (s.setNode i node).sqlPool j = s.sqlPool j :=
  Function.update_of_ne h ..

theorem setNode_sqlPool (j : Nat) :
    (s.setNode i node).sqlPool j = if j = i then node else s.sqlPool j :=
  Function.update_apply ..

/-- A write that keeps a field of the node. -/
theorem setNode_field {α : Type} (f : SqlSockNode → α) (h : f node = f (s.sqlPool i)) (j : Nat) :
    f ((s.setNode i node).sqlPool j) = f (s.sqlPool j) := by
  by_cases hji : j = i
  · rw [hji, setNode_sqlPool_self, h]
  · rw [setNode_sqlPool_of_ne _ _ _ hji]

@[simp] theorem goto_poolNumber : (s.goto t pc).poolNumber = s.poolNumber := rfl

@[simp] theorem goto_sqlPool : (s.goto t pc).sqlPool = s.sqlPool := rfl

@[simp] theorem goto_holders : (s.goto t pc).holders = s.holders := rfl

@[simp] theorem goto_pc_self : (s.goto t pc).pc t = pc := Function.update_self ..

theorem goto_goto (pc' : SqlPc) : (s.goto t pc).goto t pc' = s.goto t pc' := by
  rw [goto, goto, goto, Function.update_idem]

theorem goto_self : s.goto t (s.pc t) = s := by
  rw [goto, Function.update_eq_self]

theorem goto_pc_of_ne {u : Nat} (h : u ≠ t) : (s.goto t pc).pc u = s.pc u :=
  Function.update_of_ne h ..

end

/-! ### `create_connect` -/

/-- A successful `mysql_init(&node->fd)`. -/
def mysqlInit (s : SqlPool) (i : Nat) : SqlPool := s.setNode i { s.sqlPool i with fd := none }

/-- `pthread_mutex_init(&node->sql_lock, NULL)` -/
def mutexInit (s : SqlPool) (i : Nat) : SqlPool :=
  s.setNode i { s.sqlPool i with sqlLock := false }

/-- `node->mysql_sock = mysql_real_connect(&node->fd, ..)` -/
def realConnect (s : SqlPool) (i : Nat) (ok : Bool) : SqlPool :=
  if ok then
    { s.setNode i { s.sqlPool i with fd := some s.opened, mysqlSock := true } with
      opened := s.opened + 1 }
  else s.setNode i { s.sqlPool i with mysqlSock := false }

/-- The writes after `mysql_real_connect`. -/
def setConnState (s : SqlPool) (i : Nat) (ok : Bool) : SqlPool :=
  if ok then s.setNode i { s.sqlPool i with used := false, sqlState := .conn }
  else s.setNode i { s.sqlPool i with sqlState := .disconn }

/-- `create_connect`, with the outcomes of `mysql_init` and `mysql_real_connect`. -/
def createConnect (s : SqlPool) (i : Nat) (init connect : Bool) : Int × SqlPool :=
  if init then
    (if connect then 0 else 1,
      (((s.mysqlInit i).mutexInit i).realConnect i connect).setConnState i connect)
  else (-1, s)

/-! ### `sql_pool_create`, `sql_pool_destroy` -/

/-- One pass of the loop of `sql_pool_destroy`. -/
def destroyNode (s : SqlPool) (i : Nat) : SqlPool :=
  if (s.sqlPool i).mysqlSock then
    { s.setNode i { s.sqlPool i with fd := none, mysqlSock := false, sqlState := .disconn } with
      closed := (s.sqlPool i).fd.toList ++ s.closed }
  else s.setNode i { s.sqlPool i with sqlState := .disconn }

/-- `sql_pool_destroy` -/
def sqlPoolDestroy (s : SqlPool) : SqlPool := (List.range s.poolNumber).foldl destroyNode s

/-- The loop of `sql_pool_create` from a node on, with the outcomes of the MySQL calls. -/
def createLoop : SqlPool → List (Bool × Bool) → Int × SqlPool
  | s, [] => (0, s)
  | s, (init, connect) :: outcomes =>
    let (ret, s) := s.createConnect s.poolNumber init connect
    if ret = -1 then (-1, s.sqlPoolDestroy)
    else createLoop { s with poolNumber := s.poolNumber + 1 } outcomes

/-- Before `sql_pool_create`. -/
def start : SqlPool where
  poolNumber := 0
  sqlPool _ := .zero
  pc _ := .idle
  holders _ := []
  opened := 0
  closed := []

/-- `sql_pool_create`, as many nodes as outcomes. -/
def sqlPoolCreate (outcomes : List (Bool × Bool)) : Int × SqlPool := createLoop start outcomes

/-- Creating the pool starts no thread and returns no node. -/
theorem createLoop_threads {s s' : SqlPool} {outcomes : List (Bool × Bool)}
    (h : createLoop s outcomes = (0, s')) : s'.pc = s.pc ∧ s'.holders = s.holders := by
  induction outcomes generalizing s with
  | nil =>
    obtain rfl : s = s' := congrArg Prod.snd h
    exact ⟨rfl, rfl⟩
  | cons outcome outcomes ih =>
    obtain ⟨init, connect⟩ := outcome
    cases init with
    | false => simp [createLoop, createConnect] at h
    | true =>
      cases connect with
      | false => simpa [createConnect, mysqlInit, mutexInit, realConnect, setConnState] using ih h
      | true => simpa [createConnect, mysqlInit, mutexInit, realConnect, setConnState] using ih h

/-! ### `get_db_connect_from_pool` -/

/-- The next step of `get_db_connect_from_pool`; `ok` is the outcome of a MySQL call. -/
def getStep (s : SqlPool) (t : Nat) (scan : SqlScan) (ok : Bool) (place : GetPlace) : SqlPool :=
  let i := scan.index s.poolNumber
  let node := s.sqlPool i
  match place with
  | .trylock =>
    if scan.loopIndex < s.poolNumber then
      if node.sqlLock then s.goto t (.inGet scan.next .trylock)
      else (s.setNode i { node with sqlLock := true }).goto t (.inGet scan .state)
    else s.goto t .idle -- NULL is returned
  | .state =>
    s.goto t (.inGet scan (if node.sqlState = .disconn then .mysqlInit else .ping false))
  | .mysqlInit =>
    if ok then (s.mysqlInit i).goto t (.inGet scan .mutexInit)
    else s.goto t (.inGet scan .clearUsed)
  | .mutexInit => (s.mutexInit i).goto t (.inGet scan .realConnect)
  | .realConnect =>
    (s.realConnect i ok).goto t (.inGet scan (if ok then .connected else .connectFailed))
  | .connected => (s.setConnState i true).goto t (.inGet scan (.ping true))
  | .connectFailed => (s.setConnState i false).goto t (.inGet scan .clearUsed)
  | .ping _ => s.goto t (.inGet scan (if ok then .markUsed else .pingFailed))
  | .pingFailed =>
    (s.setNode i { node with sqlState := .disconn }).goto t (.inGet scan .clearUsed)
  | .markUsed =>
    -- The node is returned
    { (s.setNode i { node with used := true }).goto t .idle with
      holders := Function.update s.holders i (t :: s.holders i) }
  | .clearUsed => (s.setNode i { node with used := false }).goto t (.inGet scan .unlock)
  | .unlock => (s.setNode i { node with sqlLock := false }).goto t (.inGet scan.next .trylock)

/-! ### Threads -/

/-- A call of a function of the pool, or the next step of the one that a thread is in. -/
inductive Move where
  | getDbConnectFromPool (startIndex : Nat)
  | releaseSockToSqlPool (i : Nat)
  | checkSqlSockNormal (i : Nat)
  | next (ok : Bool)
  deriving DecidableEq

/-- A thread makes a move. -/
def step (s : SqlPool) : Nat × Move → Option SqlPool
  | (t, .getDbConnectFromPool startIndex) =>
    if s.pc t = .idle ∧ startIndex < s.poolNumber then
      some (s.goto t (.inGet ⟨startIndex, 0⟩ .trylock))
    else none
  | (t, .releaseSockToSqlPool i) =>
    if s.pc t = .idle ∧ i < s.poolNumber then
      some ((s.setNode i { s.sqlPool i with used := false }).goto t (.inRelease i))
    else none
  | (t, .checkSqlSockNormal i) =>
    if s.pc t = .idle ∧ i < s.poolNumber then
      some (s.setNode i { s.sqlPool i with sqlState := .disconn })
    else none
  | (t, .next ok) =>
    match s.pc t with
    | .idle => none
    | .inGet scan place => some (s.getStep t scan ok place)
    | .inRelease i =>
      some { (s.setNode i { s.sqlPool i with sqlLock := false }).goto t .idle with
        holders := Function.update s.holders i ((s.holders i).erase t) }

/-- A successful `sql_pool_create` of 1 to `POOL_NUMBER` nodes. -/
def Created (s : SqlPool) : Prop :=
  ∃ outcomes : List (Bool × Bool), 1 ≤ outcomes.length ∧ outcomes.length ≤ poolNumberMax ∧
    sqlPoolCreate outcomes = (0, s)

/-- A pool of one node, which is connected. -/
def oneNode : SqlPool := (sqlPoolCreate [(true, true)]).2

theorem oneNode_created : oneNode.Created := ⟨[(true, true)], by decide, by decide, rfl⟩

/-- The pool from its creation on. -/
def system : Transition.System SqlPool (Nat × Move) where
  init := Created
  step := step

/-- The next step of a thread in `get_db_connect_from_pool`. -/
theorem step_next {s : SqlPool} {t : Nat} {scan : SqlScan} {place : GetPlace}
    (hpc : s.pc t = .inGet scan place) (ok : Bool) :
    system.step s (t, .next ok) = some (s.getStep t scan ok place) := by
  simp only [system, step, hpc]

/-- A thread in `create_connect` that is left alone does what `create_connect` does. -/
theorem createConnect_steps {s : SqlPool} {t : Nat} {scan : SqlScan} (connect ok : Bool)
    (hpc : s.pc t = .inGet scan .mysqlInit) :
    system.run s [(t, .next true), (t, .next true), (t, .next connect), (t, .next ok)] =
      some ((s.createConnect (scan.index s.poolNumber) true connect).2.goto t
        (.inGet scan (if connect then .ping true else .clearUsed))) := by
  -- A step forgets where the thread was
  have hstep : ∀ (u : SqlPool) (place place' : GetPlace) (ok : Bool) (v : SqlPool),
      (u.goto t (.inGet scan place)).getStep t scan ok place =
        (v.goto t (.inGet scan place)).goto t (.inGet scan place') →
      system.step (u.goto t (.inGet scan place)) (t, .next ok) =
        some (v.goto t (.inGet scan place')) := by
    intro u place place' ok v h
    rw [step_next (goto_pc_self ..), h, goto_goto]
  let i := scan.index s.poolNumber
  let s₁ := s.mysqlInit i
  let s₂ := s₁.mutexInit i
  have h₁ : system.step s (t, .next true) = some (s₁.goto t (.inGet scan .mutexInit)) :=
    step_next hpc true
  have h₂ := hstep s₁ .mutexInit .realConnect true s₂ rfl
  rw [Transition.System.run_cons, h₁, Option.bind_some, Transition.System.run_cons, h₂,
    Option.bind_some]
  cases connect with
  | false =>
    have h₃ := hstep s₂ .realConnect .connectFailed false (s₂.realConnect i false) rfl
    have h₄ := hstep (s₂.realConnect i false) .connectFailed .clearUsed ok
      ((s₂.realConnect i false).setConnState i false) rfl
    rw [Transition.System.run_cons, h₃, Option.bind_some, Transition.System.run_cons, h₄]
    rfl
  | true =>
    have h₃ := hstep s₂ .realConnect .connected true (s₂.realConnect i true) rfl
    have h₄ := hstep (s₂.realConnect i true) .connected (.ping true) ok
      ((s₂.realConnect i true).setConnState i true) rfl
    rw [Transition.System.run_cons, h₃, Option.bind_some, Transition.System.run_cons, h₄]
    rfl

end SqlPool

end JQServer
