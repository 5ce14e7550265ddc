import JQServer.Native.SqlPool

/-!
# Calls of the connection pool (`src/server/sql_pool.c`)

The functions of the pool as they run when no other thread comes between, together with
the calls they make: `pthread_mutex_trylock`, and the MySQL calls that open, ping and close
a connection. A call through `mysql_sock` is recorded with the open connection that it
reaches, which is `none` for NULL and for a handle without one.

`SqlPool.lean` has the same functions as threads run them step by step; `Spec/SqlGet.lean`
proves that `get_db_connect_from_pool` is the same in both.
-/

namespace JQServer

/-- A call that a function of the pool makes for node `i`. -/
inductive PoolCall where
  | trylock (i : Nat)
  | realConnect (i c : Nat)
  | ping (i : Nat) (handle : Option Nat)
  | close (i : Nat) (handle : Option Nat)
  deriving DecidableEq

/-- The outcomes of `mysql_init`, `mysql_real_connect` and `mysql_ping` for a node. -/
structure MysqlOutcome where
  init : Bool
  connect : Bool
  ping : Bool

/-- The pool, and the calls made so far, the latest first. -/
structure PoolTrace where
  pool : SqlPool
  calls : List PoolCall

namespace SqlPool

/-- The open connection that `mysql_sock` of a node leads to. -/
def openHandle (s : SqlPool) (i : Nat) : Option Nat :=
  if (s.sqlPool i).mysqlSock then
    (s.sqlPool i).fd.filter fun c => c < s.opened ∧ c ∉ s.closed
  else none

/-- `release_sock_to_sql_pool` -/
def releaseNode (s : SqlPool) (i : Nat) : SqlPool :=
  s.setNode i { s.sqlPool i with used := false, sqlLock := false }

/-- `check_sql_sock_normal` -/
def disconnNode (s : SqlPool) (i : Nat) : SqlPool :=
  s.setNode i { s.sqlPool i with sqlState := .disconn }

/-- `memset` of the pool. -/
def clear (s : SqlPool) : SqlPool := { s with poolNumber := 0, sqlPool := fun _ => .zero }

end SqlPool

namespace PoolTrace

/-- `create_connect` -/
def createConnect (r : PoolTrace) (i : Nat) (init connect : Bool) : Int × PoolTrace :=
  ((r.pool.createConnect i init connect).1, {
    pool := (r.pool.createConnect i init connect).2
    calls := if init && connect then .realConnect i r.pool.opened :: r.calls else r.calls })

/-- One pass of the loop of `sql_pool_destroy`. -/
def destroyNode (r : PoolTrace) (i : Nat) : PoolTrace where
  pool := r.pool.destroyNode i
  calls := if (r.pool.sqlPool i).mysqlSock then .close i (r.pool.openHandle i) :: r.calls
    else r.calls

/-- `sql_pool_destroy` -/
def sqlPoolDestroy (r : PoolTrace) : PoolTrace :=
  (List.range r.pool.poolNumber).foldl destroyNode r

/-- The loop of `sql_pool_create` from a node on, with the outcomes of the MySQL calls. -/
def createLoop : PoolTrace → List (Bool × Bool) → Int × PoolTrace
  | r, [] => (0, r)
  | r, (init, connect) :: outcomes =>
    let (ret, r) := r.createConnect r.pool.poolNumber init connect
    -- 1, for a connection that failed, is no error here
    if ret = -1 then (-1, r.sqlPoolDestroy)
    else createLoop { r with pool := { r.pool with poolNumber := r.pool.poolNumber + 1 } } outcomes

/-- `sql_pool_create`, as many nodes as outcomes. -/
def sqlPoolCreate (r : PoolTrace) (outcomes : List (Bool × Bool)) : Int × PoolTrace :=
  createLoop { r with pool := r.pool.clear } outcomes

/-- The node after `pthread_mutex_trylock` has locked it. -/
def lock (r : PoolTrace) (i : Nat) : PoolTrace :=
  { r with pool := r.pool.setNode i { r.pool.sqlPool i with sqlLock := true } }

/-- `create_connect` if the node is not connected. -/
def reconnect (r : PoolTrace) (i : Nat) (o : MysqlOutcome) : Int × PoolTrace :=
  if (r.pool.sqlPool i).sqlState = .disconn then r.createConnect i o.init o.connect else (0, r)

/-- `mysql_ping` and what follows it: whether the node is taken. -/
def pingNode (r : PoolTrace) (i : Nat) (ok : Bool) : Bool × PoolTrace :=
  let calls := .ping i (r.pool.openHandle i) :: r.calls
  if ok then (true, {
    pool := r.pool.setNode i { r.pool.sqlPool i with used := true }
    calls := calls })
  else (false, { pool := (r.pool.disconnNode i).releaseNode i, calls := calls })

/-- One pass of the loop of `get_db_connect_from_pool`: whether the node is taken. -/
def getPass (r : PoolTrace) (i : Nat) (o : MysqlOutcome) : Bool × PoolTrace :=
  let r := { r with calls := .trylock i :: r.calls }
  -- `pthread_mutex_trylock` does not wait
  if (r.pool.sqlPool i).sqlLock then (false, r)
  else
    let (ret, r) := (r.lock i).reconnect i o
    if ret ≠ 0 then (false, { r with pool := r.pool.releaseNode i })
    else r.pingNode i o.ping

/-- The loop of `get_db_connect_from_pool` with as many passes left. -/
def getLoop (startIndex : Nat) (outcome : Nat → MysqlOutcome) :
    Nat → Nat → PoolTrace → Option Nat × PoolTrace
  | 0, _, r => (none, r)
  | passes + 1, loopIndex, r =>
    let index := (startIndex + loopIndex) % r.pool.poolNumber
    let (taken, r) := r.getPass index (outcome index)
    if taken then (some index, r) else getLoop startIndex outcome passes (loopIndex + 1) r

/-- `get_db_connect_from_pool`: the index of the node that is returned, `none` being NULL. -/
def getDbConnectFromPool (r : PoolTrace) (startIndex : Nat) (outcome : Nat → MysqlOutcome) :
    Option Nat × PoolTrace :=
  getLoop startIndex outcome r.pool.poolNumber 0 r

/-- A call of a function of the pool. -/
inductive Call where
  | sqlPoolCreate (outcomes : List (Bool × Bool))
  | getDbConnectFromPool (startIndex : Nat) (outcome : Nat → MysqlOutcome)
  | releaseSockToSqlPool (i : Nat)
  | checkSqlSockNormal (i : Nat)
  | sqlPoolDestroy

/-- The functions called one after the other. `rand() % pool_number` has no value while the
    pool is empty. -/
def step (r : PoolTrace) : Call → Option PoolTrace
  | .sqlPoolCreate outcomes =>
    if 1 ≤ outcomes.length ∧ outcomes.length ≤ poolNumberMax then
      some (r.sqlPoolCreate outcomes).2
    else none
  | .getDbConnectFromPool startIndex outcome =>
    if startIndex < r.pool.poolNumber then some (r.getDbConnectFromPool startIndex outcome).2
    else none
  | .releaseSockToSqlPool i =>
    if i < poolNumberMax then some { r with pool := r.pool.releaseNode i } else none
  | .checkSqlSockNormal i =>
    if i < poolNumberMax then some { r with pool := r.pool.disconnNode i } else none
  | .sqlPoolDestroy => some r.sqlPoolDestroy

/-- The pool from the start of the server on. -/
def system : Transition.System PoolTrace Call where
  init r := r = { pool := .start, calls := [] }
  step := step

end PoolTrace

end JQServer
