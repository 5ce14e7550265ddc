import JQServer.ForStd.CSearch
import JQServer.Native.SqlPool

/-!
# Database queries (`server/database_process.c`)

`get_upgrade_count_from_database` as any number of threads call it. A step is one step of
`get_db_connect_from_pool` or `release_sock_to_sql_pool` or one MySQL call, and the outcome
of a MySQL call is part of the step. The text of the query does not depend on anything, and
logging is left out.
-/

namespace JQServer

/-- `socket_node`. `conn` is bookkeeping of the model: the connection that the handle of the
    node had when it was returned. -/
structure SocketNode where
  node : Nat
  conn : Option Nat
  deriving DecidableEq

/-- Program counter of `get_upgrade_count_from_database`. -/
inductive UpgradePc where
  | outside
  /-- In `get_db_connect_from_pool`. -/
  | getting
  /-- At `mysql_query`. -/
  | query (n : SocketNode)
  /-- At `mysql_store_result`. -/
  | storeResult (n : SocketNode)
  /-- At `mysql_fetch_row`. -/
  | fetchRow (n : SocketNode)
  /-- At `mysql_free_result`. -/
  | freeResult (n : SocketNode) (upgradeCount : Int)
  /-- At `EXIT`. -/
  | exit (n : SocketNode) (upgradeCount : Int)
  /-- In `release_sock_to_sql_pool`, before the unlock. -/
  | releasing (n : SocketNode) (upgradeCount : Int)
  /-- The last call has returned. -/
  | returned (upgradeCount : Int)
  deriving DecidableEq

/-- A call of `get_upgrade_count_from_database`, or the next step of it. -/
inductive UpgradeMove where
  /-- The call, with the start index that `rand` gives. -/
  | call (startIndex : Nat)
  /-- The next step of the function of the pool that the thread is in. -/
  | next (ok : Bool)
  | mysqlQuery (ok : Bool)
  | mysqlStoreResult (ok : Bool)
  /-- `row` is NULL or has `row[0]`, which is NULL or a string. -/
  | mysqlFetchRow (row : Option (Option (List UInt8)))
  | mysqlFreeResult
  | release
  deriving DecidableEq

/-- The pool of connections and the threads. -/
structure UpgradeCalls where
  pool : SqlPool
  pc : Nat → UpgradePc
  /-- `atoi` was called with NULL. -/
  fault : Bool

namespace UpgradeCalls

/-- Thread `t` moves to `pc`. -/
def goto (s : UpgradeCalls) (t : Nat) (pc : UpgradePc) (pool : SqlPool) : UpgradeCalls :=
  { s with pool := pool, pc := Function.update s.pc t pc }

section

variable (s : UpgradeCalls) (t : Nat) (pc : UpgradePc) (pool : SqlPool)

@[simp] theorem goto_pool : (s.goto t pc pool).pool = pool := rfl

@[simp] theorem goto_fault : (s.goto t pc pool).fault = s.fault := rfl

@[simp] theorem goto_pc_self : (s.goto t pc pool).pc t = pc := Function.update_self ..

theorem goto_pc_of_ne {u : Nat} (h : u ≠ t) : (s.goto t pc pool).pc u = s.pc u :=
  Function.update_of_ne h ..

end

/-- Where a thread is after a step of `get_db_connect_from_pool`. -/
def afterGet (pool : SqlPool) : SqlPc → UpgradePc
  | .inGet scan .markUsed =>
    let i := scan.index pool.poolNumber
    .query { node := i, conn := (pool.sqlPool i).fd }
  | .inGet scan .trylock =>
    if scan.loopIndex < pool.poolNumber then .getting else .returned (-1)
  | _ => .getting

/-- The call of `get_db_connect_from_pool`. -/
def callGet (s : UpgradeCalls) (t startIndex : Nat) : Option UpgradeCalls :=
  (s.pool.step (t, .getDbConnectFromPool startIndex)).map (s.goto t .getting)

/-- A thread makes a move. -/
def step (s : UpgradeCalls) : Nat × UpgradeMove → Option UpgradeCalls
  | (t, m) =>
    if s.fault then none
    else match m, s.pc t with
      | .call startIndex, .outside | .call startIndex, .returned _ => s.callGet t startIndex
      | .next ok, .getting =>
        (s.pool.step (t, .next ok)).map (s.goto t (afterGet s.pool (s.pool.pc t)))
      | .mysqlQuery ok, .query n =>
        some (s.goto t (if ok then .storeResult n else .exit n (-1)) s.pool)
      | .mysqlStoreResult ok, .storeResult n =>
        some (s.goto t (if ok then .fetchRow n else .exit n (-1)) s.pool)
      | .mysqlFetchRow none, .fetchRow n => some (s.goto t (.freeResult n (-1)) s.pool)
      | .mysqlFetchRow (some none), .fetchRow _ => some { s with fault := true }
      | .mysqlFetchRow (some (some text)), .fetchRow n =>
        some (s.goto t (.freeResult n (CString.atoi text)) s.pool)
      | .mysqlFreeResult, .freeResult n upgradeCount =>
        some (s.goto t (.exit n upgradeCount) s.pool)
      | .release, .exit n upgradeCount =>
        (s.pool.step (t, .releaseSockToSqlPool n.node)).map (s.goto t (.releasing n upgradeCount))
      | .next ok, .releasing _ upgradeCount =>
        (s.pool.step (t, .next ok)).map (s.goto t (.returned upgradeCount))
      | _, _ => none

/-- The threads from the creation of the pool on. -/
def system : Transition.System UpgradeCalls (Nat × UpgradeMove) where
  init s := ∃ pool : SqlPool, pool.Created ∧
    s = { pool := pool, pc := fun _ => .outside, fault := false }
  step := step

end UpgradeCalls

end JQServer
