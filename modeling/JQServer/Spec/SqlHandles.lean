import JQServer.Native.SqlPoolCalls

/-!
# The handles of the connection pool

`mysql_sock` and `sql_state` are set one after the other in five functions, and the
connection itself is in the handle `fd`. They agree after every call: a node has a
connection exactly if `mysql_sock` is not NULL, and DB_CONN implies that. The connection
is the one opened last for the node, because `mysql_init` makes the handle forget any
earlier one. So every ping and every close reaches an open connection (`open_handles`).
-/

namespace JQServer

/-- A ping or a close reaches an open connection. -/
def PoolCall.OnOpenHandle : PoolCall → Prop
  | .ping _ handle | .close _ handle => handle ≠ none
  | .trylock _ | .realConnect .. => True

namespace PoolTrace

/-- The connection opened last for a node. -/
def latest (calls : List PoolCall) (i : Nat) : Option Nat :=
  calls.findSome? fun
    | .realConnect j c => if j = i then some c else none
    | _ => none

/-- DB_CONN means that `mysql_sock` leads to the connection opened last for the node, which
    is open; every ping and every close reached an open connection; and no connection was
    closed twice. -/
structure UsesOpenHandles (r : PoolTrace) : Prop where
  connected : ∀ i, (r.pool.sqlPool i).sqlState = .conn →
    (r.pool.sqlPool i).mysqlSock = true ∧
      ∃ c, r.pool.openHandle i = some c ∧ latest r.calls i = some c
  calls : ∀ call ∈ r.calls, call.OnOpenHandle
  closedOnce : r.pool.closed.Nodup

/-- How the two fields of a node, its handle and the connections fit together. -/
structure Agree (r : PoolTrace) : Prop where
  sock : ∀ i, (r.pool.sqlPool i).mysqlSock = true →
    ∃ c, (r.pool.sqlPool i).fd = some c ∧ latest r.calls i = some c
  fd : ∀ i c, (r.pool.sqlPool i).fd = some c →
    (r.pool.sqlPool i).mysqlSock = true ∧ c < r.pool.opened ∧ c ∉ r.pool.closed
  one : ∀ i j c, (r.pool.sqlPool i).fd = some c → (r.pool.sqlPool j).fd = some c → i = j
  conn : ∀ i, (r.pool.sqlPool i).sqlState = .conn → (r.pool.sqlPool i).mysqlSock = true
  calls : ∀ call ∈ r.calls, call.OnOpenHandle
  closed_lt : ∀ c ∈ r.pool.closed, c < r.pool.opened
  nodup : r.pool.closed.Nodup

/-- The handles and the connections are the same, and no node has become connected. -/
structure SameHandles (r r' : PoolTrace) : Prop where
  opened : r'.pool.opened = r.pool.opened
  closed : r'.pool.closed = r.pool.closed
  fd : ∀ i, (r'.pool.sqlPool i).fd = (r.pool.sqlPool i).fd
  mysqlSock : ∀ i, (r'.pool.sqlPool i).mysqlSock = (r.pool.sqlPool i).mysqlSock
  conn : ∀ i, (r'.pool.sqlPool i).sqlState = .conn → (r.pool.sqlPool i).sqlState = .conn
  latest : ∀ i, PoolTrace.latest r'.calls i = PoolTrace.latest r.calls i
  calls : ∀ call ∈ r'.calls, call ∈ r.calls ∨ call.OnOpenHandle

variable {r r' : PoolTrace} {i : Nat} {o : MysqlOutcome}

theorem Agree.same (h : r.Agree) (hs : r.SameHandles r') : r'.Agree where
  sock i hi := by
    rw [hs.mysqlSock] at hi
    rw [hs.fd, hs.latest]
    exact h.sock i hi
  fd i c hi := by
    rw [hs.fd] at hi
    rw [hs.mysqlSock, hs.opened, hs.closed]
    exact h.fd i c hi
  one i j c hi hj := by
    rw [hs.fd] at hi hj
    exact h.one i j c hi hj
  conn i hi := by
    rw [hs.mysqlSock]
    exact h.conn i (hs.conn i hi)
  calls call hcall := (hs.calls call hcall).elim (h.calls call) id
  closed_lt := by
    rw [hs.opened, hs.closed]
    exact h.closed_lt
  nodup := by
    rw [hs.closed]
    exact h.nodup

/-- A write to a node that leaves its handle alone and does not connect it. -/
theorem SameHandles.setNode {node : SqlSockNode} (hfd : node.fd = (r.pool.sqlPool i).fd)
    (hsock : node.mysqlSock = (r.pool.sqlPool i).mysqlSock)
    (hstate : node.sqlState = .conn → (r.pool.sqlPool i).sqlState = .conn) :
    r.SameHandles { r with pool := r.pool.setNode i node } where
  opened := rfl
  closed := rfl
  fd := SqlPool.setNode_field _ _ _ SqlSockNode.fd hfd
  mysqlSock := SqlPool.setNode_field _ _ _ SqlSockNode.mysqlSock hsock
  conn j hj := by
    by_cases hji : j = i
    · subst hji
      rw [SqlPool.setNode_sqlPool_self] at hj
      exact hstate hj
    · rwa [SqlPool.setNode_sqlPool_of_ne _ _ _ hji] at hj
  latest _ := rfl
  calls _ hcall := .inl hcall

theorem SameHandles.trans {r'' : PoolTrace} (h : r.SameHandles r') (h' : r'.SameHandles r'') :
    r.SameHandles r'' where
  opened := h'.opened.trans h.opened
  closed := h'.closed.trans h.closed
  fd i := (h'.fd i).trans (h.fd i)
  mysqlSock i := (h'.mysqlSock i).trans (h.mysqlSock i)
  conn i hi := h.conn i (h'.conn i hi)
  latest i := (h'.latest i).trans (h.latest i)
  calls call hcall := (h'.calls call hcall).elim (h.calls call) .inr

/-- A call that opens nothing, and that reaches an open connection if it has to. -/
theorem SameHandles.call {call : PoolCall} (hopen : call.OnOpenHandle)
    (hlatest : ∀ i, PoolTrace.latest (call :: r.calls) i = PoolTrace.latest r.calls i) :
    r.SameHandles { r with calls := call :: r.calls } where
  opened := rfl
  closed := rfl
  fd _ := rfl
  mysqlSock _ := rfl
  conn _ hi := hi
  latest := hlatest
  calls _ hmem := (List.mem_cons.mp hmem).elim (fun heq => .inr (heq ▸ hopen)) .inl

theorem SameHandles.releaseNode (r : PoolTrace) (i : Nat) :
    r.SameHandles { r with pool := r.pool.releaseNode i } :=
  .setNode rfl rfl id

theorem SameHandles.disconnNode (r : PoolTrace) (i : Nat) :
    r.SameHandles { r with pool := r.pool.disconnNode i } :=
  .setNode rfl rfl nofun

theorem SameHandles.lock (r : PoolTrace) (i : Nat) : r.SameHandles (r.lock i) :=
  .setNode rfl rfl id

/-! ### `create_connect` -/

/-- The node of the connection `c` when `create_connect` is done. -/
def connectedNode (node : SqlSockNode) (c : Nat) : SqlSockNode :=
  { node with fd := some c, mysqlSock := true, sqlLock := false, used := false, sqlState := .conn }

/-- A node whose `mysql_real_connect` failed. -/
def failedNode (node : SqlSockNode) : SqlSockNode :=
  { node with fd := none, mysqlSock := false, sqlLock := false, sqlState := .disconn }

/-- The pool after `create_connect`, by the outcomes of its MySQL calls. -/
theorem createConnect_eq (s : SqlPool) (i : Nat) (init connect : Bool) :
    s.createConnect i init connect =
      if init then
        if connect then
          (0, { s.setNode i (connectedNode (s.sqlPool i) s.opened) with opened := s.opened + 1 })
        else (1, s.setNode i (failedNode (s.sqlPool i)))
      else (-1, s) := by
  cases init with
  | false => rfl
  | true =>
    cases connect with
    | false =>
      simp [SqlPool.createConnect, SqlPool.mysqlInit, SqlPool.mutexInit, SqlPool.realConnect,
        SqlPool.setConnState, SqlPool.setNode, Function.update_idem, failedNode]
    | true =>
      simp [SqlPool.createConnect, SqlPool.mysqlInit, SqlPool.mutexInit, SqlPool.realConnect,
        SqlPool.setConnState, SqlPool.setNode, Function.update_idem, connectedNode]

/-- A node that is connected anew. -/
private theorem Agree.connected (h : r.Agree) (node : SqlSockNode)
    (hfd : node.fd = some r.pool.opened) (hsock : node.mysqlSock = true) :
    Agree {
      pool := { r.pool.setNode i node with opened := r.pool.opened + 1 }
      calls := .realConnect i r.pool.opened :: r.calls } := by
  have hnode : ∀ j,
      ({ r.pool.setNode i node with opened := r.pool.opened + 1 } : SqlPool).sqlPool j =
        if j = i then node else r.pool.sqlPool j :=
    SqlPool.setNode_sqlPool r.pool i node
  -- The connection has a number that no other one has
  have hfresh : ∀ j, (r.pool.sqlPool j).fd ≠ some r.pool.opened := fun j hj =>
    absurd (h.fd j _ hj).2.1 (Nat.lt_irrefl _)
  refine ⟨fun j hj => ?_, fun j c hj => ?_, fun j k c hj hk => ?_, fun j hj => ?_, ?_, ?_, h.nodup⟩
  · rw [hnode] at hj ⊢
    split at hj
    · rename_i hji
      rw [if_pos hji, hji]
      exact ⟨_, hfd, by simp [latest]⟩
    · rename_i hji
      obtain ⟨c, hc, hlatest⟩ := h.sock j hj
      rw [if_neg hji]
      exact ⟨c, hc, by simpa [latest, Ne.symm hji] using hlatest⟩
  · rw [hnode] at hj ⊢
    split at hj
    · rename_i hji
      obtain rfl := Option.some.inj (hfd.symm.trans hj)
      rw [if_pos hji]
      exact ⟨hsock, Nat.lt_succ_self _, fun hmem => absurd (h.closed_lt _ hmem) (Nat.lt_irrefl _)⟩
    · rename_i hji
      obtain ⟨hs, hlt, hopen⟩ := h.fd j c hj
      rw [if_neg hji]
      exact ⟨hs, Nat.lt_succ_of_lt hlt, hopen⟩
  · rw [hnode] at hj hk
    split at hj
    · split at hk
      · exact ‹j = i›.trans ‹k = i›.symm
      · obtain rfl := Option.some.inj (hfd.symm.trans hj)
        exact absurd hk (hfresh k)
    · split at hk
      · obtain rfl := Option.some.inj (hfd.symm.trans hk)
        exact absurd hj (hfresh j)
      · exact h.one j k c hj hk
  · rw [hnode] at hj ⊢
    split at hj
    · rw [if_pos ‹_›, hsock]
    · rw [if_neg ‹_›]
      exact h.conn j hj
  · intro call hcall
    rcases List.mem_cons.mp hcall with rfl | hcall
    · trivial
    · exact h.calls call hcall
  · exact fun c hc => Nat.lt_succ_of_lt (h.closed_lt c hc)

/-- A node that loses its connection, or never had one. -/
private theorem Agree.dropped (h : r.Agree) (node : SqlSockNode) (hfd : node.fd = none)
    (hsock : node.mysqlSock = false) (hstate : node.sqlState = .disconn) :
    Agree { r with pool := r.pool.setNode i node } := by
  -- What still has a handle is another node
  have hother : ∀ j c, ((r.pool.setNode i node).sqlPool j).fd = some c →
      j ≠ i ∧ (r.pool.sqlPool j).fd = some c := by
    intro j c hj
    rw [SqlPool.setNode_sqlPool] at hj
    split at hj
    · exact nomatch hfd.symm.trans hj
    · exact ⟨‹_›, hj⟩
  refine ⟨fun j hj => ?_, fun j c hj => ?_, fun j k c hj hk => ?_, fun j hj => ?_, h.calls,
    h.closed_lt, h.nodup⟩
  · rw [SqlPool.setNode_sqlPool] at hj ⊢
    split at hj
    · exact nomatch hsock.symm.trans hj
    · rw [if_neg ‹_›]
      exact h.sock j hj
  · obtain ⟨hji, hc⟩ := hother j c hj
    rw [SqlPool.setNode_sqlPool, if_neg hji]
    exact h.fd j c hc
  · exact h.one j k c (hother j c hj).2 (hother k c hk).2
  · rw [SqlPool.setNode_sqlPool] at hj ⊢
    split at hj
    · exact nomatch hstate.symm.trans hj
    · rw [if_neg ‹_›]
      exact h.conn j hj

theorem Agree.createConnect (h : r.Agree) (i : Nat) (init connect : Bool) :
    (r.createConnect i init connect).2.Agree := by
  unfold PoolTrace.createConnect
  rw [createConnect_eq]
  cases init with
  | false => exact h
  | true =>
    cases connect with
    | false => exact h.dropped _ rfl rfl rfl
    | true => exact h.connected _ rfl rfl

/-! ### `sql_pool_destroy`, `sql_pool_create` -/

/-- `mysql_sock` that is not NULL leads to an open connection. -/
theorem Agree.openHandle (h : r.Agree) (hsock : (r.pool.sqlPool i).mysqlSock = true) :
    ∃ c, r.pool.openHandle i = some c ∧ latest r.calls i = some c ∧
      (r.pool.sqlPool i).fd = some c := by
  obtain ⟨c, hc, hlatest⟩ := h.sock i hsock
  obtain ⟨-, hlt, hopen⟩ := h.fd i c hc
  refine ⟨c, ?_, hlatest, hc⟩
  rw [SqlPool.openHandle, if_pos hsock, hc]
  simp [hlt, hopen]

theorem Agree.destroyNode (h : r.Agree) (i : Nat) : (r.destroyNode i).Agree := by
  cases hsock : (r.pool.sqlPool i).mysqlSock with
  | false =>
    have heq : r.destroyNode i = { r with pool := r.pool.disconnNode i } := by
      simp [PoolTrace.destroyNode, SqlPool.destroyNode, hsock, SqlPool.disconnNode]
    rw [heq]
    exact h.same (.disconnNode r i)
  | true =>
    obtain ⟨c, hopen, -, hc⟩ := h.openHandle hsock
    obtain ⟨-, hlt, hnot⟩ := h.fd i c hc
    -- `mysql_close`, and then the fields are reset
    let node : SqlSockNode :=
      { r.pool.sqlPool i with fd := none, mysqlSock := false, sqlState := .disconn }
    have hdropped := h.dropped (i := i) node rfl rfl rfl
    have heq : r.destroyNode i = {
        pool := { r.pool.setNode i node with closed := c :: r.pool.closed }
        calls := .close i (some c) :: r.calls } := by
      simp [PoolTrace.destroyNode, SqlPool.destroyNode, hsock, hopen, hc, node]
    rw [heq]
    -- No other node has the connection that is closed
    refine ⟨hdropped.sock, fun j d hj => ?_, hdropped.one, hdropped.conn, ?_, ?_, ?_⟩
    · obtain ⟨hs, hd, hd'⟩ := hdropped.fd j d hj
      refine ⟨hs, hd, fun hmem => ?_⟩
      rcases List.mem_cons.mp hmem with rfl | hmem
      · rw [SqlPool.setNode_sqlPool] at hj
        split at hj
        · cases hj
        · exact ‹¬ j = i› (h.one j i d hj hc)
      · exact hd' hmem
    · intro call hcall
      rcases List.mem_cons.mp hcall with rfl | hcall
      · exact nofun
      · exact h.calls call hcall
    · intro d hd
      rcases List.mem_cons.mp hd with rfl | hd
      · exact hlt
      · exact h.closed_lt d hd
    · exact List.nodup_cons.mpr ⟨hnot, h.nodup⟩

theorem Agree.sqlPoolDestroy (h : r.Agree) : r.sqlPoolDestroy.Agree := by
  have hall : ∀ (nodes : List Nat) (r : PoolTrace), r.Agree →
      (nodes.foldl PoolTrace.destroyNode r).Agree := by
    intro nodes
    induction nodes with
    | nil => exact fun _ h => h
    | cons i nodes ih => exact fun r h => ih _ (h.destroyNode i)
  exact hall _ r h

/-- The number of nodes has no part in it. -/
private theorem Agree.poolNumber (h : r.Agree) (n : Nat) :
    Agree { r with pool := { r.pool with poolNumber := n } } :=
  ⟨h.sock, h.fd, h.one, h.conn, h.calls, h.closed_lt, h.nodup⟩

/-- A pool that is cleared has no connections. -/
private theorem Agree.clear (h : r.Agree) : Agree { r with pool := r.pool.clear } :=
  ⟨nofun, nofun, nofun, nofun, h.calls, h.closed_lt, h.nodup⟩

theorem Agree.createLoop (h : r.Agree) (outcomes : List (Bool × Bool)) :
    (PoolTrace.createLoop r outcomes).2.Agree := by
  induction outcomes generalizing r with
  | nil => exact h
  | cons outcome outcomes ih =>
    obtain ⟨init, connect⟩ := outcome
    have hconnect := h.createConnect r.pool.poolNumber init connect
    rw [PoolTrace.createLoop]
    simp only
    split
    · exact hconnect.sqlPoolDestroy
    · exact ih (hconnect.poolNumber _)

/-! ### `get_db_connect_from_pool` -/

/-- A node that is not disconnected, or reconnects, is connected. -/
theorem reconnect_conn (h : (r.reconnect i o).1 = 0) :
    ((r.reconnect i o).2.pool.sqlPool i).sqlState = .conn := by
  unfold PoolTrace.reconnect at h ⊢
  split
  · rename_i hstate
    rw [if_pos hstate, PoolTrace.createConnect, createConnect_eq] at h
    rw [PoolTrace.createConnect, createConnect_eq]
    -- Disconnected: connected only if both calls of the reconnection succeed
    cases hinit : o.init with
    | false =>
      rw [hinit] at h
      exact absurd (show (-1 : Int) = 0 from h) (by decide)
    | true =>
      rw [hinit] at h
      cases hconnect : o.connect with
      | false =>
        rw [hconnect] at h
        exact absurd (show (1 : Int) = 0 from h) (by decide)
      | true => exact congrArg SqlSockNode.sqlState (SqlPool.setNode_sqlPool_self ..)
  · rename_i hstate
    cases hs : (r.pool.sqlPool i).sqlState with
    | disconn => exact absurd hs hstate
    | conn => rfl

theorem Agree.reconnect (h : r.Agree) (i : Nat) (o : MysqlOutcome) :
    (r.reconnect i o).2.Agree := by
  unfold PoolTrace.reconnect
  split
  · exact h.createConnect i o.init o.connect
  · exact h

/-- A connected node is pinged through an open handle. -/
theorem Agree.pingNode (h : r.Agree) (hconn : (r.pool.sqlPool i).sqlState = .conn) (ok : Bool) :
    (r.pingNode i ok).2.Agree := by
  obtain ⟨c, hopen, -⟩ := h.openHandle (h.conn i hconn)
  have hping : r.SameHandles { r with calls := .ping i (r.pool.openHandle i) :: r.calls } := by
    refine .call ?_ fun _ => rfl
    rw [hopen]
    exact nofun
  unfold PoolTrace.pingNode
  cases ok with
  | false => exact h.same (hping.trans ((SameHandles.disconnNode _ i).trans (.releaseNode _ i)))
  | true => exact h.same (hping.trans (.setNode rfl rfl id))

theorem Agree.getPass (h : r.Agree) (i : Nat) (o : MysqlOutcome) : (r.getPass i o).2.Agree := by
  have htry : Agree { r with calls := .trylock i :: r.calls } :=
    h.same (.call trivial fun _ => rfl)
  unfold PoolTrace.getPass
  simp only
  split
  -- The node is locked: nothing else is called
  · exact htry
  · have hreconnect := (htry.same (.lock _ i)).reconnect i o
    split
    · exact hreconnect.same (.releaseNode _ i)
    · rename_i hret
      exact hreconnect.pingNode (reconnect_conn (not_not.mp hret)) o.ping

theorem Agree.getLoop (h : r.Agree) (startIndex : Nat) (outcome : Nat → MysqlOutcome)
    (passes loopIndex : Nat) :
    (PoolTrace.getLoop startIndex outcome passes loopIndex r).2.Agree := by
  induction passes generalizing loopIndex r with
  | zero => exact h
  | succ passes ih =>
    have hpass := h.getPass ((startIndex + loopIndex) % r.pool.poolNumber)
      (outcome ((startIndex + loopIndex) % r.pool.poolNumber))
    rw [PoolTrace.getLoop]
    simp only
    split
    · exact hpass
    · exact ih hpass _

/-! ### All calls -/

theorem Agree.step {call : Call} (h : r.Agree) (hs : r.step call = some r') : r'.Agree := by
  cases call with
  -- `sql_pool_create` makes the nodes afresh
  | sqlPoolCreate outcomes =>
    obtain ⟨-, hs⟩ := Option.ite_none_right_eq_some.mp hs
    rw [← Option.some.inj hs]
    exact h.clear.createLoop outcomes
  | getDbConnectFromPool startIndex outcome =>
    obtain ⟨-, hs⟩ := Option.ite_none_right_eq_some.mp hs
    rw [← Option.some.inj hs]
    exact h.getLoop startIndex outcome _ 0
  | releaseSockToSqlPool i =>
    obtain ⟨-, hs⟩ := Option.ite_none_right_eq_some.mp hs
    rw [← Option.some.inj hs]
    exact h.same (.releaseNode r i)
  | checkSqlSockNormal i =>
    obtain ⟨-, hs⟩ := Option.ite_none_right_eq_some.mp hs
    rw [← Option.some.inj hs]
    exact h.same (.disconnNode r i)
  | sqlPoolDestroy =>
    rw [← Option.some.inj hs]
    exact h.sqlPoolDestroy

/-- The fields agree after any sequence of calls. -/
theorem agree_of_reach (h : Transition.Reachable system r) : r.Agree := by
  apply h.invariant
  · rintro r rfl
    exact ⟨nofun, nofun, nofun, nofun, nofun, nofun, List.nodup_nil⟩
  · exact fun r call r' _ hr _ hs => hr.step hs

/-- After any sequence of calls a node that is connected has an open handle, and only open
    handles were pinged and closed, each one once at most. -/
theorem open_handles (h : Transition.Reachable system r) : r.UsesOpenHandles := by
  have hagree := agree_of_reach h
  refine ⟨fun i hi => ?_, hagree.calls, hagree.nodup⟩
  have hsock := hagree.conn i hi
  obtain ⟨c, hopen, hlatest, -⟩ := hagree.openHandle hsock
  exact ⟨hsock, c, hopen, hlatest⟩

/-- A ping fails, and the pool is destroyed twice and used again. -/
def usedAgain : List Call :=
  [.sqlPoolCreate [(true, true)], .getDbConnectFromPool 0 fun _ => ⟨true, true, false⟩,
    .sqlPoolDestroy, .sqlPoolDestroy, .getDbConnectFromPool 0 fun _ => ⟨true, true, true⟩,
    .sqlPoolDestroy]

/-- Each of the two connections is closed once. -/
theorem open_handles_used_again :
    ∃ r, system.run { pool := .start, calls := [] } usedAgain = some r ∧
      r.calls = [.close 0 (some 1), .ping 0 (some 1), .realConnect 0 1, .trylock 0,
        .close 0 (some 0), .ping 0 (some 0), .trylock 0, .realConnect 0 0] ∧
      r.UsesOpenHandles := by
  have hrun : system.run { pool := .start, calls := [] } usedAgain = some _ := rfl
  exact ⟨_, hrun, by decide +kernel, open_handles (.of_run rfl hrun)⟩

end PoolTrace

end JQServer
