import JQServer.Native.DatabaseProcess
import JQServer.Spec.SqlHolders

/-!
# What the calls of `get_upgrade_count_from_database` hold

Any number of threads query the database over the pool of connections. `CallsInv` says that
the calls and the pool agree: a thread holds the node that its call has got and not released,
once. It holds in every run, also when nodes are reconnected, and so no node stays behind when
the calls have returned (`nodes_released`).
-/

namespace JQServer

/-! ### A step of `get_db_connect_from_pool` -/

namespace SqlPool

/-- What a step of `get_db_connect_from_pool` on node `i` does. -/
structure GetStep (s : SqlPool) (t i : Nat) (place : GetPlace) (s' : SqlPool) : Prop where
  poolNumber : s'.poolNumber = s.poolNumber
  pc : ∀ u, u ≠ t → s'.pc u = s.pc u
  nodes : ∀ j, j ≠ i → s'.sqlPool j = s.sqlPool j
  holders : s'.holders =
    if place = .markUsed then Function.update s.holders i (t :: s.holders i) else s.holders
  /-- A node that is locked after the step was so before, or is the thread's. -/
  lock : (s'.sqlPool i).sqlLock = true → s'.Has t i ∨ place = .markUsed ∨
    place = .trylock ∧ (s.sqlPool i).sqlLock = true
  fd : place = .trylock ∨ place = .markUsed → (s'.sqlPool i).fd = (s.sqlPool i).fd

theorem getStep_getStep (s : SqlPool) (t : Nat) (scan : SqlScan) (ok : Bool) (place : GetPlace) :
    s.GetStep t (scan.index s.poolNumber) place (s.getStep t scan ok place) := by
  -- The thread stays at its node
  have hhas : ∀ (u : SqlPool) (place' : GetPlace), u.poolNumber = s.poolNumber →
      place' ≠ .trylock → (u.goto t (.inGet scan place')).Has t (scan.index s.poolNumber) := by
    intro u place' hn hplace
    rw [Has, goto_pc_self, SqlPc.node, if_neg hplace, goto_poolNumber, hn]
  have hset : ∀ (node : SqlSockNode) (place' : GetPlace), place ≠ .markUsed → place ≠ .trylock →
      place' ≠ .trylock → s.GetStep t (scan.index s.poolNumber) place
        ((s.setNode (scan.index s.poolNumber) node).goto t (.inGet scan place')) := by
    intro node place' hmark htry hplace'
    refine ⟨rfl, fun u hu => goto_pc_of_ne _ _ _ hu, fun j hj => setNode_sqlPool_of_ne _ _ _ hj,
      (if_neg hmark).symm, fun _ => .inl (hhas _ place' rfl hplace'), fun h => ?_⟩
    exact (h.elim htry hmark).elim
  have hsame : ∀ place' : GetPlace, place ≠ .markUsed → place ≠ .trylock → place' ≠ .trylock →
      s.GetStep t (scan.index s.poolNumber) place (s.goto t (.inGet scan place')) := by
    intro place' hmark htry hplace'
    exact ⟨rfl, fun u hu => goto_pc_of_ne _ _ _ hu, fun _ _ => rfl, (if_neg hmark).symm,
      fun _ => .inl (hhas _ place' rfl hplace'), fun _ => rfl⟩
  cases place with
  | trylock =>
    simp only [getStep]
    split
    · cases hlock : (s.sqlPool (scan.index s.poolNumber)).sqlLock with
      | true =>
        exact ⟨rfl, fun u hu => goto_pc_of_ne _ _ _ hu, fun _ _ => rfl, rfl,
          fun _ => .inr (.inr ⟨rfl, hlock⟩), fun _ => rfl⟩
      | false =>
        refine ⟨rfl, fun u hu => goto_pc_of_ne _ _ _ hu,
          fun j hj => setNode_sqlPool_of_ne _ _ _ hj, rfl,
          fun _ => .inl (hhas _ .state rfl (by simp)), fun _ => ?_⟩
        rw [if_neg (by simp), goto_sqlPool, setNode_sqlPool_self]
    · exact ⟨rfl, fun u hu => goto_pc_of_ne _ _ _ hu, fun _ _ => rfl, rfl,
        fun h => .inr (.inr ⟨rfl, h⟩), fun _ => rfl⟩
  | state =>
    refine hsame _ (by simp) (by simp) ?_
    split <;> simp
  | mysqlInit =>
    cases ok with
    | true => exact hset _ _ (by simp) (by simp) (by simp)
    | false => exact hsame _ (by simp) (by simp) (by simp)
  | mutexInit | pingFailed | clearUsed => exact hset _ _ (by simp) (by simp) (by simp)
  | realConnect =>
    cases ok with
    | true =>
      have h := hset { s.sqlPool (scan.index s.poolNumber) with
        fd := some s.opened, mysqlSock := true } .connected (by simp) (by simp) (by simp)
      exact ⟨h.poolNumber, h.pc, h.nodes, h.holders, h.lock, h.fd⟩
    | false => exact hset _ _ (by simp) (by simp) (by simp)
  | connected | connectFailed => exact hset _ _ (by simp) (by simp) (by simp)
  | ping reconnected =>
    refine hsame _ (by simp) (by simp) ?_
    split <;> simp
  | markUsed =>
    refine ⟨rfl, fun u hu => goto_pc_of_ne _ _ _ hu, fun j hj => setNode_sqlPool_of_ne _ _ _ hj,
      rfl, fun _ => .inr (.inl rfl), fun _ => ?_⟩
    show ((s.setNode _ _).sqlPool _).fd = _
    rw [setNode_sqlPool_self]
  | unlock =>
    refine ⟨rfl, fun u hu => goto_pc_of_ne _ _ _ hu, fun j hj => setNode_sqlPool_of_ne _ _ _ hj,
      rfl, fun h => ?_, fun h => ?_⟩
    · simp [getStep] at h
    · simp at h

end SqlPool

/-! ### The threads -/

/-- `socket_node`, from its return to its release. -/
def UpgradePc.socketNode : UpgradePc → Option SocketNode
  | .query n | .storeResult n | .fetchRow n | .freeResult n _ | .exit n _ | .releasing n _ => some n
  | .outside | .getting | .returned _ => none

/-- The steps that a call can still take once it has its node. -/
def UpgradePc.workLeft : UpgradePc → Nat
  | .query _ => 6
  | .storeResult _ => 5
  | .fetchRow _ => 4
  | .freeResult .. => 3
  | .exit .. => 2
  | .releasing .. => 1
  | .outside | .getting | .returned _ => 0

/-- The thread is in no call. -/
def UpgradePc.idle : UpgradePc → Bool
  | .outside | .returned _ => true
  | _ => false

/-- Where the thread is in the functions of the pool. -/
def UpgradePc.InPool (pc : UpgradePc) (p : SqlPc) : Prop :=
  match pc with
  | .getting => ∃ scan place, p = .inGet scan place
  | .releasing n _ => p = .inRelease n.node
  | _ => p = .idle

/-- A thread in no call was never in one, or its last call has returned. -/
theorem UpgradePc.idle_cases {pc : UpgradePc} (h : pc.idle = true) :
    pc = .outside ∨ ∃ c, pc = .returned c := by
  cases pc with
  | outside => exact .inl rfl
  | returned c => exact .inr ⟨c, rfl⟩
  | _ => cases h

/-- A thread that has a node and is not giving it back is outside the pool. -/
theorem UpgradePc.InPool.idle {pc : UpgradePc} {p : SqlPc} (h : pc.InPool p)
    (hget : pc ≠ .getting) (hrel : ∀ n c, pc ≠ .releasing n c) : p = .idle := by
  cases pc with
  | getting => exact absurd rfl hget
  | releasing n c => exact absurd rfl (hrel n c)
  | _ => exact h

namespace UpgradeCalls

open Transition

variable {s s' : UpgradeCalls} {t u : Nat}

/-- What a move does to the pool. -/
def poolMoves (s : UpgradeCalls) : Nat × UpgradeMove → List (Nat × SqlPool.Move)
  | (t, .call startIndex) => [(t, .getDbConnectFromPool startIndex)]
  | (t, .next ok) => [(t, .next ok)]
  | (t, .release) =>
    match s.pc t with
    | .exit n _ => [(t, .releaseSockToSqlPool n.node)]
    | _ => []
  | _ => []

/-- What a move of thread `t` can be. -/
inductive Moves (s : UpgradeCalls) (t : Nat) : UpgradeMove → UpgradeCalls → Prop
  | call {startIndex : Nat} (h : (s.pc t).idle = true)
      (hs : s.pool.step (t, .getDbConnectFromPool startIndex) =
        some (s.pool.goto t (.inGet ⟨startIndex, 0⟩ .trylock))) :
      Moves s t (.call startIndex)
        (s.goto t .getting (s.pool.goto t (.inGet ⟨startIndex, 0⟩ .trylock)))
  | get {ok : Bool} {scan : SqlScan} {place : GetPlace} (h : s.pc t = .getting)
      (hp : s.pool.pc t = .inGet scan place) : Moves s t (.next ok)
        (s.goto t (afterGet s.pool (.inGet scan place)) (s.pool.getStep t scan ok place))
  | work {m : UpgradeMove} {n : SocketNode} {pc : UpgradePc} (hm : s.poolMoves (t, m) = [])
      (h : (s.pc t).socketNode = some n) (hrel : ∀ n c, s.pc t ≠ .releasing n c)
      (h' : pc.socketNode = some n) (hrel' : ∀ n c, pc ≠ .releasing n c)
      (hleft : pc.workLeft < (s.pc t).workLeft) : Moves s t m (s.goto t pc s.pool)
  | fault {row : Option (Option (List UInt8))} {n : SocketNode} (h : s.pc t = .fetchRow n) :
      Moves s t (.mysqlFetchRow row) { s with fault := true }
  | release {n : SocketNode} {c : Int} (h : s.pc t = .exit n c)
      (hs : s.pool.step (t, .releaseSockToSqlPool n.node) =
        some ((s.pool.setNode n.node { s.pool.sqlPool n.node with used := false }).goto t
          (.inRelease n.node))) : Moves s t .release (s.goto t (.releasing n c)
        ((s.pool.setNode n.node { s.pool.sqlPool n.node with used := false }).goto t
          (.inRelease n.node)))
  | released {ok : Bool} {n : SocketNode} {c : Int} (h : s.pc t = .releasing n c) :
      Moves s t (.next ok) (s.goto t (.returned c)
        { (s.pool.setNode n.node { s.pool.sqlPool n.node with sqlLock := false }).goto t .idle with
          holders := Function.update s.pool.holders n.node
            ((s.pool.holders n.node).erase t) })

/-- A thread that has a node is not in `get_db_connect_from_pool`. -/
theorem not_getting_of_socketNode {pc : UpgradePc} {n : SocketNode} (h : pc.socketNode = some n) :
    pc ≠ .getting := by
  intro heq
  rw [heq] at h
  cases h

/-- Every step is one of these moves. -/
theorem step_moves {m : UpgradeMove} (h : (s.pc t).InPool (s.pool.pc t))
    (hs : s.step (t, m) = some s') : s.Moves t m s' := by
  simp only [step] at hs
  split at hs
  · cases hs
  · cases hpc : s.pc t <;> cases m <;> simp only [hpc, reduceCtorEq] at hs
    case outside.call startIndex | returned.call c startIndex =>
      obtain ⟨pool, hp, rfl⟩ := Option.map_eq_some_iff.mp hs
      obtain ⟨-, hpool⟩ := Option.ite_none_right_eq_some.mp hp
      obtain rfl := Option.some.inj hpool
      exact .call (by rw [hpc]; rfl) hp
    -- The thread is in `get_db_connect_from_pool`: its step is one of the pool
    case getting.next ok =>
      obtain ⟨pool, hp, rfl⟩ := Option.map_eq_some_iff.mp hs
      rw [hpc] at h
      obtain ⟨scan, place, hplace⟩ := h
      rw [hplace]
      obtain rfl := Option.some.inj ((SqlPool.step_next hplace ok).symm.trans hp)
      exact .get hpc hplace
    case query.mysqlQuery n ok | storeResult.mysqlStoreResult n ok =>
      obtain rfl := Option.some.inj hs
      refine .work (n := n) rfl (by rw [hpc]; rfl) (by simp [hpc]) ?_ ?_ ?_ <;> cases ok <;>
        simp [UpgradePc.socketNode, UpgradePc.workLeft, hpc]
    case fetchRow.mysqlFetchRow n row =>
      cases row with
      | none =>
        obtain rfl := Option.some.inj hs
        exact .work (n := n) rfl (by rw [hpc]; rfl) (by simp [hpc]) rfl (by simp)
          (by simp [UpgradePc.workLeft, hpc])
      | some row =>
        cases row with
        | none =>
          -- `atoi(row[0])` of a field that is NULL
          obtain rfl := Option.some.inj hs
          exact .fault hpc
        | some text =>
          obtain rfl := Option.some.inj hs
          exact .work (n := n) rfl (by rw [hpc]; rfl) (by simp [hpc]) rfl (by simp)
            (by simp [UpgradePc.workLeft, hpc])
    case freeResult.mysqlFreeResult n c =>
      obtain rfl := Option.some.inj hs
      exact .work (n := n) rfl (by rw [hpc]; rfl) (by simp [hpc]) rfl (by simp)
        (by simp [UpgradePc.workLeft, hpc])
    case exit.release n c =>
      obtain ⟨pool, hp, rfl⟩ := Option.map_eq_some_iff.mp hs
      obtain ⟨-, hpool⟩ := Option.ite_none_right_eq_some.mp hp
      obtain rfl := Option.some.inj hpool
      exact .release hpc hp
    case releasing.next n c ok =>
      obtain ⟨pool, hp, rfl⟩ := Option.map_eq_some_iff.mp hs
      rw [hpc] at h
      have h : s.pool.pc t = .inRelease n.node := h
      simp only [SqlPool.step, h] at hp
      obtain rfl := Option.some.inj hp
      exact .released hpc

/-! ### What a thread holds -/

/-- The node that a call has got and not released. -/
def node (s : UpgradeCalls) (t : Nat) : Option Nat := (s.pc t).socketNode.map (·.node)

/-- The calls and the pool agree. -/
structure CallsInv (s : UpgradeCalls) : Prop where
  inPool : ∀ t, (s.pc t).InPool (s.pool.pc t)
  holds : ∀ t i, (s.pool.holders i).count t = if s.node t = some i then 1 else 0
  locked : ∀ i, (s.pool.sqlPool i).sqlLock = true →
    ∃ t, s.pool.Has t i ∨ t ∈ s.pool.holders i
  nonempty : 0 < s.pool.poolNumber
  inside : ∀ t i, s.node t = some i → i < s.pool.poolNumber

/-- After a step of `get_db_connect_from_pool` the thread is where its call says. -/
theorem afterGet_inPool (p : SqlPool) (t : Nat) (scan : SqlScan) (ok : Bool) (place : GetPlace) :
    (afterGet p (.inGet scan place)).InPool ((p.getStep t scan ok place).pc t) := by
  cases place with
  | trylock =>
    simp only [afterGet, SqlPool.getStep]
    split
    · split <;> exact ⟨_, _, Function.update_self ..⟩
    · exact Function.update_self ..
  | markUsed => exact Function.update_self ..
  | mysqlInit => cases ok <;> exact ⟨_, _, Function.update_self ..⟩
  | _ => exact ⟨_, _, Function.update_self ..⟩

/-- The node of the thread that moves, and those of the others. -/
theorem node_goto (pc : UpgradePc) (pool : SqlPool) (u : Nat) : (s.goto t pc pool).node u =
    if u = t then pc.socketNode.map (·.node) else s.node u := by
  split
  · rename_i h
    rw [h, node, goto_pc_self]
  · rename_i h
    rw [node, goto_pc_of_ne _ _ _ _ h, node]

/-- Where the threads are with respect to the pool, after a move of one of them. -/
private theorem CallsInv.inPool_goto {pc : UpgradePc} {pool : SqlPool} (h : s.CallsInv)
    (hin : pc.InPool (pool.pc t)) (hpc : ∀ u, u ≠ t → pool.pc u = s.pool.pc u) (u : Nat) :
    ((s.goto t pc pool).pc u).InPool (pool.pc u) := by
  by_cases hut : u = t
  · rw [hut, goto_pc_self]
    exact hin
  · rw [goto_pc_of_ne _ _ _ _ hut, hpc u hut]
    exact h.inPool u

/-- A locked node that the moving thread does not get is had by the thread that had it. -/
private theorem CallsInv.locked_goto {pool : SqlPool} {i : Nat} (h : s.CallsInv)
    (hlock : (s.pool.sqlPool i).sqlLock = true) (hnot : ¬ s.pool.Has t i)
    (hpc : ∀ u, u ≠ t → pool.pc u = s.pool.pc u) (hn : pool.poolNumber = s.pool.poolNumber)
    (hh : pool.holders i = s.pool.holders i) : ∃ u, pool.Has u i ∨ u ∈ pool.holders i := by
  obtain ⟨u, hu | hu⟩ := h.locked i hlock
  · have hut : u ≠ t := by
      rintro rfl
      exact hnot hu
    refine ⟨u, .inl ?_⟩
    rw [SqlPool.Has, hpc u hut, hn]
    exact hu
  · exact ⟨u, .inr (by rw [hh]; exact hu)⟩

/-- A move of a thread that changes neither what it holds nor the locks. -/
private theorem CallsInv.move {pc : UpgradePc} {pool : SqlPool} (h : s.CallsInv)
    (hin : pc.InPool (pool.pc t)) (hpc : ∀ u, u ≠ t → pool.pc u = s.pool.pc u)
    (hnode : pc.socketNode.map (·.node) = s.node t) (hh : pool.holders = s.pool.holders)
    (hn : pool.poolNumber = s.pool.poolNumber)
    (hlock : ∀ i, (pool.sqlPool i).sqlLock = true → ¬ pool.Has t i →
      (s.pool.sqlPool i).sqlLock = true ∧ ¬ s.pool.Has t i) : (s.goto t pc pool).CallsInv := by
  -- No thread holds another node than before
  have hnodes : ∀ u, (s.goto t pc pool).node u = s.node u := by
    intro u
    rw [node_goto]
    split
    · rename_i hut
      rw [hnode, hut]
    · rfl
  refine ⟨h.inPool_goto hin hpc, fun u i => ?_, fun i hi => ?_, ?_, fun u i hu => ?_⟩
  · rw [goto_pool, hh, hnodes]
    exact h.holds u i
  · by_cases ht : pool.Has t i
    · exact ⟨t, .inl ht⟩
    · -- Another thread had the node, and has it still
      obtain ⟨hold, hnot⟩ := hlock i hi ht
      exact h.locked_goto hold hnot hpc hn (congrFun hh i)
  · rw [goto_pool, hn]
    exact h.nonempty
  · rw [goto_pool, hn]
    exact h.inside u i (hnodes u ▸ hu)

/-- A thread outside `get_db_connect_from_pool` has no node there. -/
private theorem not_has_of_idle {p : SqlPool} {i : Nat}
    (h : ∀ scan place, p.pc t ≠ .inGet scan place) :
    ¬ p.Has t i := by
  intro hi
  obtain ⟨scan, place, hpc, -⟩ := SqlPool.has_cases hi
  exact h scan place hpc

/-- A step of `get_db_connect_from_pool` that returns no node. -/
private theorem CallsInv.get {scan : SqlScan} {place : GetPlace} (h : s.CallsInv)
    (hpc : s.pc t = .getting) (hp : s.pool.pc t = .inGet scan place) (hplace : place ≠ .markUsed)
    (ok : Bool) : (s.goto t (afterGet s.pool (.inGet scan place))
      (s.pool.getStep t scan ok place)).CallsInv := by
  have hstep := s.pool.getStep_getStep t scan ok place
  have hnone : (afterGet s.pool (.inGet scan place)).socketNode = none := by
    cases place with
    | markUsed => exact absurd rfl hplace
    | trylock =>
      simp only [afterGet]
      split <;> rfl
    | _ => rfl
  -- What the thread has inside the call is the node it looks at, once its mutex is taken
  have hhas : ∀ i, s.pool.Has t i → i = scan.index s.pool.poolNumber ∧ place ≠ .trylock := by
    intro i hi
    rw [SqlPool.Has, hp, SqlPc.node, Option.ite_none_left_eq_some, Option.some.injEq] at hi
    exact ⟨hi.2.symm, hi.1⟩
  refine h.move (afterGet_inPool ..) hstep.pc ?_ ?_ hstep.poolNumber fun i hi hnot => ?_
  · rw [hnone, node, hpc]
    rfl
  · rw [hstep.holders, if_neg hplace]
  · by_cases hidx : i = scan.index s.pool.poolNumber
    · subst hidx
      -- Locked behind the step: had by the thread, or returned, or the trylock failed
      obtain hlock | hlock | ⟨htry, hlock⟩ := hstep.lock hi
      · exact absurd hlock hnot
      · exact absurd hlock hplace
      · exact ⟨hlock, fun ht => (hhas _ ht).2 htry⟩
    · rw [hstep.nodes i hidx] at hi
      exact ⟨hi, fun ht => hidx (hhas i ht).1⟩

/-- `get_db_connect_from_pool` returns a node. -/
private theorem CallsInv.got {scan : SqlScan} (h : s.CallsInv) (hpc : s.pc t = .getting)
    (hp : s.pool.pc t = .inGet scan .markUsed) (ok : Bool) :
    (s.goto t (afterGet s.pool (.inGet scan .markUsed))
      (s.pool.getStep t scan ok .markUsed)).CallsInv := by
  have hstep := s.pool.getStep_getStep t scan ok .markUsed
  have hnone : s.node t = none := by rw [node, hpc]; rfl
  have hnode : ∀ u, (s.goto t (afterGet s.pool (.inGet scan .markUsed))
      (s.pool.getStep t scan ok .markUsed)).node u =
        if u = t then some (scan.index s.pool.poolNumber) else s.node u := fun u => node_goto ..
  have hholders := hstep.holders
  rw [if_pos rfl] at hholders
  refine ⟨h.inPool_goto (afterGet_inPool s.pool t scan ok .markUsed) hstep.pc, fun u i => ?_,
    fun i hi => ?_, ?_, fun u i hu => ?_⟩
  · -- The node returned has a holder more, which is the thread
    have hold := h.holds u i
    rw [goto_pool, hholders, hnode]
    by_cases hidx : i = scan.index s.pool.poolNumber
    · rw [hidx, Function.update_self, List.count_cons]
      rw [hidx] at hold
      by_cases hut : u = t
      · rw [hut, hnone, if_neg (by simp)] at hold
        simp [hut, hold]
      · simp [hut, hold, Ne.symm hut]
    · rw [Function.update_of_ne hidx, hold]
      by_cases hut : u = t
      · simp [hut, hnone, Ne.symm hidx]
      · simp [hut]
  · by_cases hidx : i = scan.index s.pool.poolNumber
    -- The node returned stays locked, and is now held
    · refine ⟨t, .inr ?_⟩
      rw [goto_pool, hholders, hidx, Function.update_self]
      exact List.mem_cons_self
    · rw [goto_pool, hstep.nodes i hidx] at hi
      have hnot : ¬ s.pool.Has t i := by
        intro ht
        rw [SqlPool.Has, hp, SqlPc.node, Option.ite_none_left_eq_some, Option.some.injEq] at ht
        exact hidx ht.2.symm
      exact h.locked_goto hi hnot hstep.pc hstep.poolNumber
        (by rw [goto_pool, hholders, Function.update_of_ne hidx])
  · rw [goto_pool, hstep.poolNumber]
    exact h.nonempty
  · rw [goto_pool, hstep.poolNumber]
    rw [hnode] at hu
    split at hu
    · obtain rfl := Option.some.inj hu
      exact Nat.mod_lt _ h.nonempty
    · exact h.inside u i hu

/-- The node is given back. -/
private theorem CallsInv.released {n : SocketNode} {c : Int} (h : s.CallsInv)
    (hpc : s.pc t = .releasing n c) : (s.goto t (.returned c)
      { (s.pool.setNode n.node { s.pool.sqlPool n.node with sqlLock := false }).goto t .idle with
        holders := Function.update s.pool.holders n.node
          ((s.pool.holders n.node).erase t) }).CallsInv := by
  have hin : s.pool.pc t = .inRelease n.node := by
    have := h.inPool t
    rwa [hpc] at this
  have hnode : s.node t = some n.node := by rw [node, hpc]; rfl
  have hpool : ∀ u, u ≠ t → Function.update s.pool.pc t .idle u = s.pool.pc u :=
    fun u hut => Function.update_of_ne hut ..
  refine ⟨h.inPool_goto (Function.update_self ..) hpool, fun u i => ?_, fun i hi => ?_, h.nonempty,
    fun u i hu => ?_⟩
  · -- The holder that is erased is the thread, which held the node once
    have hold := h.holds u i
    rw [node_goto]
    show (Function.update s.pool.holders n.node ((s.pool.holders n.node).erase t) i).count u = _
    by_cases hidx : i = n.node
    · rw [hidx, Function.update_self]
      rw [hidx] at hold
      by_cases hut : u = t
      · rw [hut, hnode, if_pos rfl] at hold
        rw [hut, List.count_erase_self, hold]
        simp [UpgradePc.socketNode]
      · rw [List.count_erase_of_ne hut, hold, if_neg hut]
    · rw [Function.update_of_ne hidx, hold]
      by_cases hut : u = t
      · simp [hut, hnode, Ne.symm hidx, UpgradePc.socketNode]
      · rw [if_neg hut]
  -- A node that is still locked is another one
  · have hidx : i ≠ n.node := by
      rintro rfl
      simp at hi
    have hi : (s.pool.sqlPool i).sqlLock = true := by
      have hsame := SqlPool.setNode_sqlPool_of_ne s.pool n.node
        { s.pool.sqlPool n.node with sqlLock := false } hidx
      rw [← hsame]
      exact hi
    exact h.locked_goto hi (not_has_of_idle (by simp [hin])) hpool rfl
      (Function.update_of_ne hidx ..)
  · rw [node_goto] at hu
    split at hu
    · cases hu
    · exact h.inside u i hu

/-- Every move keeps the invariant. -/
theorem CallsInv.step {m : UpgradeMove} (h : s.CallsInv) (hs : s.step (t, m) = some s') :
    s'.CallsInv := by
  have hin := h.inPool t
  cases step_moves hin hs with
  | call hidle hs' =>
    have hpc := UpgradePc.idle_cases hidle
    have hpool : s.pool.pc t = .idle := by
      obtain hpc | ⟨c, hpc⟩ := hpc <;> exact hin.idle (by simp [hpc]) (by simp [hpc])
    refine h.move ⟨_, _, Function.update_self ..⟩ (fun u hu => Function.update_of_ne hu ..) ?_
      rfl rfl fun i hi _ => ⟨hi, not_has_of_idle (by simp [hpool])⟩
    obtain hpc | ⟨c, hpc⟩ := hpc <;> rw [node, hpc] <;> rfl
  | @get ok scan place hpc hp =>
    -- The last step of the call hands the node over
    by_cases hplace : place = .markUsed
    · subst hplace
      exact h.got hpc hp ok
    · exact h.get hpc hp hplace ok
  -- The pool is not touched between the two calls
  | @work _ n pc hm hn hrel hn' hrel' hleft =>
    have hget := not_getting_of_socketNode hn
    have hget' := not_getting_of_socketNode hn'
    have hpool := hin.idle hget hrel
    refine h.move ?_ (fun _ _ => rfl) (by rw [node, hn, hn']) rfl rfl fun i hi hnot => ⟨hi, hnot⟩
    rw [hpool]
    cases pc <;> simp_all [UpgradePc.InPool]
  | fault => exact ⟨h.inPool, h.holds, h.locked, h.nonempty, h.inside⟩
  | @release n c hpc hs' =>
    have hpool : s.pool.pc t = .idle := hin.idle (by simp [hpc]) (by simp [hpc])
    refine h.move (Function.update_self ..) (fun u hu => Function.update_of_ne hu ..) ?_ rfl rfl
      fun i hi _ => ⟨?_, not_has_of_idle (by simp [hpool])⟩
    · rw [node, hpc]
      rfl
    · have hsame := s.pool.setNode_field n.node { s.pool.sqlPool n.node with used := false }
        SqlSockNode.sqlLock rfl i
      exact hsame.symm.trans hi
  | released hpc => exact h.released hpc

/-- Nothing is locked when the pool has been created. -/
private theorem createLoop_unlocked {p p' : SqlPool} {outcomes : List (Bool × Bool)}
    (h : SqlPool.createLoop p outcomes = (0, p')) (hp : ∀ i, (p.sqlPool i).sqlLock = false) :
    (∀ i, (p'.sqlPool i).sqlLock = false) ∧ p'.poolNumber = p.poolNumber + outcomes.length := by
  -- On the nodes that are still to be connected
  induction outcomes generalizing p with
  | nil =>
    obtain rfl : p = p' := congrArg Prod.snd h
    exact ⟨hp, rfl⟩
  | cons outcome outcomes ih =>
    obtain ⟨init, connect⟩ := outcome
    cases init with
    | false => simp [SqlPool.createLoop, SqlPool.createConnect] at h
    | true =>
      have hnode : ∀ i,
          ((p.createConnect p.poolNumber true connect).2.sqlPool i).sqlLock = false := by
        intro i
        by_cases hi : i = p.poolNumber
        · rw [hi]
          cases connect <;> simp [SqlPool.createConnect, SqlPool.mysqlInit, SqlPool.mutexInit,
            SqlPool.realConnect, SqlPool.setConnState]
        · cases connect <;> simp [SqlPool.createConnect, SqlPool.mysqlInit, SqlPool.mutexInit,
            SqlPool.realConnect, SqlPool.setConnState, SqlPool.setNode_sqlPool_of_ne, hi, hp]
      have hn : (p.createConnect p.poolNumber true connect).2.poolNumber = p.poolNumber := by
        cases connect <;> rfl
      have hret : (p.createConnect p.poolNumber true connect).1 ≠ -1 := by
        cases connect <;> simp [SqlPool.createConnect]
      simp only [SqlPool.createLoop, if_neg hret] at h
      obtain ⟨hlock, hnumber⟩ := ih h hnode
      refine ⟨hlock, ?_⟩
      simp only [hn] at hnumber
      rw [hnumber, List.length_cons]
      omega

/-- Before the first call. -/
theorem callsInv_init (h : system.init s) : s.CallsInv := by
  obtain ⟨pool, ⟨outcomes, hpos, -, hcreate⟩, rfl⟩ := h
  obtain ⟨hpc, hh⟩ := SqlPool.createLoop_threads hcreate
  obtain ⟨hlock, hn⟩ := createLoop_unlocked hcreate fun _ => rfl
  refine ⟨fun t => congrFun hpc t, fun t i => ?_, fun i hi => ?_, ?_, fun t i hi => ?_⟩
  · show (pool.holders i).count t = _
    rw [congrFun hh i]
    rfl
  · rw [hlock i] at hi
    cases hi
  · show 0 < pool.poolNumber
    omega
  · cases hi

theorem callsInv_of_reach (h : Reachable system s) : s.CallsInv := by
  refine h.invariant (I := CallsInv) (fun _ h0 => callsInv_init h0) ?_
  intro s a s' _ hI _ hs
  exact CallsInv.step (t := a.1) (m := a.2) hI hs

/-- In every run, whatever the outcomes of the MySQL calls: a thread holds the node that its
    call has got and not released, once, and no other; and when no thread is in a call, every
    node is free and unlocked. -/
theorem nodes_released (h : Reachable system s) :
    (∀ t i, (s.pool.holders i).count t = if s.node t = some i then 1 else 0) ∧
      ((∀ t, (s.pc t).idle = true) →
        ∀ i, s.pool.holders i = [] ∧ (s.pool.sqlPool i).sqlLock = false) := by
  have hinv := callsInv_of_reach h
  refine ⟨hinv.holds, fun hidle i => ?_⟩
  have hnode : ∀ t, s.node t = none := by
    intro t
    obtain hpc | ⟨c, hpc⟩ := UpgradePc.idle_cases (hidle t) <;> rw [node, hpc] <;> rfl
  have hheld : s.pool.holders i = [] := by
    apply List.eq_nil_iff_forall_not_mem.mpr
    intro t ht
    have hcount := hinv.holds t i
    rw [hnode t, if_neg (by simp)] at hcount
    exact List.count_eq_zero.mp hcount ht
  refine ⟨hheld, ?_⟩
  by_contra hlock
  obtain ⟨t, ht | ht⟩ := hinv.locked i (by simpa using hlock)
  · have hin := hinv.inPool t
    obtain hpc | ⟨c, hpc⟩ := UpgradePc.idle_cases (hidle t) <;> rw [hpc] at hin <;>
      exact not_has_of_idle (fun scan place heq => by cases hin.symm.trans heq) ht
  · rw [hheld] at ht
    cases ht

/-- The threads of a pool of one node, which is connected. -/
def startOne : UpgradeCalls := { pool := .oneNode, pc := fun _ => .outside, fault := false }

theorem startOne_init : system.init startOne := ⟨.oneNode, SqlPool.oneNode_created, rfl⟩

/-- Thread 0 gets the node, and thread 1 finds it locked. -/
def oneCallerRun : List (Nat × UpgradeMove) :=
  [(0, .call 0), (0, .next true), (0, .next true), (0, .next true), (0, .next true),
    (1, .call 0), (1, .next true), (1, .next true)]

/-- Thread 0 reads a row and releases the node. -/
def oneQueryRun : List (Nat × UpgradeMove) :=
  [(0, .mysqlQuery true), (0, .mysqlStoreResult true), (0, .mysqlFetchRow (some (some [55]))),
    (0, .mysqlFreeResult), (0, .release), (0, .next true)]

/-- The call of thread 0 returns 7, that of thread 1 returns -1, and the node is free. -/
theorem nodes_released_one : ∃ s, system.run startOne (oneCallerRun ++ oneQueryRun) = some s ∧
    s.pc 0 = .returned 7 ∧ s.pc 1 = .returned (-1) ∧ s.pool.holders 0 = [] ∧
    (s.pool.sqlPool 0).sqlLock = false := by
  have hrun : ∃ s, system.run startOne (oneCallerRun ++ oneQueryRun) = some s ∧
      s.pc 0 = .returned 7 ∧ s.pc 1 = .returned (-1) ∧ ∀ t, t ≠ 0 → t ≠ 1 → s.pc t = .outside := by
    refine ⟨_, rfl, rfl, rfl, fun t h0 h1 => ?_⟩
    simp [Function.update_of_ne h0, Function.update_of_ne h1, goto, startOne]
  obtain ⟨s, hr, h0, h1, hrest⟩ := hrun
  have hidle : ∀ t, (s.pc t).idle = true := by
    intro t
    by_cases ht0 : t = 0
    · rw [ht0, h0]
      rfl
    · by_cases ht1 : t = 1
      · rw [ht1, h1]
        rfl
      · rw [hrest t ht0 ht1]
        rfl
  obtain ⟨hheld, hlock⟩ := (nodes_released (.of_run startOne_init hr)).2 hidle 0
  exact ⟨s, hr, h0, h1, hheld, hlock⟩

end UpgradeCalls

end JQServer
