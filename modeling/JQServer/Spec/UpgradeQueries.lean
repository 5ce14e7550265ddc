import JQServer.ForStd.Simulation
import JQServer.Spec.UpgradeCount

/-!
# Queries of many threads

As long as no node is reconnected under a call, a call of `get_upgrade_count_from_database` has
its connection for itself from `mysql_query` to the release (`queries_exclusive`). The pool is
left to `SqlHolders.lean`: `pool_simulates` says that the calls use it as that module asks, so
that its invariant holds here. And no call waits for a node that another call has
(`calls_wait_for_no_node`); what `LOG_INFO` waits for, the mutex of the log, is not part of
the model.
-/

namespace JQServer

namespace UpgradeCalls

open Transition

variable {s s' : UpgradeCalls} {t u : Nat}

/-! ### The calls use the pool as they should -/

/-- No node is locked while another call has it, and none is reconnected under a call that
    gets it (`SqlPool.MutexKept`). -/
def KeepsMutex (s : UpgradeCalls) (a : Nat × UpgradeMove) : Prop :=
  ∀ b ∈ s.poolMoves a, s.pool.MutexKept b

/-- A move as the pool sees it. -/
private theorem Moves.pool_step {m : UpgradeMove} (h : s.Moves t m s')
    (hin : (s.pc t).InPool (s.pool.pc t)) :
    SqlPool.system.run s.pool (s.poolMoves (t, m)) = some s'.pool := by
  have hone : ∀ {b pool}, s.pool.step b = some pool →
      SqlPool.system.run s.pool [b] = some pool := by
    intro b pool hb
    rw [System.run_cons]
    show (s.pool.step b).bind _ = _
    rw [hb]
    rfl
  cases h with
  | call hidle hs => exact hone hs
  | get hpc hp => exact hone (SqlPool.step_next hp _)
  | work hm => rw [hm]; rfl
  | fault => rfl
  | release hpc hs =>
    rw [poolMoves]
    simp only [hpc]
    exact hone hs
  -- Where the release stands in the pool is known from `InPool`
  | @released ok n c hpc =>
    rw [hpc] at hin
    have hin : s.pool.pc t = .inRelease n.node := hin
    refine hone ?_
    simp only [SqlPool.step, hin]
    rfl

/-- The calls are threads of the pool that release only what they hold. -/
theorem pool_simulates : Simulation system KeepsMutex SqlPool.system
    (fun p b => p.ReleasesOwn b ∧ p.MutexKept b) poolMoves fun s p => p = s.pool where
  init s hi := by
    obtain ⟨pool, hpool, rfl⟩ := hi
    exact ⟨pool, hpool, rfl⟩
  step s a s' p hreach hkept hs hp := by
    subst hp
    obtain ⟨t, m⟩ := a
    have hinv := callsInv_of_reach hreach.reachable
    have hrun := (step_moves (hinv.inPool t) hs).pool_step (hinv.inPool t)
    have hown : ∀ b ∈ s.poolMoves (t, m), s.pool.ReleasesOwn b := by
      intro b hb
      cases m with
      | release =>
        simp only [poolMoves] at hb
        split at hb
        · rename_i n c hpc
          obtain rfl := List.mem_singleton.mp hb
          have hcount := hinv.holds t n.node
          have hnode : s.node t = some n.node := by rw [node, hpc]; rfl
          rw [if_pos hnode] at hcount
          exact List.count_pos_iff.mp (by omega)
        · cases hb
      | call | next =>
        obtain rfl := List.mem_singleton.mp hb
        trivial
      | _ => cases hb
    -- A move is at most one step of the pool
    have hlen : (s.poolMoves (t, m)).length ≤ 1 := by
      cases m <;>
        simp only [poolMoves, List.length_singleton, List.length_nil, Nat.zero_le, le_refl]
      split <;> simp
    refine ⟨s'.pool, hrun, ?_, rfl⟩
    cases hmoves : s.poolMoves (t, m) with
    | nil => trivial
    | cons b bs =>
      rw [hmoves, List.length_cons] at hlen
      obtain rfl : bs = [] := List.eq_nil_of_length_eq_zero (by omega)
      have hb : b ∈ s.poolMoves (t, m) := by
        rw [hmoves]
        exact List.mem_singleton_self b
      exact ⟨⟨hown b hb, hkept b hb⟩, fun _ _ => trivial⟩

/-- The invariant of the pool, in the runs in which the mutexes are kept. -/
theorem exclusive_of_reach (h : Reach system KeepsMutex s) : s.pool.Exclusive := by
  obtain ⟨p, hp, rfl⟩ := pool_simulates.reach h
  exact SqlPool.exclusive_of_reach hp

/-- A thread holds the node that its call has got. -/
theorem CallsInv.mem_holders {n : SocketNode} (h : s.CallsInv)
    (hn : (s.pc t).socketNode = some n) : t ∈ s.pool.holders n.node := by
  have hcount := h.holds t n.node
  rw [node, hn, if_pos (by rfl)] at hcount
  exact List.count_pos_iff.mp (by omega)

/-- The handle of a node keeps its connection while a call has the node. -/
theorem conn_kept (h : Reach system KeepsMutex s) :
    ∀ t n, (s.pc t).socketNode = some n → (s.pool.sqlPool n.node).fd = n.conn := by
  refine h.invariant (I := fun s => ∀ t n, (s.pc t).socketNode = some n →
    (s.pool.sqlPool n.node).fd = n.conn) ?_ fun s a s' hreach hI hkept hs => ?_
  · intro s hi t n hn
    obtain ⟨pool, -, rfl⟩ := hi
    cases hn
  · obtain ⟨t, m⟩ := a
    have hinv := callsInv_of_reach hreach.reachable
    intro u n hu
    -- A thread that does not move keeps its node
    have hother : ∀ {pc : UpgradePc} {pool : SqlPool}, u ≠ t →
        ((s.goto t pc pool).pc u).socketNode = some n → (s.pc u).socketNode = some n := by
      intro pc pool hut hn
      rwa [goto_pc_of_ne _ _ _ _ hut] at hn
    cases step_moves (hinv.inPool t) hs with
    | call hidle hs' =>
      by_cases hut : u = t
      · rw [hut, goto_pc_self] at hu
        cases hu
      · exact hI u n (hother hut hu)
    | @get ok scan place hpc hp =>
      have hstep := s.pool.getStep_getStep t scan ok place
      rw [goto_pool]
      by_cases hut : u = t
      · -- The node that is returned has the connection that is recorded
        rw [hut, goto_pc_self] at hu
        cases place with
        | markUsed =>
          obtain rfl := Option.some.inj hu
          exact hstep.fd (.inr rfl)
        | trylock =>
          simp only [afterGet] at hu
          split at hu <;> cases hu
        | _ => cases hu
      · have hu := hother hut hu
        by_cases hidx : n.node = scan.index s.pool.poolNumber
        · have hplace : place = .trylock ∨ place = .markUsed := by
            by_contra hne
            obtain ⟨htry, -⟩ := not_or.mp hne
            have hhas : s.pool.Has t n.node := by
              rw [SqlPool.Has, hp, SqlPc.node, if_neg htry, hidx]
            -- Nobody holds a node that a call has
            have hmem := hinv.mem_holders hu
            rw [(exclusive_of_reach hreach).not_held t n.node hhas] at hmem
            cases hmem
          rw [hidx, hstep.fd hplace, ← hidx]
          exact hI u n hu
        · rw [hstep.nodes _ hidx]
          exact hI u n hu
    | @work _ m pc hm hn hrel hn' hrel' hleft =>
      by_cases hut : u = t
      · rw [hut, goto_pc_self, hn'] at hu
        rw [← Option.some.inj hu]
        exact hI t m hn
      · exact hI u n (hother hut hu)
    | fault => exact hI u n hu
    | @release m c hpc hs' =>
      have hsame := s.pool.setNode_field m.node { s.pool.sqlPool m.node with used := false }
        SqlSockNode.fd rfl n.node
      refine hsame.trans ?_
      by_cases hut : u = t
      · rw [hut, goto_pc_self] at hu
        obtain rfl := Option.some.inj hu
        exact hI t m (by rw [hpc]; rfl)
      · exact hI u n (hother hut hu)
    | @released ok m c hpc =>
      have hsame := s.pool.setNode_field m.node { s.pool.sqlPool m.node with sqlLock := false }
        SqlSockNode.fd rfl n.node
      refine hsame.trans ?_
      by_cases hut : u = t
      · rw [hut, goto_pc_self] at hu
        cases hu
      · exact hI u n (hother hut hu)

/-- A thread has a connection for itself: no other call has got the node, and none has locked
    it in `get_db_connect_from_pool`. -/
structure HasAlone (s : UpgradeCalls) (t : Nat) (n : SocketNode) : Prop where
  alone : ∀ u m, (s.pc u).socketNode = some m → m.node = n.node → u = t
  notGetting : ∀ u, ¬ s.pool.Has u n.node
  locked : (s.pool.sqlPool n.node).sqlLock = true
  conn : (s.pool.sqlPool n.node).fd = n.conn

/-- In every run of any number of threads in which no node is locked while another call has it
    and none is reconnected under a call that gets it: from `mysql_query` to the release a call
    has its node, and the connection that it got, for itself. -/
theorem queries_exclusive (h : Reach system KeepsMutex s) {n : SocketNode}
    (hn : (s.pc t).socketNode = some n) : s.HasAlone t n := by
  have hinv := callsInv_of_reach h.reachable
  have hexcl := exclusive_of_reach h
  have hmem := hinv.mem_holders hn
  refine ⟨fun u m hm hnode => ?_, fun u hu => ?_, ?_, conn_kept h t n hn⟩
  · -- The node has one holder
    have hu := hinv.mem_holders hm
    rw [hnode] at hu
    have hone := hexcl.one n.node
    obtain ⟨v, hv⟩ := List.length_eq_one_iff.mp
      (Nat.le_antisymm hone (List.length_pos_of_mem hmem))
    rw [hv, List.mem_singleton] at hu hmem
    exact hu.trans hmem.symm
  · -- A node that is locked in the pool has no holder
    rw [hexcl.not_held u n.node hu] at hmem
    cases hmem
  · apply hexcl.held_locked
    intro hnil
    rw [hnil] at hmem
    cases hmem

/-- Thread 0 has the only connection while thread 1 is turned away. -/
theorem queries_exclusive_one : ∃ s n, system.run startOne oneCallerRun = some s ∧
    s.pc 0 = .query n ∧ s.HasAlone 0 n := by
  have hone : ∀ {s : UpgradeCalls} {a b}, s.poolMoves a = [b] → s.pool.MutexKept b →
      s.KeepsMutex a := by
    intro s a b ha hb b' hmem
    rw [ha, List.mem_singleton] at hmem
    exact hmem ▸ hb
  have hfree : ∀ u, ¬ (SqlPool.oneNode.goto 0 (.inGet ⟨0, 0⟩ .trylock)).Has u 0 := by
    intro u hu
    obtain ⟨scan, place, hpc, hplace, -⟩ := SqlPool.has_cases hu
    by_cases h0 : u = 0
    · rw [h0, SqlPool.goto_pc_self] at hpc
      cases hpc
      exact hplace rfl
    · rw [SqlPool.goto_pc_of_ne _ _ _ h0] at hpc
      cases hpc
  have hmeets : system.Meets KeepsMutex startOne oneCallerRun :=
    .cons rfl (hone rfl trivial) (.cons rfl (hone rfl fun _ _ => hfree)
      (.cons rfl (hone rfl trivial) (.cons rfl (hone rfl trivial) (.cons rfl (hone rfl trivial)
        (.cons rfl (hone rfl trivial) (.cons rfl (hone rfl fun _ hlock => by cases hlock)
          (.cons rfl (hone rfl fun hlt => absurd hlt (Nat.lt_irrefl 1)) .nil)))))))
  have hrun : ∃ s n, system.run startOne oneCallerRun = some s ∧ s.pc 0 = .query n :=
    ⟨_, _, rfl, rfl⟩
  obtain ⟨s, n, hr, hpc⟩ := hrun
  exact ⟨s, n, hr, hpc, queries_exclusive (.run (.init startOne_init) hmeets hr) (by rw [hpc]; rfl)⟩

/-! ### Calls do not wait for nodes -/

/-- The steps that a pass of `get_db_connect_from_pool` can still take behind the lock. -/
def passLeft : GetPlace → Nat
  | .state => 9
  | .mysqlInit => 8
  | .mutexInit => 7
  | .realConnect => 6
  | .connected => 5
  | .ping _ => 4
  | .markUsed | .pingFailed | .connectFailed => 3
  | .clearUsed => 2
  | .unlock => 1
  | .trylock => 0

/-- The steps that `get_db_connect_from_pool` can still take, and 7 for what follows. -/
def getLeft (poolNumber : Nat) : SqlPc → Nat
  | .inGet scan place =>
    if place = .trylock then 10 * (poolNumber - scan.loopIndex) + 7
    else 10 * (poolNumber - (scan.loopIndex + 1)) + 7 + passLeft place
  | _ => 0

/-- The steps that a call can still take. -/
def left (s : UpgradeCalls) (t : Nat) : Nat :=
  if s.fault then 0
  else if s.pc t = .getting then getLeft s.pool.poolNumber (s.pool.pc t)
  else (s.pc t).workLeft

/-- A call takes at most 10 steps for each node and 7 more. -/
theorem CallsInv.left_le (h : s.CallsInv) (t : Nat) : s.left t ≤ 10 * s.pool.poolNumber + 7 := by
  have hpos := h.nonempty
  unfold left
  split
  · exact Nat.zero_le _
  · split
    · cases s.pool.pc t with
      | inGet scan place =>
        rw [getLeft]
        split
        · omega
        · have hplace : passLeft place ≤ 9 := by cases place <;> simp [passLeft]
          omega
      | idle | inRelease => exact Nat.zero_le _
    · have hwork : (s.pc t).workLeft ≤ 6 := by cases s.pc t <;> simp [UpgradePc.workLeft]
      omega

/-- A step of `get_db_connect_from_pool` that does not return leaves it fewer steps, and one
    that returns leaves 6 at most. -/
private theorem getLeft_getStep (p : SqlPool) (t : Nat) (scan : SqlScan) (ok : Bool)
    (place : GetPlace) :
    (afterGet p (.inGet scan place) = .getting →
      getLeft p.poolNumber ((p.getStep t scan ok place).pc t) <
        getLeft p.poolNumber (.inGet scan place)) ∧
      7 ≤ getLeft p.poolNumber (.inGet scan place) := by
  constructor
  · intro hget
    cases place with
    | trylock =>
      simp only [afterGet] at hget
      split at hget
      · rename_i hlt
        simp only [SqlPool.getStep, if_pos hlt]
        -- Either the next pass of the loop or, if the trylock succeeds, the rest of this one
        split
        · have hnext : scan.next.loopIndex = scan.loopIndex + 1 := rfl
          rw [SqlPool.goto_pc_self, getLeft, getLeft, if_pos rfl, if_pos rfl, hnext]
          omega
        · rw [SqlPool.goto_pc_self, getLeft, getLeft, if_pos rfl, if_neg (by simp), passLeft]
          omega
      · cases hget
    | markUsed => cases hget
    -- The end of a pass: a new one starts, and `passLeft` of it is less than what was left
    | unlock =>
      simp only [SqlPool.getStep, SqlPool.goto_pc_self, getLeft, SqlScan.next, passLeft]
      simp
    | state | mysqlInit | ping | realConnect =>
      simp only [SqlPool.getStep, apply_ite]
      split <;> simp [getLeft, passLeft]
    | _ => simp [SqlPool.getStep, getLeft, passLeft]
  · rw [getLeft]
    split <;> omega

/-- A step of a thread leaves it fewer steps, unless it is a new call. -/
private theorem CallsInv.left_step {m : UpgradeMove} (h : s.CallsInv)
    (hs : s.step (t, m) = some s') (hm : ∀ startIndex, m ≠ .call startIndex) :
    s'.left t < s.left t := by
  have hin := h.inPool t
  -- After undefined behaviour there is no step
  have hf : s.fault = false := by
    by_contra hf
    simp only [UpgradeCalls.step, Bool.not_eq_false] at hs hf
    rw [if_pos hf] at hs
    cases hs
  have hgoto : ∀ (pc : UpgradePc) (pool : SqlPool), (s.goto t pc pool).left t =
      if pc = .getting then getLeft pool.poolNumber (pool.pc t) else pc.workLeft := by
    intro pc pool
    simp [left, hf]
  have hleft : s.left t =
      if s.pc t = .getting then getLeft s.pool.poolNumber (s.pool.pc t)
      else (s.pc t).workLeft := by
    simp [left, hf]
  cases step_moves hin hs with
  | call => exact absurd rfl (hm _)
  -- A step that returns leaves the 6 of the query, less than any step before it
  | @get ok scan place hpc hp =>
    obtain ⟨hless, hpos⟩ := getLeft_getStep s.pool t scan ok place
    rw [hgoto, hleft, if_pos hpc, hp, (s.pool.getStep_getStep t scan ok place).poolNumber]
    split
    · rename_i hget
      exact hless hget
    · have hwork : (afterGet s.pool (.inGet scan place)).workLeft ≤ 6 := by
        cases afterGet s.pool (.inGet scan place) <;> simp [UpgradePc.workLeft]
      omega
  | work _ hn _ hn' _ hless =>
    rw [hgoto, hleft, if_neg (not_getting_of_socketNode hn), if_neg (not_getting_of_socketNode hn')]
    exact hless
  | fault hpc => simp [left, hf, hpc, UpgradePc.workLeft]
  | release hpc hs' => simp [hgoto, hleft, hpc, UpgradePc.workLeft]
  | released hpc => simp [hgoto, hleft, hpc, UpgradePc.workLeft]

/-- A step of another thread does not add to what is left. -/
private theorem CallsInv.left_other {m : UpgradeMove} (h : s.CallsInv)
    (hs : s.step (t, m) = some s') (hut : u ≠ t) : s'.left u ≤ s.left u := by
  have hgoto : ∀ {pc : UpgradePc} {pool : SqlPool}, pool.poolNumber = s.pool.poolNumber →
      pool.pc u = s.pool.pc u → (s.goto t pc pool).left u ≤ s.left u := by
    intro pc pool hn hpc
    rw [left, left, goto_fault, goto_pc_of_ne _ _ _ _ hut, goto_pool, hn, hpc]
  cases step_moves (h.inPool t) hs with
  | call | release | released => exact hgoto rfl (Function.update_of_ne hut ..)
  | @get ok scan place =>
    have hstep := s.pool.getStep_getStep t scan ok place
    exact hgoto hstep.poolNumber (hstep.pc u hut)
  | work => exact hgoto rfl rfl
  | fault => exact Nat.zero_le _

/-- What is left of a call bounds its steps in every run. -/
private theorem CallsInv.left_run {as : List (Nat × UpgradeMove)} (h : s.CallsInv)
    (hr : system.run s as = some s') (hcall : ∀ startIndex, (t, .call startIndex) ∉ as) :
    (as.map Prod.fst).count t + s'.left t ≤ s.left t := by
  -- On the run: a step of the thread lowers what is left, one of another does not raise it
  induction as generalizing s with
  | nil =>
    obtain rfl := Option.some.inj hr
    simp
  | cons a as ih =>
    obtain ⟨v, m⟩ := a
    obtain ⟨s₁, hs, hrest⟩ := System.run_cons_some hr
    have hs : s.step (v, m) = some s₁ := hs
    replace hrest := ih (h.step hs) hrest fun startIndex hmem =>
      hcall startIndex (List.mem_cons_of_mem _ hmem)
    rw [List.map_cons, List.count_cons]
    by_cases hvt : v = t
    · subst hvt
      have hless := h.left_step hs fun startIndex hm =>
        hcall startIndex (hm ▸ List.mem_cons_self)
      simp only [beq_self_eq_true, ↓reduceIte]
      omega
    · have hle := h.left_other hs (Ne.symm hvt)
      simp only [beq_iff_eq, hvt, ↓reduceIte]
      omega

/-- A thread in a call can take a step. -/
private theorem CallsInv.enabled (h : s.CallsInv) (hf : s.fault = false)
    (ht : (s.pc t).idle = false) : ∃ m s', s.step (t, m) = some s' := by
  have hin := h.inPool t
  cases hpc : s.pc t with
  | outside | returned =>
    rw [hpc] at ht
    cases ht
  | getting =>
    rw [hpc] at hin
    obtain ⟨scan, place, hplace⟩ := hin
    refine ⟨.next true, ?_⟩
    have hpool : s.pool.step (t, .next true) = _ := SqlPool.step_next hplace true
    simp only [UpgradeCalls.step, hf, hpc, hpool, Option.map_some]
    exact ⟨_, rfl⟩
  | query n =>
    refine ⟨.mysqlQuery true, ?_⟩
    simp [UpgradeCalls.step, hf, hpc]
  | storeResult n =>
    refine ⟨.mysqlStoreResult true, ?_⟩
    simp [UpgradeCalls.step, hf, hpc]
  | fetchRow n =>
    refine ⟨.mysqlFetchRow none, ?_⟩
    simp [UpgradeCalls.step, hf, hpc]
  | freeResult n c =>
    refine ⟨.mysqlFreeResult, ?_⟩
    simp [UpgradeCalls.step, hf, hpc]
  -- To release a node the pool must be idle in this thread and the node inside it
  | exit n c =>
    have hpool : s.pool.pc t = .idle := hin.idle (by simp [hpc]) (by simp [hpc])
    have hnode : n.node < s.pool.poolNumber := h.inside t n.node (by rw [node, hpc]; rfl)
    refine ⟨.release, ?_⟩
    simp [UpgradeCalls.step, hf, hpc, SqlPool.step, hpool, hnode]
  | releasing n c =>
    rw [hpc] at hin
    have hin : s.pool.pc t = .inRelease n.node := hin
    refine ⟨.next true, ?_⟩
    simp [UpgradeCalls.step, hf, hpc, SqlPool.step, hin]

/-- No call waits for a node: a thread in a call can always take a step, whatever nodes the
    others have, and in every run it takes at most 10 for each node of the pool and 7 more until
    it calls again. -/
theorem calls_wait_for_no_node (h : Reachable system s) (hf : s.fault = false)
    (ht : (s.pc t).idle = false) : (∃ m s', s.step (t, m) = some s') ∧
      ∀ as s', system.run s as = some s' → (∀ startIndex, (t, .call startIndex) ∉ as) →
        (as.map Prod.fst).count t ≤ 10 * s.pool.poolNumber + 7 := by
  have hinv := callsInv_of_reach h
  refine ⟨hinv.enabled hf ht, fun as s' hr hcall => ?_⟩
  have hrun := hinv.left_run hr hcall
  have hle := hinv.left_le t
  omega

/-- Thread 1 goes on and returns while thread 0 has the only node. -/
theorem calls_wait_for_no_node_one : ∃ s, system.run startOne (oneCallerRun.take 6) = some s ∧
    s.pc 1 = .getting ∧ (∃ m s', s.step (1, m) = some s') ∧
    ∀ as s', system.run s as = some s' → (∀ startIndex, (1, .call startIndex) ∉ as) →
      (as.map Prod.fst).count 1 ≤ 17 := by
  have hrun : ∃ s, system.run startOne (oneCallerRun.take 6) = some s ∧ s.pc 1 = .getting ∧
      s.fault = false ∧ s.pool.poolNumber = 1 := ⟨_, rfl, rfl, rfl, rfl⟩
  obtain ⟨s, hr, hpc, hf, hn⟩ := hrun
  obtain ⟨hstep, hbound⟩ :=
    calls_wait_for_no_node (t := 1) (.of_run startOne_init hr) hf (by rw [hpc]; rfl)
  rw [hn] at hbound
  exact ⟨s, hr, hpc, hstep, hbound⟩

end UpgradeCalls

end JQServer
