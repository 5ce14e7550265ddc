import JQServer.Spec.SqlHandles
import Mathlib.Data.List.Rotate
import Mathlib.Data.List.TakeWhile

/-!
# The search of `get_db_connect_from_pool`

A node is usable if it is unlocked, connected or reconnected, and answers the ping. One pass
of the loop decides that for one node (`getPass_pass`) and leaves the others alone, so the
loop finds the first usable node of the pool in cyclic order (`get_finds_usable`).

A thread that runs `get_db_connect_from_pool` step by step, alone, ends with the same node
and the same pool (`getDbConnectFromPool_steps`).
-/

namespace JQServer

/-- Whether `get_db_connect_from_pool` takes a node when it comes to it. -/
def SqlPool.usable (s : SqlPool) (i : Nat) (o : MysqlOutcome) : Bool :=
  !(s.sqlPool i).sqlLock && ((s.sqlPool i).sqlState = .conn || o.init && o.connect) && o.ping

/-- The indexes below `n` in cyclic order. -/
def cyclic (startIndex n : Nat) : List Nat := (List.range n).rotate startIndex

namespace PoolTrace

/-- The nodes that were tried, in order. -/
def tries (r : PoolTrace) : List Nat :=
  r.calls.reverse.filterMap fun
    | .trylock i => some i
    | _ => none

/-- What `get_db_connect_from_pool` returns and leaves, called with the pool `s`. -/
structure FindsUsable (s : SqlPool) (startIndex : Nat) (outcome : Nat → MysqlOutcome)
    (found : Option Nat) (r : PoolTrace) : Prop where
  first : found =
    (cyclic startIndex s.poolNumber).find? fun i => s.usable i (outcome i)
  none_iff : found = none ↔ ∀ i < s.poolNumber, s.usable i (outcome i) = false
  tries : r.tries = (cyclic startIndex s.poolNumber).takeWhile
    (fun i => !s.usable i (outcome i)) ++ found.toList
  once : r.tries.Nodup
  taken : ∀ i, found = some i → (r.pool.sqlPool i).used = true
  rejected : ∀ i ∈ r.tries, found ≠ some i → (s.sqlPool i).sqlLock = false →
    (r.pool.sqlPool i).used = false ∧ (r.pool.sqlPool i).sqlState = .disconn
  locked : ∀ i, (s.sqlPool i).sqlLock = true → r.pool.sqlPool i = s.sqlPool i
  untried : ∀ i, i ∉ r.tries → r.pool.sqlPool i = s.sqlPool i

/-- What one pass of the loop does: it decides about its node and leaves the others alone. -/
structure Pass (r : PoolTrace) (i : Nat) (o : MysqlOutcome) (taken : Bool) (r' : PoolTrace) :
    Prop where
  decides : taken = r.pool.usable i o
  tries : r'.tries = r.tries ++ [i]
  poolNumber : r'.pool.poolNumber = r.pool.poolNumber
  others : ∀ j, j ≠ i → r'.pool.sqlPool j = r.pool.sqlPool j
  locked : (r.pool.sqlPool i).sqlLock = true → r'.pool.sqlPool i = r.pool.sqlPool i
  used : taken = true → (r'.pool.sqlPool i).used = true
  rejected : taken = false → (r.pool.sqlPool i).sqlLock = false →
    (r'.pool.sqlPool i).used = false ∧ (r'.pool.sqlPool i).sqlState = .disconn

variable {r : PoolTrace} {i : Nat} {o : MysqlOutcome}

/-! ### One pass -/

theorem tries_cons_trylock (s : SqlPool) (calls : List PoolCall) :
    tries { pool := s, calls := .trylock i :: calls } =
      tries { pool := s, calls := calls } ++ [i] := by
  simp [tries]

/-- What `reconnect` leaves: the other nodes, the nodes that were tried, and a node that is
    connected if and only if it was or has been reconnected. -/
private theorem reconnect_spec (r : PoolTrace) (i : Nat) (o : MysqlOutcome) :
    ((r.reconnect i o).1 = 0 ↔ (r.pool.sqlPool i).sqlState = .conn ∨ o.init ∧ o.connect) ∧
    (r.reconnect i o).2.tries = r.tries ∧
    (r.reconnect i o).2.pool.poolNumber = r.pool.poolNumber ∧
    (∀ j, j ≠ i → (r.reconnect i o).2.pool.sqlPool j = r.pool.sqlPool j) ∧
    ((r.reconnect i o).1 ≠ 0 → ((r.reconnect i o).2.pool.sqlPool i).sqlState = .disconn) := by
  unfold PoolTrace.reconnect
  split
  · rename_i hstate
    -- Disconnected: `create_connect` is called
    obtain ⟨init, connect, ping⟩ := o
    rw [PoolTrace.createConnect, createConnect_eq, hstate]
    cases init with
    | false => simp [tries, hstate]
    | true =>
      cases connect with
      | false =>
        refine ⟨by simp, by simp [tries], by simp, fun j hji => ?_, fun _ => ?_⟩
        · exact SqlPool.setNode_sqlPool_of_ne _ _ _ hji
        · exact congrArg SqlSockNode.sqlState (SqlPool.setNode_sqlPool_self ..)
      | true =>
        refine ⟨by simp, by simp [tries], by simp, fun j hji => ?_, fun h => absurd rfl h⟩
        exact SqlPool.setNode_sqlPool_of_ne _ _ _ hji
  · rename_i hstate
    -- Nothing is done to a connected node
    have hconn : (r.pool.sqlPool i).sqlState = .conn := by
      cases hs : (r.pool.sqlPool i).sqlState with
      | disconn => exact absurd hs hstate
      | conn => rfl
    exact ⟨iff_of_true rfl (.inl hconn), rfl, rfl, fun _ _ => rfl, fun h => absurd rfl h⟩

/-- What the ping leaves: the other nodes, the nodes that were tried, and a node that is
    marked as used, or disconnected. -/
private theorem pingNode_spec (r : PoolTrace) (i : Nat) (ok : Bool) :
    (r.pingNode i ok).1 = ok ∧ (r.pingNode i ok).2.tries = r.tries ∧
    (r.pingNode i ok).2.pool.poolNumber = r.pool.poolNumber ∧
    (∀ j, j ≠ i → (r.pingNode i ok).2.pool.sqlPool j = r.pool.sqlPool j) ∧
    ((r.pingNode i ok).2.pool.sqlPool i).used = ok ∧
    (ok = false → ((r.pingNode i ok).2.pool.sqlPool i).sqlState = .disconn) := by
  unfold PoolTrace.pingNode
  cases ok with
  | true =>
    refine ⟨rfl, by simp [tries], rfl, fun j hji => ?_, ?_, nofun⟩
    · exact SqlPool.setNode_sqlPool_of_ne _ _ _ hji
    · exact congrArg SqlSockNode.used (SqlPool.setNode_sqlPool_self ..)
  | false =>
    refine ⟨rfl, by simp [tries], rfl, fun j hji => ?_, ?_, fun _ => ?_⟩
    · simp [SqlPool.releaseNode, SqlPool.disconnNode, SqlPool.setNode_sqlPool_of_ne _ _ _ hji]
    · simp [SqlPool.releaseNode]
    · simp [SqlPool.releaseNode, SqlPool.disconnNode]

theorem getPass_pass (r : PoolTrace) (i : Nat) (o : MysqlOutcome) :
    r.Pass i o (r.getPass i o).1 (r.getPass i o).2 := by
  have htry : tries { r with calls := .trylock i :: r.calls } = r.tries ++ [i] :=
    tries_cons_trylock ..
  unfold PoolTrace.getPass
  simp only
  split
  · -- Another thread has locked the node
    rename_i hlock
    refine ⟨?_, htry, rfl, fun _ _ => rfl, fun _ => rfl, nofun, fun _ hfree => ?_⟩
    · simp [SqlPool.usable, hlock]
    · exact nomatch hlock.symm.trans hfree
  · -- The node is locked by this call
    rename_i hlock
    have hfree : (r.pool.sqlPool i).sqlLock = false := eq_false_of_ne_true hlock
    let r₁ := PoolTrace.lock { r with calls := .trylock i :: r.calls } i
    have hstate : (r₁.pool.sqlPool i).sqlState = (r.pool.sqlPool i).sqlState :=
      SqlPool.setNode_field r.pool i { r.pool.sqlPool i with sqlLock := true }
        SqlSockNode.sqlState rfl i
    have hkeep : ∀ j, j ≠ i → r₁.pool.sqlPool j = r.pool.sqlPool j := fun j hji =>
      SqlPool.setNode_sqlPool_of_ne _ _ _ hji
    obtain ⟨hret, htries, hnumber, hothers, hfailed⟩ := reconnect_spec r₁ i o
    rw [hstate] at hret
    have htries₁ : (r₁.reconnect i o).2.tries = r.tries ++ [i] := htries.trans htry
    have hothers₁ : ∀ j, j ≠ i → (r₁.reconnect i o).2.pool.sqlPool j = r.pool.sqlPool j :=
      fun j hji => (hothers j hji).trans (hkeep j hji)
    split
    · -- The node could not be connected
      rename_i hne
      refine ⟨?_, htries₁, hnumber, fun j hji => ?_, fun h => absurd h hlock, nofun,
        fun _ _ => ⟨?_, ?_⟩⟩
      · have hnot := mt hret.mpr hne
        simp only [not_or] at hnot
        simp [SqlPool.usable, hnot]
      · rw [SqlPool.releaseNode, SqlPool.setNode_sqlPool_of_ne _ _ _ hji, hothers₁ j hji]
      · rw [SqlPool.releaseNode, SqlPool.setNode_sqlPool_self]
      · rw [SqlPool.releaseNode, SqlPool.setNode_sqlPool_self]
        exact hfailed hne
    · -- The node is pinged
      rename_i hzero
      have hyes := hret.mp (not_not.mp hzero)
      obtain ⟨hok, hping, hnum, hrest, hused, hdisconn⟩ :=
        pingNode_spec (r₁.reconnect i o).2 i o.ping
      refine ⟨?_, hping.trans htries₁, hnum.trans hnumber, fun j hji => ?_,
        fun h => absurd h hlock, fun htaken => ?_, fun hnot _ => ⟨?_, ?_⟩⟩
      · rw [hok]
        simpa [SqlPool.usable, hfree] using fun _ => hyes
      · rw [hrest j hji, hothers₁ j hji]
      · rw [hused, ← hok, htaken]
      · rw [hused, ← hok, hnot]
      · exact hdisconn (hok.symm.trans hnot)

/-! ### The loop -/

/-- The loop, given the nodes that it comes to. -/
def getNodes (outcome : Nat → MysqlOutcome) : List Nat → PoolTrace → Option Nat × PoolTrace
  | [], r => (none, r)
  | i :: nodes, r =>
    let (taken, r) := r.getPass i (outcome i)
    if taken then (some i, r) else getNodes outcome nodes r

theorem getLoop_eq_getNodes (startIndex : Nat) (outcome : Nat → MysqlOutcome)
    (passes loopIndex : Nat) (r : PoolTrace) :
    getLoop startIndex outcome passes loopIndex r =
      getNodes outcome ((List.range' loopIndex passes).map fun k =>
        (startIndex + k) % r.pool.poolNumber) r := by
  induction passes generalizing loopIndex r with
  | zero => rfl
  | succ passes ih =>
    let i := (startIndex + loopIndex) % r.pool.poolNumber
    have hnumber := (getPass_pass r i (outcome i)).poolNumber
    rw [getLoop, List.range'_succ, List.map_cons, getNodes]
    simp only
    split
    · rfl
    · rw [ih, hnumber]

theorem cyclic_eq_map (startIndex n : Nat) :
    cyclic startIndex n = (List.range' 0 n).map fun k => (startIndex + k) % n := by
  apply List.ext_getElem
  · simp [cyclic]
  · intro k h₁ h₂
    simp [cyclic, List.getElem_rotate, Nat.add_comm]

theorem cyclic_nodup (startIndex n : Nat) : (cyclic startIndex n).Nodup :=
  List.nodup_rotate.mpr List.nodup_range

theorem mem_cyclic {startIndex n i : Nat} : i ∈ cyclic startIndex n ↔ i < n :=
  List.mem_rotate.trans List.mem_range

/-- What the loop finds and leaves, given the nodes that it comes to and which of them are
    usable. -/
structure FindsNode (r : PoolTrace) (usable : Nat → Bool) (nodes : List Nat)
    (found : Option Nat) (r' : PoolTrace) : Prop where
  first : found = nodes.find? usable
  tries : r'.tries = r.tries ++ (nodes.takeWhile (fun i => !usable i) ++ found.toList)
  taken : ∀ i, found = some i → (r'.pool.sqlPool i).used = true
  rejected : ∀ i ∈ nodes.takeWhile (fun i => !usable i), (r.pool.sqlPool i).sqlLock = false →
    (r'.pool.sqlPool i).used = false ∧ (r'.pool.sqlPool i).sqlState = .disconn
  locked : ∀ i, (r.pool.sqlPool i).sqlLock = true → r'.pool.sqlPool i = r.pool.sqlPool i
  untried : ∀ i, i ∉ nodes.takeWhile (fun i => !usable i) → found ≠ some i →
    r'.pool.sqlPool i = r.pool.sqlPool i

/-- A pass that rejects its node, and the loop over the others. -/
private theorem FindsNode.rejected_cons {usable : Nat → Bool} {nodes : List Nat}
    {found : Option Nat} {r₁ r' : PoolTrace} (hpass : r.Pass i o false r₁)
    (hnot : usable i = false) (hnotMem : i ∉ nodes) (h : r₁.FindsNode usable nodes found r') :
    r.FindsNode usable (i :: nodes) found r' := by
  have hwhile : (i :: nodes).takeWhile (fun i => !usable i) =
      i :: nodes.takeWhile (fun i => !usable i) := by
    simp [hnot]
  -- The rest of the loop does not come back to the node
  have hself : r'.pool.sqlPool i = r₁.pool.sqlPool i := by
    apply h.untried
    · exact fun hmem => hnotMem (List.takeWhile_subset _ hmem)
    · intro hfound
      exact hnotMem (List.mem_of_find?_eq_some (h.first.symm.trans hfound))
  refine ⟨?_, ?_, h.taken, fun j hj hfree => ?_, fun j hj => ?_, fun j hj hfound => ?_⟩
  · simpa [hnot] using h.first
  · rw [h.tries, hpass.tries, hwhile, List.append_assoc]
    rfl
  · rw [hwhile] at hj
    rcases List.mem_cons.mp hj with rfl | hj
    · rw [hself]
      exact hpass.rejected rfl hfree
    · have hji : j ≠ i := ne_of_mem_of_not_mem (List.takeWhile_subset _ hj) hnotMem
      rw [← hpass.others j hji] at hfree
      exact h.rejected j hj hfree
  · by_cases hji : j = i
    · subst hji
      rw [hself, hpass.locked hj]
    · rw [← hpass.others j hji] at hj ⊢
      exact h.locked j hj
  · rw [hwhile] at hj
    obtain ⟨hji, hj⟩ := not_or.mp (mt List.mem_cons.mpr hj)
    rw [h.untried j hj hfound, hpass.others j hji]

theorem getNodes_findsNode {outcome : Nat → MysqlOutcome} {usable : Nat → Bool}
    {nodes : List Nat} (hnodup : nodes.Nodup)
    (husable : ∀ i ∈ nodes, r.pool.usable i (outcome i) = usable i) :
    r.FindsNode usable nodes (getNodes outcome nodes r).1 (getNodes outcome nodes r).2 := by
  induction nodes generalizing r with
  | nil => exact ⟨rfl, by simp [getNodes], nofun, nofun, fun _ _ => rfl, fun _ _ _ => rfl⟩
  | cons i nodes ih =>
    obtain ⟨hnotMem, hnodup⟩ := List.nodup_cons.mp hnodup
    obtain ⟨hi, hnodes⟩ := List.forall_mem_cons.mp husable
    have hpass := getPass_pass r i (outcome i)
    rw [getNodes]
    simp only
    split
    · -- The node is taken
      rename_i htaken
      have hyes : usable i = true := hi.symm.trans (hpass.decides.symm.trans htaken)
      refine ⟨?_, ?_, fun j hj => ?_, ?_, fun j hj => ?_, fun j _ hj => ?_⟩
      · simp [hyes]
      · simp [hyes, hpass.tries]
      · obtain rfl := Option.some.inj hj
        exact hpass.used htaken
      · simp [hyes]
      · by_cases hji : j = i
        · subst hji
          exact hpass.locked hj
        · exact hpass.others j hji
      · exact hpass.others j fun hji => hj (congrArg some hji.symm)
    · -- The loop goes on; the nodes to come are as they were
      rename_i htaken
      have htaken := eq_false_of_ne_true htaken
      have hnot : usable i = false := hi.symm.trans (hpass.decides.symm.trans htaken)
      rw [htaken] at hpass
      refine (ih hnodup fun j hj => ?_).rejected_cons hpass hnot hnotMem
      rw [SqlPool.usable, hpass.others j (ne_of_mem_of_not_mem hj hnotMem)]
      exact hnodes j hj

/-- `get_db_connect_from_pool` returns the first usable node in cyclic order, and NULL
    exactly if there is none; the nodes before it are tried once, and disconnected if they
    were not locked. -/
theorem get_finds_usable (s : SqlPool) (startIndex : Nat) (outcome : Nat → MysqlOutcome) :
    FindsUsable s startIndex outcome
      (getDbConnectFromPool { pool := s, calls := [] } startIndex outcome).1
      (getDbConnectFromPool { pool := s, calls := [] } startIndex outcome).2 := by
  rw [getDbConnectFromPool, getLoop_eq_getNodes, ← cyclic_eq_map]
  let usable : Nat → Bool := fun i => s.usable i (outcome i)
  let nodes := cyclic startIndex s.poolNumber
  have h : FindsNode { pool := s, calls := [] } usable nodes
      (getNodes outcome nodes { pool := s, calls := [] }).1
      (getNodes outcome nodes { pool := s, calls := [] }).2 :=
    getNodes_findsNode (cyclic_nodup ..) fun _ _ => rfl
  generalize getNodes outcome nodes { pool := s, calls := [] } = result at h ⊢
  obtain ⟨found, r⟩ := result
  have htries : r.tries = nodes.takeWhile (fun i => !usable i) ++ found.toList := h.tries
  have hmem : ∀ i, i ∈ r.tries ↔ i ∈ nodes.takeWhile (fun i => !usable i) ∨ found = some i := by
    intro i
    rw [htries, List.mem_append, Option.mem_toList]
  refine ⟨h.first, ?_, htries, ?_, h.taken, fun i hi hfound hfree => ?_, h.locked,
    fun i hi => ?_⟩
  · rw [h.first, List.find?_eq_none]
    simp only [nodes, mem_cyclic, usable, Bool.not_eq_true]
  · -- The node that is found is usable, the ones before it are not
    rw [htries]
    apply List.Nodup.append
    · exact (cyclic_nodup ..).sublist (List.takeWhile_sublist _)
    · cases found with
      | none => exact List.nodup_nil
      | some i => exact List.nodup_singleton i
    · intro i hi hfound
      have hnot := List.mem_takeWhile_imp hi
      have hyes := List.find?_some (h.first.symm.trans (Option.mem_toList.mp hfound))
      simp [hyes] at hnot
  · exact h.rejected i (((hmem i).mp hi).resolve_right hfound) hfree
  · obtain ⟨hnot, hfound⟩ := not_or.mp (mt (hmem i).mpr hi)
    exact h.untried i hnot hfound

end PoolTrace

/-! ### Step by step -/

namespace SqlPool

variable {s u v : SqlPool} {t i : Nat} {scan : SqlScan}

/-- A thread that is left alone in a function of the pool gets from a state to another. -/
abbrev Runs (t : Nat) : SqlPool → SqlPool → Prop :=
  system.Leads fun a => ∃ ok, a = (t, .next ok)

/-- One step, which forgets where the thread was. -/
theorem runs_next {place : GetPlace} {pc : SqlPc} (ok : Bool)
    (h : (u.goto t (.inGet scan place)).getStep t scan ok place =
      (v.goto t (.inGet scan place)).goto t pc) :
    Runs t (u.goto t (.inGet scan place)) (v.goto t pc) := by
  refine .single ⟨ok, rfl⟩ ?_
  rw [step_next (goto_pc_self ..), h, goto_goto]

/-- The node is returned to the thread. -/
def give (s : SqlPool) (t i : Nat) : SqlPool :=
  { s with holders := Function.update s.holders i (t :: s.holders i) }

/-- The two steps of `release_sock_to_sql_pool`. -/
theorem release_runs (hi : scan.index u.poolNumber = i) :
    Runs t (u.goto t (.inGet scan .clearUsed))
      ((u.releaseNode i).goto t (.inGet scan.next .trylock)) := by
  subst hi
  let i := scan.index u.poolNumber
  let u₁ := u.setNode i { u.sqlPool i with used := false }
  have hnode : u₁.setNode i { u₁.sqlPool i with sqlLock := false } = u.releaseNode i := by
    simp [u₁, releaseNode, setNode, Function.update_idem]
  have h₁ : Runs t (u.goto t (.inGet scan .clearUsed)) (u₁.goto t (.inGet scan .unlock)) :=
    runs_next true rfl
  have h₂ : Runs t (u₁.goto t (.inGet scan .unlock))
      ((u₁.setNode i { u₁.sqlPool i with sqlLock := false }).goto t
        (.inGet scan.next .trylock)) :=
    runs_next true rfl
  rw [hnode] at h₂
  exact h₁.trans h₂

/-- What a pass leaves, and where the thread is then. -/
def afterPass (t : Nat) (scan : SqlScan) (i : Nat) (taken : Bool) (u : SqlPool) : SqlPool :=
  if taken then (u.give t i).goto t .idle else u.goto t (.inGet scan.next .trylock)

theorem pingNode_runs {r : PoolTrace} (hi : scan.index r.pool.poolNumber = i)
    (reconnected ok : Bool) :
    Runs t (r.pool.goto t (.inGet scan (.ping reconnected)))
      (afterPass t scan i (r.pingNode i ok).1 (r.pingNode i ok).2.pool) := by
  subst hi
  cases ok with
  | true =>
    have h₁ : Runs t (r.pool.goto t (.inGet scan (.ping reconnected)))
        (r.pool.goto t (.inGet scan .markUsed)) :=
      runs_next true rfl
    exact h₁.trans (runs_next true rfl)
  -- The node is disconnected, and given back
  | false =>
    have h₁ : Runs t (r.pool.goto t (.inGet scan (.ping reconnected)))
        (r.pool.goto t (.inGet scan .pingFailed)) :=
      runs_next false rfl
    have h₂ : Runs t (r.pool.goto t (.inGet scan .pingFailed))
        ((r.pool.disconnNode (scan.index r.pool.poolNumber)).goto t (.inGet scan .clearUsed)) :=
      runs_next true rfl
    exact (h₁.trans h₂).trans (release_runs rfl)

theorem createConnect_runs (hi : scan.index u.poolNumber = i) (init connect : Bool) :
    Runs t (u.goto t (.inGet scan .mysqlInit)) ((u.createConnect i init connect).2.goto t
      (.inGet scan (if (u.createConnect i init connect).1 = 0 then .ping true
        else .clearUsed))) := by
  subst hi
  let i := scan.index u.poolNumber
  cases init with
  | false => exact runs_next false rfl
  | true =>
    have h := createConnect_steps connect true (goto_pc_self u t (.inGet scan .mysqlInit))
    have hgoto : ((u.goto t (.inGet scan .mysqlInit)).createConnect i true connect).2 =
        (u.createConnect i true connect).2.goto t (.inGet scan .mysqlInit) := by
      cases connect with
      | false => rfl
      | true => rfl
    rw [goto_poolNumber, hgoto, goto_goto] at h
    have hnext : ∀ a ∈ [(t, Move.next true), (t, .next true), (t, .next connect), (t, .next true)],
        ∃ ok, a = (t, .next ok) := by
      intro a ha
      simp only [List.mem_cons, List.not_mem_nil, or_false] at ha
      rcases ha with rfl | rfl | rfl | rfl
      all_goals exact ⟨_, rfl⟩
    refine ⟨_, hnext, ?_⟩
    cases connect with
    | false => exact h
    | true => exact h

theorem createConnect_poolNumber (u : SqlPool) (i : Nat) (init connect : Bool) :
    (u.createConnect i init connect).2.poolNumber = u.poolNumber := by
  rw [PoolTrace.createConnect_eq]
  cases init with
  | false => rfl
  | true => cases connect with
    | false => rfl
    | true => rfl

/-- `create_connect` if the node is not connected, and the rest of the pass. -/
theorem reconnect_runs {r : PoolTrace} (hi : scan.index r.pool.poolNumber = i)
    (o : MysqlOutcome) :
    Runs t (r.pool.goto t (.inGet scan .state))
      (if (r.reconnect i o).1 ≠ 0 then
        ((r.reconnect i o).2.pool.releaseNode i).goto t (.inGet scan.next .trylock)
      else afterPass t scan i ((r.reconnect i o).2.pingNode i o.ping).1
        ((r.reconnect i o).2.pingNode i o.ping).2.pool) := by
  have hstate : Runs t (r.pool.goto t (.inGet scan .state)) (r.pool.goto t (.inGet scan
      (if (r.pool.sqlPool i).sqlState = .disconn then .mysqlInit else .ping false))) :=
    runs_next true (by rw [← hi]; rfl)
  unfold PoolTrace.reconnect
  split at hstate
  · rename_i hdisconn
    -- The node is connected first, and pinged if that has succeeded
    rw [if_pos hdisconn]
    have hconnect := hstate.trans (createConnect_runs hi o.init o.connect)
    have hindex : scan.index (r.createConnect i o.init o.connect).2.pool.poolNumber = i :=
      (congrArg scan.index (createConnect_poolNumber ..)).trans hi
    change Runs t _ ((r.createConnect i o.init o.connect).2.pool.goto t (.inGet scan
      (if (r.createConnect i o.init o.connect).1 = 0 then .ping true else .clearUsed)))
      at hconnect
    split at hconnect
    · rename_i hret
      rw [if_neg (not_not.mpr hret)]
      exact hconnect.trans (pingNode_runs hindex true o.ping)
    · rename_i hret
      rw [if_pos hret]
      exact hconnect.trans (release_runs hindex)
  · rename_i hconn
    rw [if_neg hconn]
    exact hstate.trans (pingNode_runs hi false o.ping)

theorem getPass_runs {r : PoolTrace} (hi : scan.index r.pool.poolNumber = i)
    (hlt : scan.loopIndex < r.pool.poolNumber) (o : MysqlOutcome) :
    Runs t (r.pool.goto t (.inGet scan .trylock))
      (afterPass t scan i (r.getPass i o).1 (r.getPass i o).2.pool) := by
  let u : SqlPool := r.pool.setNode i { r.pool.sqlPool i with sqlLock := true }
  have htry : (r.pool.goto t (.inGet scan .trylock)).getStep t scan true .trylock =
      if (r.pool.sqlPool i).sqlLock then
        (r.pool.goto t (.inGet scan .trylock)).goto t (.inGet scan.next .trylock)
      else (u.goto t (.inGet scan .trylock)).goto t (.inGet scan .state) := by
    subst hi
    exact if_pos hlt
  unfold PoolTrace.getPass
  simp only
  split
  · rename_i hlock
    rw [if_pos hlock] at htry
    -- Locked by another thread: the next node
    exact runs_next true htry
  · rename_i hlock
    rw [if_neg hlock] at htry
    let r₁ := PoolTrace.lock { r with calls := .trylock i :: r.calls } i
    have hindex : scan.index r₁.pool.poolNumber = i := hi
    have hpass := (runs_next true htry).trans (reconnect_runs hindex o)
    split at hpass
    · rename_i hret
      rw [if_pos hret]
      exact hpass
    · rename_i hret
      rw [if_neg hret]
      exact hpass

/-- What `get_db_connect_from_pool` leaves when it returns. -/
def afterGet (t : Nat) (found : Option Nat) (u : SqlPool) : SqlPool :=
  (found.elim u (u.give t)).goto t .idle

theorem getLoop_runs {startIndex : Nat} {outcome : Nat → MysqlOutcome} (passes loopIndex : Nat)
    {r : PoolTrace} (hn : loopIndex + passes = r.pool.poolNumber) :
    Runs t (r.pool.goto t (.inGet ⟨startIndex, loopIndex⟩ .trylock))
      (afterGet t (PoolTrace.getLoop startIndex outcome passes loopIndex r).1
        (PoolTrace.getLoop startIndex outcome passes loopIndex r).2.pool) := by
  induction passes generalizing loopIndex r with
  -- `loop_index` has come to `pool_number`
  | zero =>
    refine runs_next true ?_
    exact if_neg (by simp only [goto_poolNumber]; omega)
  | succ passes ih =>
    let i := (startIndex + loopIndex) % r.pool.poolNumber
    have hpass : Runs t (r.pool.goto t (.inGet ⟨startIndex, loopIndex⟩ .trylock))
        (afterPass t ⟨startIndex, loopIndex⟩ i (r.getPass i (outcome i)).1
          (r.getPass i (outcome i)).2.pool) :=
      getPass_runs rfl (show loopIndex < r.pool.poolNumber by omega) (outcome i)
    have hnumber := (PoolTrace.getPass_pass r i (outcome i)).poolNumber
    rw [afterPass] at hpass
    rw [PoolTrace.getLoop]
    simp only
    split at hpass
    · rename_i htaken
      rw [if_pos htaken]
      exact hpass
    · rename_i htaken
      rw [if_neg htaken]
      exact hpass.trans (ih (loopIndex + 1) (by omega))

/-- A thread that calls `get_db_connect_from_pool` and is left alone gets the same node, and
    leaves the same pool. -/
theorem getDbConnectFromPool_steps {startIndex : Nat} (hpc : s.pc t = .idle)
    (hlt : startIndex < s.poolNumber) (calls : List PoolCall) (outcome : Nat → MysqlOutcome) :
    ∃ s₁, system.step s (t, .getDbConnectFromPool startIndex) = some s₁ ∧
      let (found, r) := PoolTrace.getDbConnectFromPool ⟨s, calls⟩ startIndex outcome
      Runs t s₁ (afterGet t found r.pool) := by
  let r : PoolTrace := ⟨s, calls⟩
  have hloop : Runs t (r.pool.goto t (.inGet ⟨startIndex, 0⟩ .trylock))
      (afterGet t (r.getDbConnectFromPool startIndex outcome).1
        (r.getDbConnectFromPool startIndex outcome).2.pool) :=
    getLoop_runs r.pool.poolNumber 0 (Nat.zero_add _)
  exact ⟨_, if_pos ⟨hpc, hlt⟩, hloop⟩

end SqlPool

end JQServer
