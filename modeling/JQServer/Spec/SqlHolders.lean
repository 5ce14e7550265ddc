import JQServer.Native.SqlPool

/-!
# Who holds a database connection

A node of the pool is locked by `pthread_mutex_trylock` and stays locked until it is
released, unless `create_connect` is called for it: when a node is reconnected,
`pthread_mutex_init` unlocks the mutex that the caller has just locked. The node can then
be locked a second time, and if the `mysql_ping` after that succeeds it is returned
unlocked.

`Exclusive` is the invariant of the runs in which neither happens. What a step does is one
of few things to the locks, the threads and the holders: `Exclusive.keep` covers the steps
that leave the locks alone, and the others have a lemma each.
-/

namespace JQServer

/-- The node that a thread has locked in `get_db_connect_from_pool`. -/
def SqlPc.node (poolNumber : Nat) : SqlPc → Option Nat
  | .inGet scan place => if place = .trylock then none else some (scan.index poolNumber)
  | _ => none

/-- Whether the mutex of the node is locked, where it is known: it is unlocked after
    `pthread_mutex_init`. -/
def GetPlace.lock : GetPlace → Option Bool
  | .state | .mysqlInit | .mutexInit | .ping false | .markUsed => some true
  | .realConnect | .connected | .ping true => some false
  | .trylock | .connectFailed | .pingFailed | .clearUsed | .unlock => none

/-- The call has failed on its node and is going to unlock it. -/
def GetPlace.failed : GetPlace → Bool
  | .connectFailed | .pingFailed | .clearUsed | .unlock => true
  | _ => false

namespace SqlPool

/-- A node is returned to at most one thread that has not released it, and it is locked
    then. -/
structure OneHolder (s : SqlPool) (i : Nat) : Prop where
  one : (s.holders i).length ≤ 1
  locked : s.holders i ≠ [] → (s.sqlPool i).sqlLock = true

/-- A thread releases only what it got. -/
def ReleasesOwn (s : SqlPool) : Nat × Move → Prop
  | (t, .releaseSockToSqlPool i) => t ∈ s.holders i
  | _ => True

/-- The thread has locked the node in `get_db_connect_from_pool`, and has neither returned
    nor released it. -/
def Has (s : SqlPool) (t i : Nat) : Prop := (s.pc t).node s.poolNumber = some i

/-- No node is locked while another call has it, and no call gets a node that it has
    reconnected. -/
def MutexKept (s : SqlPool) : Nat × Move → Prop
  | (t, .next ok) =>
    match s.pc t with
    | .inGet scan .trylock => scan.loopIndex < s.poolNumber →
        (s.sqlPool (scan.index s.poolNumber)).sqlLock = false →
        ∀ u, ¬ s.Has u (scan.index s.poolNumber)
    | .inGet _ (.ping true) => ok = false
    | _ => True
  | _ => True

/-- Every node is with one thread at most. -/
structure Exclusive (s : SqlPool) : Prop where
  one : ∀ i, (s.holders i).length ≤ 1
  held_locked : ∀ i, s.holders i ≠ [] → (s.sqlPool i).sqlLock = true
  one_call : ∀ t u i, s.Has t i → s.Has u i → t = u
  not_held : ∀ t i, s.Has t i → s.holders i = []
  has_lock : ∀ t scan place b, s.pc t = .inGet scan place → place.lock = some b →
    (s.sqlPool (scan.index s.poolNumber)).sqlLock = b
  releasing : ∀ t i, s.pc t = .inRelease i → t ∈ s.holders i

variable {s s' : SqlPool} {t u i : Nat} {scan : SqlScan} {place : GetPlace} {ok : Bool}

/-! ### Creation -/

/-- A pool that was created is with no thread. -/
theorem Created.exclusive (h : s.Created) : s.Exclusive := by
  obtain ⟨outcomes, -, -, hcreate⟩ := h
  obtain ⟨hpc, hh⟩ := createLoop_threads hcreate
  -- No thread runs yet, so nothing is held and no call has a node
  have hidle : ∀ t, s.pc t = .idle := fun t => congrFun hpc t
  have hnone : ∀ i, s.holders i = [] := fun i => congrFun hh i
  have hhas : ∀ t i, ¬ s.Has t i := by
    intro t i ht
    simp [Has, hidle, SqlPc.node] at ht
  refine ⟨fun i => ?_, fun i hi => absurd (hnone i) hi, fun t u i ht => absurd ht (hhas t i),
    fun t i ht => absurd ht (hhas t i), fun t scan place _ ht => ?_, fun t i ht => ?_⟩
  · rw [hnone]
    exact Nat.zero_le 1
  · rw [hidle] at ht
    cases ht
  · rw [hidle] at ht
    cases ht

/-! ### Steps that keep the locks -/

/-- The locks, the threads and the holders are the same. -/
structure SameLocks (s s' : SqlPool) : Prop where
  poolNumber : s'.poolNumber = s.poolNumber
  pc : s'.pc = s.pc
  sqlLock : ∀ i, (s'.sqlPool i).sqlLock = (s.sqlPool i).sqlLock
  holders : s'.holders = s.holders

theorem SameLocks.refl : s.SameLocks s := ⟨rfl, rfl, fun _ => rfl, rfl⟩

/-- A write to a node, not to its lock. -/
theorem SameLocks.setNode {node : SqlSockNode} (h : node.sqlLock = (s.sqlPool i).sqlLock) :
    s.SameLocks (s.setNode i node) :=
  ⟨rfl, rfl, setNode_field _ _ _ SqlSockNode.sqlLock h, rfl⟩

theorem SameLocks.realConnect : s.SameLocks (s.realConnect i ok) := by
  cases ok with
  | false => exact .setNode rfl
  | true =>
    have hnode : s.SameLocks
        (s.setNode i { s.sqlPool i with fd := some s.opened, mysqlSock := true }) := .setNode rfl
    exact ⟨hnode.poolNumber, hnode.pc, hnode.sqlLock, hnode.holders⟩

/-- A call that knows about the lock has its node. -/
theorem node_of_lock {b : Bool} (h : place.lock = some b) (n : Nat) :
    (SqlPc.inGet scan place).node n = some (scan.index n) := by
  rw [SqlPc.node, if_neg]
  rintro rfl
  cases h

/-- A step that only moves its thread, which locks nothing new. -/
theorem Exclusive.keep (h : s.Exclusive) (hsame : s.SameLocks s') {pc : SqlPc}
    (hnode : ∀ i, pc.node s.poolNumber = some i → s.Has t i)
    (hplace : ∀ scan place b, pc = .inGet scan place → place.lock = some b →
      (s.sqlPool (scan.index s.poolNumber)).sqlLock = b)
    (hrel : ∀ i, pc = .inRelease i → t ∈ s.holders i) : (s'.goto t pc).Exclusive := by
  have hpc : ∀ u, u ≠ t → (s'.goto t pc).pc u = s.pc u := by
    intro u hut
    rw [goto_pc_of_ne _ _ _ hut, hsame.pc]
  -- No call has a node that it did not have before
  have hback : ∀ u i, (s'.goto t pc).Has u i → s.Has u i := by
    intro u i hu
    rw [Has, goto_poolNumber, hsame.poolNumber] at hu
    by_cases hut : u = t
    · rw [hut, goto_pc_self] at hu
      exact hut ▸ hnode i hu
    · rwa [hpc u hut] at hu
  refine ⟨fun i => ?_, fun i hi => ?_, fun t u i ht hu => ?_, fun t i ht => ?_,
    fun u scan place b hu hp => ?_, fun u i hu => ?_⟩
  · rw [goto_holders, hsame.holders]
    exact h.one i
  · rw [goto_holders, hsame.holders] at hi
    rw [goto_sqlPool, hsame.sqlLock]
    exact h.held_locked i hi
  · exact h.one_call t u i (hback t i ht) (hback u i hu)
  · rw [goto_holders, hsame.holders]
    exact h.not_held t i (hback t i ht)
  · rw [goto_sqlPool, goto_poolNumber, hsame.sqlLock, hsame.poolNumber]
    by_cases hut : u = t
    · rw [hut, goto_pc_self] at hu
      exact hplace scan place b hu hp
    · exact h.has_lock u scan place b (hpc u hut ▸ hu) hp
  · rw [goto_holders, hsame.holders]
    by_cases hut : u = t
    · rw [hut, goto_pc_self] at hu
      exact hut ▸ hrel i hu
    · exact h.releasing u i (hpc u hut ▸ hu)

/-- A step of a call on the node that it has, which leaves the locks alone. -/
theorem Exclusive.move (h : s.Exclusive) (hpc : s.pc t = .inGet scan place)
    (hplace : place ≠ .trylock) (hsame : s.SameLocks s') {place' : GetPlace}
    (hlock : ∀ b, place'.lock = some b → place.lock = some b) :
    (s'.goto t (.inGet scan place')).Exclusive := by
  refine h.keep hsame (fun i hi => ?_) (fun scan' p b hp hl => ?_) nofun
  · rw [Has, hpc, SqlPc.node, if_neg hplace]
    exact (Option.ite_none_left_eq_some.mp hi).2
  · cases hp
    exact h.has_lock t scan place b hpc (hlock b hl)

/-- A step after which the thread has no node. -/
theorem Exclusive.out (h : s.Exclusive) {pc : SqlPc} (hnode : pc.node s.poolNumber = none)
    (hrel : ∀ i, pc ≠ .inRelease i) : (s.goto t pc).Exclusive := by
  refine h.keep .refl (fun i hi => ?_) (fun scan place b hp hl => ?_) fun i hi => absurd hi (hrel i)
  · rw [hnode] at hi
    cases hi
  · rw [hp, node_of_lock hl] at hnode
    cases hnode

/-! ### Steps on a lock -/

/-- A step on a node that no other call has. -/
theorem Exclusive.change (h : s.Exclusive) (hn : s'.poolNumber = s.poolNumber)
    (hlock : ∀ j, j ≠ i → s'.sqlPool j = s.sqlPool j)
    (hh : ∀ j, j ≠ i → s'.holders j = s.holders j) (hpc : ∀ u, u ≠ t → s'.pc u = s.pc u)
    (hothers : ∀ u, u ≠ t → ¬ s.Has u i) (hhas : ∀ j, s'.Has t j → j = i)
    (hone : (s'.holders i).length ≤ 1)
    (hheld : s'.holders i ≠ [] → (s'.sqlPool i).sqlLock = true)
    (hnot : s'.Has t i → s'.holders i = [])
    (hplace : ∀ scan place b, s'.pc t = .inGet scan place → place.lock = some b →
      (s'.sqlPool i).sqlLock = b)
    (hrel : ∀ j, s'.pc t ≠ .inRelease j)
    (hrelothers : ∀ u, u ≠ t → s.pc u = .inRelease i → u ∈ s'.holders i) : s'.Exclusive := by
  -- The other calls have what they had, which is not node `i`
  have hback : ∀ u j, u ≠ t → s'.Has u j → s.Has u j := by
    intro u j hut hu
    rwa [Has, hpc u hut, hn] at hu
  refine ⟨fun j => ?_, fun j hj => ?_, fun u v j hu hv => ?_, fun u j hu => ?_,
    fun u scan place b hu hp => ?_, fun u j hu => ?_⟩
  · by_cases hji : j = i
    · exact hji ▸ hone
    · rw [hh j hji]
      exact h.one j
  · by_cases hji : j = i
    · rw [hji] at hj ⊢
      exact hheld hj
    · rw [hh j hji] at hj
      rw [hlock j hji]
      exact h.held_locked j hj
  · by_cases hut : u = t
    · by_cases hvt : v = t
      · exact hut.trans hvt.symm
      · rw [hhas j (hut ▸ hu)] at hv
        exact absurd (hback v i hvt hv) (hothers v hvt)
    · by_cases hvt : v = t
      · rw [hhas j (hvt ▸ hv)] at hu
        exact absurd (hback u i hut hu) (hothers u hut)
      · exact h.one_call u v j (hback u j hut hu) (hback v j hvt hv)
  · by_cases hut : u = t
    · have hji := hhas j (hut ▸ hu)
      rw [hji]
      exact hnot (hji ▸ hut ▸ hu)
    · -- Another thread has another node
      have hu := hback u j hut hu
      have hji : j ≠ i := fun hji => hothers u hut (hji ▸ hu)
      rw [hh j hji]
      exact h.not_held u j hu
  · by_cases hut : u = t
    · have hu : s'.pc t = .inGet scan place := hut ▸ hu
      have hji : scan.index s'.poolNumber = i := hhas _ (by rw [Has, hu, node_of_lock hp])
      rw [hji]
      exact hplace scan place b hu hp
    · rw [hpc u hut] at hu
      have hji : scan.index s.poolNumber ≠ i :=
        fun hji => hothers u hut (by rw [Has, hu, node_of_lock hp, hji])
      rw [hn, hlock _ hji]
      exact h.has_lock u scan place b hu hp
  · by_cases hut : u = t
    · exact absurd (hut ▸ hu) (hrel j)
    · rw [hpc u hut] at hu
      by_cases hji : j = i
      · rw [hji] at hu ⊢
        exact hrelothers u hut hu
      · rw [hh j hji]
        exact h.releasing u j hu

/-- A node is locked that no thread has. -/
theorem Exclusive.lock (h : s.Exclusive) (hidx : scan.index s.poolNumber = i)
    (hfree : (s.sqlPool i).sqlLock = false) (hnone : ∀ u, ¬ s.Has u i) :
    ((s.setNode i { s.sqlPool i with sqlLock := true }).goto t (.inGet scan .state)).Exclusive := by
  -- A node that is held is locked
  have hheld : s.holders i = [] := by
    by_contra hne
    rw [h.held_locked i hne] at hfree
    cases hfree
  refine h.change (t := t) (i := i) rfl (fun j hj => setNode_sqlPool_of_ne _ _ _ hj)
    (fun _ _ => rfl) (fun u hu => goto_pc_of_ne _ _ _ hu) (fun u _ => hnone u)
    (fun j hj => ?_) (h.one i)
    (fun hne => absurd hheld hne) (fun _ => hheld) (fun scan' place b hpc hp => ?_) (fun j hj => ?_)
    (fun u _ hu => h.releasing u i hu)
  · simpa [Has, SqlPc.node, hidx, eq_comm] using hj
  · obtain ⟨-, rfl⟩ := SqlPc.inGet.inj ((goto_pc_self _ _ _).symm.trans hpc)
    rw [goto_sqlPool, setNode_sqlPool_self]
    exact Option.some.inj hp
  · rw [goto_pc_self] at hj
    cases hj

/-- The thread that has a node unlocks it, and goes on without it or after
    `pthread_mutex_init`. -/
theorem Exclusive.unlock (h : s.Exclusive) (hi : s.Has t i) {pc : SqlPc}
    (hnode : ∀ j, pc.node s.poolNumber = some j → j = i)
    (hplace : ∀ scan place, pc = .inGet scan place → place.lock ≠ some true)
    (hrel : ∀ j, pc ≠ .inRelease j) :
    ((s.setNode i { s.sqlPool i with sqlLock := false }).goto t pc).Exclusive := by
  have hheld := h.not_held t i hi
  refine h.change (t := t) (i := i) rfl (fun j hj => setNode_sqlPool_of_ne _ _ _ hj)
    (fun _ _ => rfl) (fun u hu => goto_pc_of_ne _ _ _ hu)
    (fun u hut hu => hut (h.one_call u t i hu hi))
    (fun j hj => ?_) (h.one i) (fun hne => absurd hheld hne) (fun _ => hheld)
    (fun scan' place b hpc hp => ?_) (fun j hj => ?_) (fun u _ hu => h.releasing u i hu)
  · rw [Has, goto_pc_self] at hj
    exact hnode j hj
  · rw [goto_pc_self] at hpc
    rw [goto_sqlPool, setNode_sqlPool_self]
    cases b with
    | false => rfl
    | true => exact absurd hp (hplace scan' place hpc)
  · rw [goto_pc_self] at hj
    exact absurd hj (hrel j)

/-- The thread that has a node returns it. -/
theorem Exclusive.give (h : s.Exclusive) (hi : s.Has t i)
    (hlocked : (s.sqlPool i).sqlLock = true) :
    ({ (s.setNode i { s.sqlPool i with used := true }).goto t .idle with
      holders := Function.update s.holders i (t :: s.holders i) } : SqlPool).Exclusive := by
  have hheld := h.not_held t i hi
  have hidle : Function.update s.pc t .idle t = .idle := Function.update_self ..
  refine h.change (t := t) (i := i) rfl (fun j hj => setNode_sqlPool_of_ne _ _ _ hj)
    (fun j hj => Function.update_of_ne hj ..) (fun u hu => goto_pc_of_ne _ _ _ hu)
    (fun u hut hu => hut (h.one_call u t i hu hi)) (fun j hj => ?_) ?_ (fun _ => ?_) (fun hi' => ?_)
    (fun scan' place _ hpc _ => ?_) (fun j hj => ?_) (fun u _ hu => ?_)
  · simp [Has, goto, SqlPc.node] at hj
  · simp [hheld]
  · simpa using hlocked
  · simp [Has, goto, SqlPc.node] at hi'
  · simp [goto] at hpc
  · simp [goto] at hj
  · have := h.releasing u i hu
    rw [hheld] at this
    cases this

/-- The thread that holds a node releases it. -/
theorem Exclusive.release (h : s.Exclusive) (hi : s.pc t = .inRelease i) :
    ({ (s.setNode i { s.sqlPool i with sqlLock := false }).goto t .idle with
      holders := Function.update s.holders i ((s.holders i).erase t) } : SqlPool).Exclusive := by
  have hmem := h.releasing t i hi
  -- The thread is the only holder, so none is left
  have hheld : s.holders i = [t] := by
    have hone := h.one i
    cases hl : s.holders i with
    | nil =>
      rw [hl] at hmem
      cases hmem
    | cons u l =>
      rw [hl] at hmem hone
      obtain rfl : l = [] := List.eq_nil_of_length_eq_zero (by simpa using hone)
      rw [List.mem_singleton.mp hmem]
  have hothers : ∀ u, ¬ s.Has u i := by
    intro u hu
    rw [h.not_held u i hu] at hheld
    cases hheld
  refine h.change (t := t) (i := i) rfl (fun j hj => setNode_sqlPool_of_ne _ _ _ hj)
    (fun j hj => Function.update_of_ne hj ..) (fun u hu => goto_pc_of_ne _ _ _ hu)
    (fun u _ => hothers u) (fun j hj => ?_) ?_ (fun hne => ?_) (fun hi' => ?_)
    (fun scan' place _ hpc _ => ?_) (fun j hj => ?_) (fun u hut hu => ?_)
  · simp [Has, goto, SqlPc.node] at hj
  · simp [hheld]
  · simp [hheld] at hne
  · simp [Has, goto, SqlPc.node] at hi'
  · simp [goto] at hpc
  · simp [goto] at hj
  · have := h.releasing u i hu
    rw [hheld] at this
    exact absurd (List.mem_singleton.mp this) hut

/-! ### All steps -/

/-- A step of `get_db_connect_from_pool`. -/
theorem Exclusive.getStep (h : s.Exclusive) (hpc : s.pc t = .inGet scan place)
    (hkept : s.MutexKept (t, .next ok)) : (s.getStep t scan ok place).Exclusive := by
  have hhas (hp : place ≠ .trylock) : s.Has t (scan.index s.poolNumber) := by
    rw [Has, hpc, SqlPc.node, if_neg hp]
  simp only [MutexKept, hpc] at hkept
  cases place with
  | trylock =>
    simp only [SqlPool.getStep]
    split
    · rename_i hlt
      split
      · exact h.out rfl nofun
      · -- The node is free, and by the condition no call has it
        rename_i hfree
        have hfree := Bool.eq_false_iff.mpr hfree
        exact h.lock rfl hfree (hkept hlt hfree)
    · exact h.out rfl nofun
  | state =>
    refine h.move hpc nofun .refl fun b hb => ?_
    split at hb
    · exact hb
    · exact hb
  | mysqlInit =>
    cases ok with
    | false => exact h.move hpc nofun .refl nofun
    | true =>
      refine h.move hpc nofun ?_ fun _ => id
      exact .setNode rfl
  | mutexInit =>
    -- The mutex is unlocked under the call that has the node
    refine h.unlock (hhas nofun) (fun j hj => ?_) (fun scan' p hp => ?_) nofun
    · simpa [SqlPc.node, eq_comm] using hj
    · cases hp
      exact nofun
  | realConnect =>
    refine h.move hpc nofun .realConnect fun b hb => ?_
    cases ok with
    | false => cases hb
    | true => exact hb
  | connected =>
    refine h.move hpc nofun ?_ fun _ => id
    exact .setNode rfl
  | ping reconnected =>
    cases ok with
    | false => exact h.move hpc nofun .refl nofun
    | true =>
      -- A node that was reconnected is not returned
      cases reconnected with
      | false => exact h.move hpc nofun .refl fun _ => id
      | true => exact nomatch hkept
  | connectFailed | pingFailed | clearUsed =>
    refine h.move hpc nofun ?_ ?_
    · exact .setNode rfl
    · exact nofun
  | markUsed =>
    exact h.give (hhas nofun) (h.has_lock t scan .markUsed true hpc rfl)
  | unlock =>
    refine h.unlock (hhas nofun) (fun j hj => ?_) (fun scan' p hp => ?_) nofun
    · simp [SqlPc.node] at hj
    · cases hp
      exact nofun

/-- A step that meets the condition keeps every node with one thread at most. -/
theorem Exclusive.step {a : Nat × Move} (h : s.Exclusive) (hown : s.ReleasesOwn a)
    (hkept : s.MutexKept a) (hs : s.step a = some s') : s'.Exclusive := by
  obtain ⟨t, m⟩ := a
  cases m with
  | getDbConnectFromPool startIndex =>
    obtain ⟨-, hs⟩ := Option.ite_none_right_eq_some.mp hs
    obtain rfl := Option.some.inj hs
    exact h.out rfl nofun
  | releaseSockToSqlPool i =>
    obtain ⟨-, hs⟩ := Option.ite_none_right_eq_some.mp hs
    obtain rfl := Option.some.inj hs
    -- A thread releases what it holds, and holds it until the unlock
    refine h.keep ?_ nofun nofun fun j hj => ?_
    · exact .setNode rfl
    · obtain rfl := SqlPc.inRelease.inj hj
      exact hown
  | checkSqlSockNormal i =>
    obtain ⟨⟨hidle, -⟩, hs⟩ := Option.ite_none_right_eq_some.mp hs
    obtain rfl := Option.some.inj hs
    rw [← goto_self (s.setNode i _) t, setNode_pc, hidle]
    refine h.keep ?_ nofun nofun nofun
    exact .setNode rfl
  | next ok =>
    simp only [SqlPool.step] at hs
    split at hs
    · cases hs
    · rename_i hpc
      obtain rfl := Option.some.inj hs
      exact h.getStep hpc hkept
    · rename_i hpc
      obtain rfl := Option.some.inj hs
      exact h.release hpc

/-- The invariant of the runs that meet the condition. -/
theorem exclusive_of_reach
    (h : Transition.Reach system (fun s a => s.ReleasesOwn a ∧ s.MutexKept a) s) :
    s.Exclusive := by
  refine h.invariant (I := Exclusive) (fun _ h0 => Created.exclusive h0) fun _ _ _ _ hI hC hs => ?_
  exact Exclusive.step hI hC.1 hC.2 hs

/-- In every run in which no node is locked while another call has it, and no call gets a
    node that it has reconnected, a node has one holder at most and is locked then. -/
theorem one_holder (h : Transition.Reach system (fun s a => s.ReleasesOwn a ∧ s.MutexKept a) s)
    (i : Nat) : s.OneHolder i :=
  ⟨(exclusive_of_reach h).one i, (exclusive_of_reach h).held_locked i⟩

/-- Thread 0 gets the node: `pthread_mutex_trylock`, `mysql_ping`. -/
theorem one_holder_first :
    ∃ s, system.run oneNode [(0, .getDbConnectFromPool 0), (0, .next true), (0, .next true),
      (0, .next true), (0, .next true)] = some s ∧ s.holders 0 = [0] ∧ s.OneHolder 0 := by
  have hmeets : system.Meets (fun s a => s.ReleasesOwn a ∧ s.MutexKept a) oneNode
      [(0, .getDbConnectFromPool 0), (0, .next true), (0, .next true), (0, .next true),
        (0, .next true)] := by
    refine .cons rfl ⟨trivial, trivial⟩ (.cons rfl ⟨trivial, fun _ _ u => ?_⟩
      (.cons rfl ⟨trivial, trivial⟩ (.cons rfl ⟨trivial, trivial⟩
        (.cons rfl ⟨trivial, trivial⟩ .nil))))
    -- Thread 0 is before `pthread_mutex_trylock`, and no other thread runs
    have hpc : ∀ v, v ≠ 0 → oneNode.pc v = .idle := fun _ _ => rfl
    by_cases hu : u = 0
    · rw [hu]
      exact nofun
    · rw [Has, goto_pc_of_ne _ _ _ hu, hpc u hu]
      exact nofun
  exact ⟨_, rfl, rfl, one_holder (.run (.init oneNode_created) hmeets rfl) 0⟩

/-- Thread 0 finds the connection lost, calls again and gets the node after a reconnect;
    then thread 1 gets it. -/
private def reconnectRun : List (Nat × Move) :=
  [(0, .getDbConnectFromPool 0), (0, .next true), (0, .next true), (0, .next false),
    (0, .next true), (0, .next true), (0, .next true), (0, .next true),
    (0, .getDbConnectFromPool 0), (0, .next true), (0, .next true), (0, .next true),
    (0, .next true), (0, .next true), (0, .next true), (0, .next true), (0, .next true),
    (1, .getDbConnectFromPool 0), (1, .next true), (1, .next true), (1, .next true),
    (1, .next true)]

/-- A node that is reconnected has two holders. -/
theorem one_holder_fails :
    ¬ ∀ s, Transition.Reach system ReleasesOwn s → ∀ i, s.OneHolder i := by
  intro h
  have hrun : (system.run oneNode reconnectRun).map (·.holders 0) = some [1, 0] := by
    decide +kernel
  obtain ⟨s, hs, hholders⟩ := Option.map_eq_some_iff.mp hrun
  have hown : ∀ a ∈ reconnectRun, ∀ s : SqlPool, s.ReleasesOwn a := by
    simp [reconnectRun, ReleasesOwn]
  have hone := (h s (.run (.init oneNode_created) (system.meets_of_mem hown _) hs) 0).one
  rw [hholders] at hone
  exact absurd hone (by decide)

/-! ### What the condition leaves out -/

/-- Alone, the thread can go on until node `i` is returned to it. -/
def Returned (s : SqlPool) (t i : Nat) : Prop :=
  ∃ oks : List Bool, ∃ s', system.run s (oks.map fun ok => (t, .next ok)) = some s' ∧
    s'.poolNumber = s.poolNumber ∧ s'.holders i = t :: s.holders i ∧
    ∀ u, u ≠ t → s'.pc u = s.pc u

/-- Alone, the thread can go on until it has unlocked node `i`. -/
def Unlocked (s : SqlPool) (t i : Nat) : Prop :=
  ∃ oks : List Bool, ∃ s', system.run s (oks.map fun ok => (t, .next ok)) = some s' ∧
    (s'.sqlPool i).sqlLock = false ∧ s'.holders = s.holders

/-- One step closer to the return. -/
theorem Returned.step (s' : SqlPool) (ok : Bool)
    (h : (s'.goto t (.inGet scan place)).Returned t i) {place₀ : GetPlace}
    (hpc : s.pc t = .inGet scan place₀)
    (hs : s.getStep t scan ok place₀ = s'.goto t (.inGet scan place))
    (hn : s'.poolNumber = s.poolNumber) (hother : s'.pc = s.pc) (hh : s'.holders = s.holders) :
    s.Returned t i := by
  obtain ⟨oks, r, hr, hrn, hrh, hrpc⟩ := h
  refine ⟨ok :: oks, r, ?_, hrn.trans hn, hrh.trans (by rw [goto_holders, hh]), fun u hu => ?_⟩
  · rw [List.map_cons, Transition.System.run_cons, step_next hpc, Option.bind_some, hs]
    exact hr
  · rw [hrpc u hu, goto_pc_of_ne _ _ _ hu, hother]

/-- One step closer to the unlock. -/
theorem Unlocked.step (s' : SqlPool) (ok : Bool)
    (h : (s'.goto t (.inGet scan place)).Unlocked t i) {place₀ : GetPlace}
    (hpc : s.pc t = .inGet scan place₀)
    (hs : s.getStep t scan ok place₀ = s'.goto t (.inGet scan place))
    (hh : s'.holders = s.holders) : s.Unlocked t i := by
  obtain ⟨oks, r, hr, hrl, hrh⟩ := h
  refine ⟨ok :: oks, r, ?_, hrl, hrh.trans (by rw [goto_holders, hh])⟩
  rw [List.map_cons, Transition.System.run_cons, step_next hpc, Option.bind_some, hs]
  exact hr

/-- A call that has a node and has not failed can return it. -/
theorem returned_of_not_failed (hpc : s.pc t = .inGet scan place) (hplace : place ≠ .trylock)
    (hok : place.failed = false) : s.Returned t (scan.index s.poolNumber) := by
  -- From the return backwards
  have hmark : ∀ {s : SqlPool}, s.pc t = .inGet scan .markUsed →
      s.Returned t (scan.index s.poolNumber) := by
    intro s hpc
    refine ⟨[true], s.getStep t scan true .markUsed, ?_, rfl, Function.update_self ..,
      fun u hu => Function.update_of_ne hu ..⟩
    rw [List.map_cons, Transition.System.run_cons, step_next hpc]
    rfl
  have hping : ∀ {s : SqlPool} (r : Bool), s.pc t = .inGet scan (.ping r) →
      s.Returned t (scan.index s.poolNumber) :=
    fun {s} _ hpc => (hmark (goto_pc_self ..)).step s true hpc rfl rfl rfl rfl
  have hconnected : ∀ {s : SqlPool}, s.pc t = .inGet scan .connected →
      s.Returned t (scan.index s.poolNumber) :=
    fun {s} hpc =>
      (hping true (goto_pc_self ..)).step (s.setConnState _ true) true hpc rfl rfl rfl rfl
  have hconnect : ∀ {s : SqlPool}, s.pc t = .inGet scan .realConnect →
      s.Returned t (scan.index s.poolNumber) :=
    fun {s} hpc =>
      (hconnected (goto_pc_self ..)).step (s.realConnect _ true) true hpc rfl rfl rfl rfl
  have hmutex : ∀ {s : SqlPool}, s.pc t = .inGet scan .mutexInit →
      s.Returned t (scan.index s.poolNumber) :=
    fun {s} hpc => (hconnect (goto_pc_self ..)).step (s.mutexInit _) true hpc rfl rfl rfl rfl
  have hinit : ∀ {s : SqlPool}, s.pc t = .inGet scan .mysqlInit →
      s.Returned t (scan.index s.poolNumber) :=
    fun {s} hpc => (hmutex (goto_pc_self ..)).step (s.mysqlInit _) true hpc rfl rfl rfl rfl
  cases place with
  | trylock => exact absurd rfl hplace
  | state =>
    by_cases hstate : (s.sqlPool (scan.index s.poolNumber)).sqlState = .disconn
    · refine (hinit (goto_pc_self ..)).step s true hpc ?_ rfl rfl rfl
      simp only [SqlPool.getStep, if_pos hstate]
    · refine (hping false (goto_pc_self ..)).step s true hpc ?_ rfl rfl rfl
      simp only [SqlPool.getStep, if_neg hstate]
  | mysqlInit => exact hinit hpc
  | mutexInit => exact hmutex hpc
  | realConnect => exact hconnect hpc
  | connected => exact hconnected hpc
  | ping reconnected => exact hping reconnected hpc
  | markUsed => exact hmark hpc
  | connectFailed | pingFailed | clearUsed | unlock => cases hok

/-- A call that has failed unlocks its node. -/
theorem unlocked_of_failed (hpc : s.pc t = .inGet scan place) (hfail : place.failed = true) :
    s.Unlocked t (scan.index s.poolNumber) := by
  have hunlock : ∀ {s : SqlPool}, s.pc t = .inGet scan .unlock →
      s.Unlocked t (scan.index s.poolNumber) := by
    intro s hpc
    refine ⟨[true], s.getStep t scan true .unlock, ?_, ?_, rfl⟩
    · rw [List.map_cons, Transition.System.run_cons, step_next hpc]
      rfl
    · simp only [SqlPool.getStep, goto_sqlPool, setNode_sqlPool_self]
  have hclear : ∀ {s : SqlPool}, s.pc t = .inGet scan .clearUsed →
      s.Unlocked t (scan.index s.poolNumber) :=
    fun {s} hpc => (hunlock (goto_pc_self ..)).step (s.setNode _ _) true hpc rfl rfl
  cases place with
  | connectFailed =>
    exact (hclear (goto_pc_self ..)).step (s.setConnState _ false) true hpc rfl rfl
  | pingFailed => exact (hclear (goto_pc_self ..)).step (s.setNode _ _) true hpc rfl rfl
  | clearUsed => exact hclear hpc
  | unlock => exact hunlock hpc
  | _ => cases hfail

/-- Calls that are under way can go on until node `i` has two holders or is held unlocked. -/
def Fails (s : SqlPool) (i : Nat) : Prop :=
  ∃ moves s', (∀ a ∈ moves, ∃ v ok, a = (v, .next ok)) ∧ system.run s moves = some s' ∧
    ¬ s'.OneHolder i

/-- Alone, a thread goes on until the node fails, or to a state from which it can. -/
theorem fails_of_run {oks : List Bool}
    (hs : system.run s (oks.map fun ok => (t, .next ok)) = some s') (h : s'.Fails i) :
    s.Fails i := by
  obtain ⟨moves, r, hmoves, hr, hnot⟩ := h
  refine ⟨oks.map (fun ok => (t, .next ok)) ++ moves, r, fun a ha => ?_, ?_, hnot⟩
  · rcases List.mem_append.mp ha with ha | ha
    · obtain ⟨ok, -, rfl⟩ := List.mem_map.mp ha
      exact ⟨t, ok, rfl⟩
    · exact hmoves a ha
  · rw [Transition.System.run_append, hs, Option.bind_some, hr]

/-- A node that a call has. -/
theorem has_cases (h : s.Has t i) : ∃ scan place, s.pc t = .inGet scan place ∧
    place ≠ .trylock ∧ scan.index s.poolNumber = i := by
  unfold Has at h
  cases hpc : s.pc t with
  | inGet scan place =>
    rw [hpc, SqlPc.node, Option.ite_none_left_eq_some] at h
    exact ⟨scan, place, rfl, h.1, Option.some.inj h.2⟩
  | idle =>
    rw [hpc] at h
    cases h
  | inRelease j =>
    rw [hpc] at h
    cases h

/-- A node is held while a call has it: the call returns it once more, or unlocks it. -/
theorem fails_of_held (hheld : s.holders i ≠ []) (hu : s.Has u i) : s.Fails i := by
  obtain ⟨scan, place, hpc, hplace, rfl⟩ := has_cases hu
  cases hfail : place.failed with
  | false =>
    -- A second holder
    obtain ⟨oks, r, hr, -, hholders, -⟩ := returned_of_not_failed hpc hplace hfail
    refine fails_of_run hr ⟨[], r, nofun, rfl, fun hone => ?_⟩
    have hlen := hone.one
    rw [hholders, List.length_cons] at hlen
    exact hheld (List.eq_nil_of_length_eq_zero (by omega))
  | true =>
    -- The holder's node is unlocked
    obtain ⟨oks, r, hr, hunlocked, hholders⟩ := unlocked_of_failed hpc hfail
    refine fails_of_run hr ⟨[], r, nofun, rfl, fun hone => ?_⟩
    have hlocked := hone.locked (by rwa [hholders])
    rw [hunlocked] at hlocked
    cases hlocked

/-- Two calls have the same node, and one has just locked it. -/
theorem fails_of_overlap (hpc : s.pc t = .inGet scan .state)
    (hu : s.Has u (scan.index s.poolNumber)) (hut : u ≠ t) :
    s.Fails (scan.index s.poolNumber) := by
  obtain ⟨oks, r, hr, hn, hholders, hothers⟩ := returned_of_not_failed hpc nofun rfl
  refine fails_of_run hr (fails_of_held (u := u) (by rw [hholders]; exact List.cons_ne_nil _ _) ?_)
  rwa [Has, hothers u hut, hn]

/-- A step outside the condition, in a run that has met it so far, can be followed by steps
    after which a node has two holders or is held unlocked. -/
theorem one_holder_exact
    (h : Transition.Reach system (fun s a => s.ReleasesOwn a ∧ s.MutexKept a) s) {a : Nat × Move}
    (hs : system.step s a = some s') (hnot : ¬ s.MutexKept a) : ∃ i, s'.Fails i := by
  obtain ⟨t, m⟩ := a
  cases m with
  | next ok =>
    simp only [MutexKept] at hnot
    split at hnot
    · -- The node that is locked is one that another call has
      rename_i scan hpc
      simp only [not_forall, not_not] at hnot
      obtain ⟨hlt, hfree, u, hu⟩ := hnot
      have hut : u ≠ t := by
        rintro rfl
        rw [Has, hpc] at hu
        cases hu
      rw [step_next hpc, Option.some.injEq] at hs
      simp only [SqlPool.getStep, if_pos hlt, hfree, Bool.false_eq_true, if_false] at hs
      subst hs
      refine ⟨_, fails_of_overlap (goto_pc_self ..) ?_ hut⟩
      rwa [Has, goto_pc_of_ne _ _ _ hut]
    · -- `pthread_mutex_init` has unlocked the node that is going to be returned
      rename_i scan hpc
      have hunlocked := (exclusive_of_reach h).has_lock t scan _ false hpc rfl
      obtain rfl : ok = true := (Bool.not_eq_false ok).mp hnot
      have hs' : s.goto t (.inGet scan .markUsed) = s' :=
        Option.some.inj ((step_next hpc true).symm.trans hs)
      subst hs'
      refine ⟨scan.index s.poolNumber, [(t, .next true)],
        (s.goto t (.inGet scan .markUsed)).getStep t scan true .markUsed, fun a ha => ?_, ?_,
        fun hone => ?_⟩
      · exact ⟨t, true, List.mem_singleton.mp ha⟩
      · rw [Transition.System.run_cons, step_next (goto_pc_self ..)]
        rfl
      · have hlocked := hone.locked ?_
        · simp [SqlPool.getStep, hunlocked] at hlocked
        · simp [SqlPool.getStep]
    · exact absurd trivial hnot
  | _ => exact absurd trivial hnot

end SqlPool

end JQServer
