import JQServer.Spec.IdleSweep

/-!
# How long a silent connection stays

A sweep leaves no connection in the table that was silent for more than SERVER_TIMEOUT
seconds, and the event loop does not wait for events when the last sweep is SERVER_TIMEOUT
seconds ago or more. So it waits only while every connection in the table was accepted or
heard less than twice SERVER_TIMEOUT ago (`idle_bounded`).

The accept thread reads the time before it writes the descriptor, and may be stopped between
the two. A connection that it puts into the table late is old already, so the bound grows with
this delay.
-/

namespace JQServer

namespace Server

variable {s s' : Server} {r : Times} {a : Action} {b d : Int}

/-- `init_epoll_connect_by_index` writes the descriptor at most `d` seconds after it has read the
    time. -/
def FillsWithin (d : Int) (p : Server × Times) (a : Action) : Prop :=
  a = .fill → ∀ c i fd ws, p.1.accept = .filling c i (.connectFd fd :: ws) →
    p.2.clock - p.2.accepted c.conn ≤ d

/-- The steps of a timely run in which the accept thread fills slots within `d` seconds. -/
def Prompt (d : Int) (p : Server × Times) (a : Action) : Prop :=
  Timely p a ∧ FillsWithin d p a

/-- The connections that the last sweep has left in the table, or that came later, were accepted
    or heard at most `b` seconds before it. While it runs, this holds of the slots behind it. -/
structure FreshInv (b : Int) (s : Server) (r : Times) : Prop where
  clock : s.eventTime ≤ r.clock
  sweep : ∀ now, s.loop.sweepTime = some now → now = s.eventTime
  fresh : ∀ i c, s.owner i = some c → .free (some i) ∉ s.ops →
    (∀ k, s.loop.sweepIndex = some k → i.val < k) → s.eventTime - r.last c ≤ b

/-- It holds at the start, where every slot is free. -/
theorem freshInv_start (t n : Int) : (start t n).FreshInv b (Times.start (start t n)) where
  clock := Int.le_refl _
  sweep _ hl := by cases hl
  fresh _ _ hi := by cases hi

/-- The last time of a connection in the table does not become older than the last sweep. -/
private theorem fresh_recordTimes (s' : Server) {i : Fin maxEvents} {c : Nat} (hb : 0 ≤ b)
    (hown : s.OwnInv) (hnet : s.NetInv) (hlife : s.LifeInv)
    (hclock : ∀ t, a.time = some t → s.eventTime ≤ t) (hi : s.owner i = some c)
    (h : s.eventTime - r.last c ≤ b) : s.eventTime - (recordTimes r s a s').last c ≤ b := by
  -- The accept thread reads the time for a client that is in no slot
  have hstamp : stamps a s.accept ≠ some c := by
    intro hst
    cases a with
    | initSlot t =>
      cases hpc : s.accept with
      | ready c' j =>
        rw [hpc] at hst
        refine (hown.client_new hnet hlife (c := c') (by rw [hpc]; rfl)).1 i ?_
        rw [hi, ← hst, stamps]
      | _ => rw [hpc] at hst; cases hst
    | _ => cases hst
  by_cases hhear : s.hears a s.loop = some c
  · cases a with
    | recv result t =>
      -- The connection is heard now
      have hres : (recvBufferFromFd result).isSome = true := by
        cases hres : recvBufferFromFd result with
        | none =>
          rw [hears.eq_def] at hhear
          split at hhear
          · rename_i heq _
            cases heq
            rw [hres] at hhear
            cases hhear
          · cases hhear
        | some data => rfl
      obtain ⟨data, hdata⟩ := Option.isSome_iff_exists.mp hres
      have htime : Action.time (.recv result t) = some t := by
        rw [Action.time, hdata, Option.map_some]
      have hlast : (recordTimes r s (.recv result t) s').last c = t := by
        simp only [Times.last, recordTimes, hhear, ↓reduceIte, htime, Option.getD_some]
      have := hclock t htime
      rw [hlast]
      omega
    | _ => cases hhear
  · have hlast : (recordTimes r s a s').last c = r.last c := by
      simp only [Times.last, recordTimes, hhear, hstamp, ↓reduceIte]
    rw [hlast]
    exact h

/-- A slot that has an owner after another was freed. -/
private theorem owner_freed {i j : Fin maxEvents} {c : Nat} (hj : (s.free i).owner j = some c) :
    j ≠ i ∧ s.owner j = some c := by
  have hji : j ≠ i := by
    rintro rfl
    simp only [free, Function.update_self, reduceCtorEq] at hj
  simp only [free, Function.update_of_ne hji] at hj
  exact ⟨hji, hj⟩

section Step

variable (h : s.FreshInv b r) (hb : 0 ≤ b) (hown : s.OwnInv) (hnet : s.NetInv) (hlife : s.LifeInv)
  (hclock : ∀ t, a.time = some t → r.clock ≤ t)
include h hb hown hnet hlife hclock

/-- A step that starts no sweep keeps the invariant, if it says of every slot that the sweep is
    past that it was past it before, or that its connection is fresh. -/
private theorem FreshInv.keep (hevent : s'.eventTime = s.eventTime)
    (hsweep : ∀ now, s'.loop.sweepTime = some now → s.loop.sweepTime = some now)
    (hfresh : ∀ i c, s'.owner i = some c → .free (some i) ∉ s'.ops →
      (∀ k, s'.loop.sweepIndex = some k → i.val < k) →
      s.owner i = some c ∧ .free (some i) ∉ s.ops ∧
        (∀ k, s.loop.sweepIndex = some k → i.val < k) ∨
      s.owner i = some c ∧ s.eventTime - r.last c ≤ b ∨
      s.eventTime - (recordTimes r s a s').last c ≤ b) :
    s'.FreshInv b (recordTimes r s a s') where
  clock := by
    rw [hevent]
    exact Int.le_trans h.clock (recordTimes_clock s' hclock)
  sweep now hl := by
    rw [hevent]
    exact h.sweep now (hsweep now hl)
  fresh i c hi hfree hk := by
    have hle : ∀ t, a.time = some t → s.eventTime ≤ t := fun t ht =>
      Int.le_trans h.clock (hclock t ht)
    rw [hevent]
    -- What was fresh stays fresh, since times are only recorded later
    rcases hfresh i c hi hfree hk with ⟨hi, hfree, hk⟩ | ⟨hi, hlast⟩ | hlast
    · exact fresh_recordTimes s' hb hown hnet hlife hle hi (h.fresh i c hi hfree hk)
    · exact fresh_recordTimes s' hb hown hnet hlife hle hi hlast
    · exact hlast

/-- Steps of the accept thread: a slot gets a descriptor soon after the time was read. -/
private theorem FreshInv.accept_step (hinv : s.TimeInv r) (hd : d ≤ b)
    (hfill : FillsWithin d (s, r) a) (hs : s.AcceptMoves a s') :
    s'.FreshInv b (recordTimes r s a s') := by
  cases hs with
  | @fill c i w ws hpc =>
    refine h.keep hb hown hnet hlife hclock rfl (fun _ hl => hl) ?_
    intro j x hj hfree hk
    rcases fill_cases (hinv.filling c i (w :: ws) hpc).1 with ⟨rfl, hws⟩ | ⟨hw, hws⟩
    · by_cases hji : j = i
      · -- The slot is now the client's, which was not heard since its accept
        obtain rfl : c.conn = x := by
          simpa only [hji, fillSlot, Function.update_self, Option.some.injEq] using hj
        have hunheard : r.heard c.conn = none := hinv.client c (by
          simp only [hpc, AcceptPc.unfilled, List.mem_cons, true_or, ↓reduceIte])
        have hlast : r.last c.conn = r.accepted c.conn := by
          rw [Times.last, hunheard, Option.getD_none]
        have hdelay : r.clock - r.accepted c.conn ≤ d := hfill rfl c i c.fd ws hpc
        have hevent := h.clock
        refine .inr (.inr ?_)
        show s.eventTime - r.last c.conn ≤ b
        omega
      -- The other writes leave the descriptors, and so the owners, alone
      · refine .inl ⟨?_, hfree, hk⟩
        simpa only [fillSlot, Function.update_of_ne hji] using hj
    · refine .inl ⟨?_, hfree, hk⟩
      rw [← (fdAt_fillSlot_other hw).2]
      exact hj
  | _ => exact h.keep hb hown hnet hlife hclock rfl (fun _ hl => hl) fun _ _ hi hf hk =>
      .inl ⟨hi, hf, hk⟩

/-- Steps of the event loop: a sweep leaves a slot behind if it is free, is freed now, or has the
    time of a connection that was not silent for long. -/
private theorem FreshInv.loop_step (hinv : s.TimeInv r) (hserver : serverTimeout ≤ b)
    (hs : s.LoopMoves a s') : s'.FreshInv b (recordTimes r s a s') := by
  -- Outside of the sweep nothing was pending, and every slot is past the sweep
  have hquiet : s.ops = [] → s.loop.sweepIndex = none → ∀ i, .free (some i) ∉ s.ops ∧
      ∀ k, s.loop.sweepIndex = some k → i.val < k := by
    intro ho hl i
    rw [ho, hl]
    exact ⟨List.not_mem_nil, fun k hk => by cases hk⟩
  -- A call that is made was not the last thing pending
  have htail : ∀ {op ops} i, s.ops = op :: ops → op ≠ .free (some i) → .free (some i) ∉ ops →
      .free (some i) ∉ s.ops := by
    intro op ops i ho hop hfree hm
    rw [ho] at hm
    rcases List.mem_cons.mp hm with heq | hm
    · exact hop heq.symm
    · exact hfree hm
  cases hs with
  | @startSweep now hl ho =>
    exact {
      clock := Int.le_refl _
      sweep := fun now' hl' => (Option.some.inj hl').symm
      fresh := fun i c _ _ hk => absurd (hk 0 rfl) (Nat.not_lt_zero _) }
  | wait hl ho | epollWait hl ho | endEvents hl ho | invalidRead hl ho | unmatched hl ho
  | matched hl ho | errorEvent hl ho | recvClosed hl ho | recv hl ho | sweepJobs hl ho =>
    refine h.keep hb hown hnet hlife hclock rfl ?_ ?_
    · rintro _ ⟨⟩
    · intro i c hi _ _
      exact .inl ⟨hi, hquiet ho (by rw [hl]; rfl) i⟩
  | @readSlot now i hl ho hfd =>
    refine h.keep hb hown hnet hlife hclock rfl ?_ ?_
    · rw [hl]
      exact fun _ hl' => hl'
    · rw [hl]
      exact fun j c hj hfree hk => .inl ⟨hj, hfree, hk⟩
  | @skipSlot now i hl ho hfd =>
    refine h.keep hb hown hnet hlife hclock rfl ?_ ?_
    · rw [hl]
      exact fun _ hl' => hl'
    · intro j c hj hfree hk
      have hji : j ≠ i := by
        rintro rfl
        exact (hnet.owner j).mpr (by rw [hj]; exact Option.some_ne_none c) hfd
      have hlt : j.val < i + 1 := hk (i + 1) rfl
      refine .inl ⟨hj, hfree, fun k hk' => ?_⟩
      rw [hl] at hk'
      obtain rfl := Option.some.inj hk'
      have : j.val ≠ i.val := fun heq => hji (Fin.ext heq)
      omega
  | @sweepSlot i fd now hl ho ht =>
    refine h.keep hb hown hnet hlife hclock rfl ?_ ?_
    · rw [hl]
      exact fun _ hl' => hl'
    · intro j c hj hfree hk
      have hji : j ≠ i := by
        rintro rfl
        exact hfree List.mem_cons_self
      have hlt : j.val < i + 1 := hk (i + 1) rfl
      refine .inl ⟨hj, by rw [ho]; exact List.not_mem_nil, fun k hk' => ?_⟩
      rw [hl] at hk'
      obtain rfl := Option.some.inj hk'
      have : j.val ≠ i.val := fun heq => hji (Fin.ext heq)
      omega
  | @sweepKeep i fd now hl ho ht =>
    refine h.keep hb hown hnet hlife hclock rfl ?_ ?_
    · rw [hl]
      exact fun _ hl' => hl'
    · intro j c hj hfree hk
      by_cases hji : j = i
      · -- The sweep has compared the last time of the connection
        subst hji
        have hlast := hinv.slot j c hj (by rw [ho]; exact fun _ => List.not_mem_nil)
        have hnow : now = s.eventTime := h.sweep now (by rw [hl]; rfl)
        rw [timedOut, decide_eq_false_iff_not, hlast, hnow] at ht
        exact .inr (.inl ⟨hj, by omega⟩)
      · have hlt : j.val < i + 1 := hk (i + 1) rfl
        refine .inl ⟨hj, by rw [ho]; exact List.not_mem_nil, fun k hk' => ?_⟩
        rw [hl] at hk'
        obtain rfl := Option.some.inj hk'
        have : j.val ≠ i.val := fun heq => hji (Fin.ext heq)
        omega
  | @sweepRead k now pool hl ho hk hp =>
    refine h.keep hb hown hnet hlife hclock rfl ?_ ?_
    · rintro _ ⟨⟩
    · intro j c hj hfree _
      refine .inl ⟨hj, hfree, fun k' hk' => ?_⟩
      rw [hl] at hk'
      obtain rfl := Option.some.inj hk'
      exact Nat.lt_of_lt_of_le j.isLt hk
  | @op op ops _ ho hop =>
    cases hop with
    | @free i _ =>
      refine h.keep hb hown hnet hlife hclock rfl (fun _ hl => hl) ?_
      intro j c hj hfree hk
      obtain ⟨hji, hj⟩ := owner_freed hj
      exact .inl ⟨hj, htail j ho (by simp [Ne.symm hji]) hfree, hk⟩
    | freeMatched _ _ =>
      refine h.keep hb hown hnet hlife hclock rfl (fun _ hl => hl) ?_
      intro j c hj hfree hk
      obtain ⟨-, hj⟩ := owner_freed hj
      exact .inl ⟨hj, htail j ho (by simp) hfree, hk⟩
    | _ =>
      refine h.keep hb hown hnet hlife hclock rfl (fun _ hl => hl) ?_
      intro j c hj hfree hk
      exact .inl ⟨hj, htail j ho (by simp) hfree, hk⟩
  | mallocFail ho | epollDelFail ho =>
    refine h.keep hb hown hnet hlife hclock rfl (fun _ hl => hl) ?_
    intro j c hj hfree hk
    exact .inl ⟨hj, htail j ho (by simp) hfree, hk⟩

end Step

/-- A worker starts no sweep. -/
private theorem WorkerMoves.eventTime (h : s.WorkerMoves a s') : s'.eventTime = s.eventTime := by
  cases h <;> rfl

/-- What is known of a state of a run with prompt steps. -/
theorem prompt_reach {p : Server × Times} (h : Transition.Reach timed (Prompt d) p) :
    Transition.Reach timed Timely p :=
  h.mono fun _ _ hc => hc.1

/-- The invariant holds in every state of such a run. -/
theorem freshInv_of_reach (hd : d ≤ b) (hserver : serverTimeout ≤ b) {p : Server × Times}
    (h : Transition.Reach timed (Prompt d) p) : p.1.FreshInv b p.2 := by
  have hb : 0 ≤ b := Int.le_trans (by decide) hserver
  refine Transition.Reach.invariant (I := fun p => p.1.FreshInv b p.2) ?_ ?_ h
  -- No connection at the start
  · rintro ⟨s, r⟩ ⟨⟨t, n, rfl⟩, hr⟩
    obtain rfl : r = Times.start (start t n) := hr
    exact freshInv_start t n
  · intro p a p' hr hinv hc hs
    obtain ⟨hstep, heq⟩ := Transition.System.withHistory_step hs
    have htimed := prompt_reach hr
    have hreach := timed_reach htimed
    have hown := ownInv_of_reach hreach
    have hnet := netInv_of_reach hreach
    have hlife := lifeInv_of_reach hreach
    have htime := timeInv_of_reach htimed
    rw [heq]
    rcases (step_moves hstep).2 with hm | hm | hm
    · exact hinv.accept_step hb hown hnet hlife hc.1.2 htime hd hc.2 hm
    · exact hinv.loop_step hb hown hnet hlife hc.1.2 htime hserver hm
    -- A worker neither touches a slot's owner nor the sweep
    · have hsame := hm.sameNet
      refine hinv.keep hb hown hnet hlife hc.1.2 hm.eventTime ?_ ?_
      · rw [hsame.loop]
        exact fun _ hl => hl
      · rw [hsame.owner, hsame.ops, hsame.loop]
        exact fun i c hi hfree hk => .inl ⟨hi, hfree, hk⟩

/-- A difference of times that fits an int is not changed by `abs`. -/
theorem le_absInt {x : Int} (h0 : 0 ≤ x) (hx : x < 2147483648) : x ≤ absInt x := by
  have hmod : x.bmod 0x100000000 = x := by
    rw [Int.bmod_def]
    split
    · exact Int.emod_eq_of_lt h0 (by omega)
    · omega
  rw [absInt, hmod]
  omega

/-- The event loop goes to wait without a sweep if the last one is not long past. -/
theorem step_tick_waiting {now : Int} (hs : s.step (.tick now) = some s')
    (hwait : s'.loop = .waiting) :
    s.loop = .top ∧ s.ops = [] ∧ absInt (now - s.eventTime) < 60 ∧ s'.owner = s.owner := by
  simp only [step] at hs
  split at hs
  · cases hs
  · split at hs
    · rename_i ho
      cases hl : s.loop with
      | top =>
        simp only [hl, loopStep] at hs
        split at hs
        · obtain rfl := Option.some.inj hs
          cases hwait
        · rename_i hshort
          obtain rfl := Option.some.inj hs
          exact ⟨rfl, List.isEmpty_iff.mp ho, by omega, rfl⟩
      | _ =>
        simp only [hl, loopStep, reduceCtorEq] at hs
    · cases hs

/-- In every run with a clock that does not run backwards, in which EPOLL_CTL_ADD does not fail
    on an open descriptor and the accept thread writes a descriptor at most `d` seconds after it
    has read the time for it: outside of the sweeps, every connection in the table was accepted or
    heard at most SERVER_TIMEOUT or `d` seconds before the last sweep; and when the event loop
    goes to wait for events, less than SERVER_TIMEOUT and this ago. -/
theorem idle_bounded (h : Transition.Reach timed (Prompt d) (s, r)) :
    (s.loop.sweepTime = none → s.ops = [] →
      ∀ i c, s.owner i = some c → s.eventTime - r.last c ≤ max serverTimeout d) ∧
    ∀ now s', s.step (.tick now) = some s' → r.clock ≤ now → now - s.eventTime < 2147483648 →
      s'.loop = .waiting →
      ∀ i c, s'.owner i = some c → now - r.last c < serverTimeout + max serverTimeout d := by
  have hinv : s.FreshInv (max serverTimeout d) r :=
    freshInv_of_reach (Int.le_max_right ..) (Int.le_max_left ..) h
  -- Outside of the sweeps every slot has been passed
  have hquiet : s.loop.sweepTime = none → s.ops = [] →
      ∀ i c, s.owner i = some c → s.eventTime - r.last c ≤ max serverTimeout d := by
    intro hl ho i c hi
    refine hinv.fresh i c hi (by rw [ho]; exact List.not_mem_nil) fun k hk => ?_
    cases hpc : s.loop <;> rw [hpc] at hl hk
    case sweeping => cases hl
    case checking => cases hl
    all_goals cases hk
  refine ⟨hquiet, ?_⟩
  intro now s' hs hclock hwrap hwait i c hi
  obtain ⟨hl, ho, hshort, howner⟩ := step_tick_waiting hs hwait
  -- Less than 60 seconds since the last sweep, which left the connection
  have hlast := hquiet (by rw [hl]; rfl) ho i c (howner ▸ hi)
  have hevent := hinv.clock
  have hle := le_absInt (x := now - s.eventTime) (by omega) hwrap
  rw [serverTimeout] at hlast ⊢
  omega

/-- A timely run that takes `d` seconds fills slots within `d` seconds. -/
theorem meets_prompt (t0 : Int) {as : List Action} {p : Server × Times}
    (hadd : .epollAdd false ∉ as)
    (htimes : (p.2.clock :: as.filterMap Action.time).IsChain (· ≤ ·))
    (hstart : t0 ≤ p.2.clock) (hend : ∀ t ∈ p.2.clock :: as.filterMap Action.time, t ≤ t0 + d)
    (hacc : ∀ c, t0 ≤ p.2.accepted c) : timed.Meets (Prompt d) p as := by
  induction as generalizing p with
  | nil => trivial
  | cons a as ih =>
    rw [List.mem_cons, not_or] at hadd
    have hclock : ∀ t, a.time = some t → p.2.clock ≤ t := by
      intro t ht
      rw [List.filterMap_cons, ht] at htimes
      exact (List.isChain_cons_cons.mp htimes).1
    refine ⟨⟨⟨fun ha => absurd ha.symm hadd.1, hclock⟩, ?_⟩, fun p' hp' => ?_⟩
    · intro _ c _ _ _ _
      have h1 := hend p.2.clock List.mem_cons_self
      have h2 := hacc c.conn
      omega
    · have hrec := (Transition.System.withHistory_step hp').2
      have hle : t0 ≤ a.time.getD p.2.clock := by
        cases ht : a.time with
        | none => exact hstart
        | some t => exact Int.le_trans hstart (hclock t ht)
      have hclock' : p'.2.clock = a.time.getD p.2.clock := by rw [hrec]; rfl
      -- The rest of the run, with the time this step has read
      apply ih hadd.2
      · rw [hclock']
        cases ht : a.time with
        | none => rw [List.filterMap_cons, ht] at htimes; exact htimes
        | some t =>
          rw [List.filterMap_cons, ht] at htimes
          exact (List.isChain_cons_cons.mp htimes).2
      · rw [hclock']
        exact hle
      · rw [hclock']
        intro t ht
        apply hend
        cases hta : a.time with
        | none => rw [List.filterMap_cons, hta]; rw [hta] at ht; exact ht
        | some t' =>
          rw [List.filterMap_cons, hta]
          rw [hta] at ht
          exact List.mem_cons_of_mem _ ht
      · intro c
        have hacc' : p'.2.accepted c =
            if stamps a p.1.accept = some c then a.time.getD p.2.clock else p.2.accepted c := by
          rw [hrec]
          rfl
        rw [hacc']
        split
        · exact hle
        · exact hacc c

/-- A client that was accepted at the start and heard 50 seconds later. -/
theorem idle_bounded_heard :
    ∃ s r s', timed.run (start 0, Times.start (start 0))
        (acceptRun { fd := 5, addr := .zero _, port := 80 } 0 ++ receiveRun 5 [0, 0, 0, 0] 50) =
          some (s, r) ∧
      s.step (.tick 59) = some s' ∧ s'.owner ⟨0, by decide⟩ = some 0 ∧ r.last 0 = 50 ∧
      59 - r.last 0 < serverTimeout + max serverTimeout 50 := by
  have hrun : ∃ s r s', timed.run (start 0, Times.start (start 0))
        (acceptRun { fd := 5, addr := .zero _, port := 80 } 0 ++ receiveRun 5 [0, 0, 0, 0] 50) =
          some (s, r) ∧
      s.step (.tick 59) = some s' ∧ s'.owner ⟨0, by decide⟩ = some 0 ∧ r.last 0 = 50 ∧
      r.clock = 50 ∧ s.eventTime = 0 ∧ s'.loop = .waiting :=
    ⟨_, _, _, rfl, rfl, rfl, rfl, rfl, rfl, rfl⟩
  obtain ⟨s, r, s', hs, hstep, howner, hlast, hclock, hevent, hwait⟩ := hrun
  have hreach : Transition.Reach timed (Prompt 50) (s, r) := by
    refine .run (.init ⟨⟨0, 15, rfl⟩, rfl⟩) (meets_prompt 0 ?_ ?_ (Int.le_refl _) ?_ ?_) hs
    · simp [acceptRun, fillRun, receiveRun]
    · show List.IsChain (· ≤ ·) [(0 : Int), 0, 50, 50]
      simp
    · show ∀ t ∈ [(0 : Int), 0, 50, 50], t ≤ 0 + 50
      simp
    · exact fun _ => Int.le_refl _
  refine ⟨s, r, s', hs, hstep, howner, hlast, ?_⟩
  exact (idle_bounded hreach).2 59 s' hstep (by rw [hclock]; decide) (by rw [hevent]; decide) hwait
    ⟨0, by decide⟩ 0 howner

end Server

end JQServer
