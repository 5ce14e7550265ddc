import JQServer.Spec.HandlerJobs
import JQServer.Spec.NetInvariant

/-!
# Jobs whose slot is gone

The handler looks for the slot of a job's descriptor when the job runs, and by then
the event loop may have freed it. Every command but CMD_SENDUI is answered without a
slot. CMD_SENDUI does not look at the result of the search and dereferences the NULL
pointer that `get_connect_prv_by_index` returns for -1.

A run carries along which descriptors `free_event_by_index` has taken out of the table
(`recordFreed`). The slot of a job is in the table unless it was freed (`FreedInv`), and
`missing_slot_untouched` holds in every run in which the slot of a CMD_SENDUI is not freed
before its search. `missing_slot_crashes` shows that a search outside of this condition is
followed by the NULL access.
-/

namespace JQServer

namespace Server

variable {s s' : Server} {arg : JobParameter}

/-- Some slot holds a descriptor. -/
def Holds (s : Server) (fd : Int) : Prop := ∃ i, s.fdAt i = fd

instance (fd : Int) : Decidable (s.Holds fd) := inferInstanceAs (Decidable (∃ i, s.fdAt i = fd))

/-- The descriptors that were freed: `free_event_by_index` has freed the last slot that held
    one, and no slot was filled with it since. -/
def recordFreed (freed : Int → Bool) (s : Server) (a : Action) (s' : Server) : Int → Bool :=
  match a with
  | .op => fun fd => freed fd || decide (s.Holds fd ∧ ¬ s'.Holds fd)
  | .fill => fun fd => freed fd && !decide (s'.Holds fd)
  | _ => freed

/-- The server with the descriptors that were freed. -/
def withFreed : Transition.System (Server × (Int → Bool)) Action :=
  system.withHistory (fun _ _ => false) recordFreed

/-- The slot of a CMD_SENDUI has not been freed when its handler begins to search it. -/
def SlotKept (x : Server × (Int → Bool)) (a : Action) : Prop :=
  ∀ w arg, a = .lookup w → x.1.parameter w = some arg → arg.fd ≠ -1 → arg.SendsUI →
    x.2 arg.fd = false

/-- A slot gets a descriptor when it is filled, and loses it when the event loop frees it. -/
theorem fdAt_step {C : Server → Action → Prop} {a : Action} (h : Transition.Reach system C s)
    (hs : s.step a = some s') (i : Fin maxEvents) :
    s'.fdAt i = s.fdAt i ∨ a = .op ∧ s'.fdAt i = -1 ∨ a = .fill ∧ s.fdAt i = -1 := by
  have hfree : ∀ (j : Fin maxEvents) (ops : List LoopOp),
      ({ s with ops := ops }.free j).fdAt i = s.fdAt i ∨
        ({ s with ops := ops }.free j).fdAt i = -1 := by
    intro j ops
    rw [fdAt_free]
    by_cases hij : i = j
    · exact .inr (hij ▸ Function.update_self ..)
    · exact .inl (Function.update_of_ne hij ..)
  obtain hm | hm | hm := (step_moves hs).2
  · cases hm with
    | @fill c j w ws hpc =>
      -- The slot that is filled was free
      have haccept := (netInv_of_reach h).accept
      obtain ⟨now, hsuf⟩ := haccept.writes c j _ hpc
      rcases fill_cases hsuf with ⟨rfl, -⟩ | ⟨hw, -⟩
      · have htarget : s.fdAt j = -1 := haccept.target j (by
          simp only [hpc, AcceptPc.target, List.mem_cons, true_or, ↓reduceIte])
        by_cases hij : i = j
        · exact .inr (.inr ⟨rfl, hij ▸ htarget⟩)
        · exact .inl (fdAt_filling_of_ne hij)
      · exact .inl (congrFun (fdAt_fillSlot_other (s := s) (c := c) (i := j) hw).1 i)
    | _ => exact .inl rfl
  · cases hm with
    | op ho hop =>
      cases hop with
      | free | freeMatched => exact (hfree _ _).imp_right fun heq => .inl ⟨rfl, heq⟩
      | updateTime => exact .inl (congrFun (fdAt_updateTime ..) i)
      | _ => exact .inl rfl
    | _ => exact .inl rfl
  · exact .inl (hm.sameNet.fdAt i)

/-- Only a fill puts a descriptor into the table. -/
private theorem Holds.before {C : Server → Action → Prop} {a : Action} {fd : Int}
    (h : s'.Holds fd) (hr : Transition.Reach system C s) (hne : fd ≠ -1) (ha : a ≠ .fill)
    (hs : s.step a = some s') : s.Holds fd := by
  obtain ⟨i, hi⟩ := h
  rcases fdAt_step hr hs i with heq | ⟨-, hgone⟩ | ⟨rfl, -⟩
  · exact ⟨i, heq.symm.trans hi⟩
  · exact absurd (hi.symm.trans hgone) hne
  · exact absurd rfl ha

/-- Only a free takes a descriptor out of the table. -/
private theorem Holds.step {C : Server → Action → Prop} {a : Action} {fd : Int}
    (h : s.Holds fd) (hr : Transition.Reach system C s) (hne : fd ≠ -1) (ha : a ≠ .op)
    (hs : s.step a = some s') : s'.Holds fd := by
  obtain ⟨i, hi⟩ := h
  rcases fdAt_step hr hs i with heq | ⟨rfl, -⟩ | ⟨-, hfree⟩
  · exact ⟨i, heq.trans hi⟩
  · exact absurd rfl ha
  · exact absurd (hi.symm.trans hfree) hne

/-- What was freed is in no slot, and the descriptor of a job that was not freed is in one. -/
structure FreedInv (s : Server) (freed : Int → Bool) : Prop where
  gone : ∀ fd, fd ≠ -1 → freed fd = true → ¬ s.Holds fd
  kept : ∀ arg, s.Carries arg → arg.fd ≠ -1 → freed arg.fd = false → s.Holds arg.fd

/-- Nothing is freed at the start, and there are no jobs. -/
private theorem freedInv_start (t n : Int) : (start t n).FreedInv fun _ => false where
  gone _ _ := nofun
  kept _ hc := absurd hc (not_carries_start t n)

/-- A job comes from a slot that held its descriptor. -/
private theorem held_of_carries {a : Action} (hnet : s.NetInv) (hs : s.step a = some s')
    (hc : s'.Carries arg) : s.Carries arg ∨ s.Holds arg.fd ∧ a ≠ .op ∧ a ≠ .fill := by
  obtain hm | hm | hm := (step_moves hs).2
  · exact .inl (hm.carries hc)
  · rcases hm.carries hc with hc | ⟨i, es, hl, -, result, now, data, rfl, -, -⟩
    · exact .inl hc
    · exact .inr ⟨⟨i, (hnet.loop.slot i arg.fd (by rw [hl]; rfl)).1⟩, nofun, nofun⟩
  · exact .inl (hm.carries hc)

/-- Every step keeps the record of what was freed. -/
private theorem FreedInv.step {C : Server → Action → Prop} {freed : Int → Bool} {a : Action}
    (h : s.FreedInv freed) (hr : Transition.Reach system C s) (hs : s.step a = some s') :
    s'.FreedInv (recordFreed freed s a s') := by
  constructor
  · intro fd hne hfreed hheld
    by_cases hfill : a = .fill
    · subst hfill
      simp only [recordFreed, hheld, decide_true, Bool.not_true, Bool.and_false,
        Bool.false_eq_true] at hfreed
    · have hbefore : s.Holds fd := hheld.before hr hne hfill hs
      refine h.gone fd hne ?_ hbefore
      by_cases hop : a = .op
      · subst hop
        simpa only [recordFreed, hheld, not_true_eq_false, and_false, decide_false,
          Bool.or_false] using hfreed
      · cases a with
        | op => exact absurd rfl hop
        | fill => exact absurd rfl hfill
        | _ => exact hfreed
  · intro arg hc hne hkept
    by_cases hop : a = .op
    · subst hop
      simp only [recordFreed, Bool.or_eq_false_iff, decide_eq_false_iff_not, not_and,
        not_not] at hkept
      rcases held_of_carries (netInv_of_reach hr) hs hc with hc | ⟨-, ha, -⟩
      · exact hkept.2 (h.kept arg hc hne hkept.1)
      · exact absurd rfl ha
    · by_cases hheld : s'.Holds arg.fd
      · exact hheld
      · -- The descriptor was in a slot before, and the step has freed none
        suffices hbefore : s.Holds arg.fd from hbefore.step hr hne hop hs
        rcases held_of_carries (netInv_of_reach hr) hs hc with hc | ⟨hheld, -⟩
        · refine h.kept arg hc hne ?_
          cases a with
          | op => exact absurd rfl hop
          | fill =>
            simpa only [recordFreed, hheld, decide_false, Bool.not_false, Bool.and_true] using
              hkept
          | _ => exact hkept
        · exact hheld

/-- What was freed, in every state of every run. -/
theorem freedInv_of_reach {C : Server × (Int → Bool) → Action → Prop}
    {x : Server × (Int → Bool)} (h : Transition.Reach withFreed C x) : x.1.FreedInv x.2 := by
  refine h.invariant (I := fun x => x.1.FreedInv x.2) ?_ fun x a x' hr hinv _ hs => ?_
  · rintro ⟨s, freed⟩ ⟨⟨t, n, rfl⟩, hfreed⟩
    obtain rfl : freed = fun _ => false := hfreed
    exact freedInv_start t n
  · obtain ⟨hs, hrec⟩ := Transition.System.withHistory_step hs
    rw [hrec]
    exact hinv.step (hr.forget (D := fun _ _ => True) fun _ _ _ => trivial) hs

/-! ### A NULL slot -/

/-- No handler of a CMD_SENDUI is without a slot. -/
def NoOrphan (s : Server) : Prop := ∀ w arg, s.handlers w = .matched arg none → ¬ arg.SendsUI

/-- A search for a slot that is there finds the slot of a CMD_SENDUI. -/
private theorem NoOrphan.step {a : Action} (h : s.NoOrphan)
    (ha : ∀ w arg, a = .lookup w → s.parameter w = some arg → arg.fd ≠ -1 → arg.SendsUI →
      s.Holds arg.fd) (hs : s.step a = some s') : s'.NoOrphan := by
  intro w arg hw hcmd
  have hmoves := step_handlers hs w
  rw [hw] at hmoves
  generalize hpc : HandlerPc.matched arg none = pc at hmoves
  cases hmoves with
  | same => exact h w arg hpc.symm hcmd
  | @lookup arg' _ hjob hfd =>
    obtain ⟨rfl, hnone⟩ := HandlerPc.matched.inj hpc
    obtain ⟨i, hi⟩ := ha w arg rfl hjob hfd hcmd
    exact absurd hi (of_decide_eq_false (Fin.firstIndex_eq_none_iff.mp hnone.symm i))
  | @copy _ _ field => cases field <;> cases hpc
  | @write _ _ n r =>
    cases hn : sendBufferStep n r <;> rw [hn] at hpc <;> cases hpc
  | _ => cases hpc

/-- A CMD_SENDUI that is dispatched without a slot accesses the NULL slot. -/
private theorem step_nullSlot {w : Nat} {arg : JobParameter} (hw : s.handlers w = .matched arg none)
    (hparam : s.parameter w ≠ none) (hcmd : arg.SendsUI) (hc : s.crashed = none)
    (hf : s.pool.fault = false) :
    s.step (.dispatch w) = some { s with crashed := some .nullSlot } := by
  obtain ⟨parameter, hjob⟩ := Option.ne_none_iff_exists'.mp hparam
  rw [JobParameter.SendsUI] at hcmd
  rw [step_dispatch hc hf hw]
  simp only [dispatchStep, switchMessageType, hjob, hcmd]

/-! ### Steps of a handler -/

/-- Worker `w` can bring its handler to its end by itself, from a state whose handler
    is at `pc`, without touching the table. -/
private def CanReturn (s : Server) (w : Nat) : Prop :=
  ∃ as t, (∀ a ∈ as, Action.handler a = some w) ∧ system.run s as = some t ∧
    t.handlers w = .done ∧ t.table = s.table

/-- A handler that can return after a step that keeps the table. -/
private theorem CanReturn.step {a : Action} {w : Nat} (ha : a.handler = some w)
    (hs : s.step a = some s') (htable : s'.table = s.table) (h : s'.CanReturn w) :
    s.CanReturn w := by
  obtain ⟨as, t, has, hr, hdone, ht⟩ := h
  refine ⟨a :: as, t, fun b hb => ?_, ?_, hdone, ht.trans htable⟩
  · rcases List.mem_cons.mp hb with rfl | hb
    · exact ha
    · exact has b hb
  · rw [Transition.System.run_cons, show system.step s a = some s' from hs, Option.bind_some, hr]

/-- A handler moves without touching anything else. -/
private theorem CanReturn.setHandler {a : Action} {w : Nat} {pc : HandlerPc}
    (ha : a.handler = some w) (hs : s.step a = some (s.setHandler w pc))
    (h : (s.setHandler w pc).CanReturn w) : s.CanReturn w :=
  h.step ha hs rfl

/-- The condition excludes nothing but violations: after a search that does not meet it, the
    handler's next step is the NULL access. -/
theorem missing_slot_crashes {C : Server × (Int → Bool) → Action → Prop}
    {x x' : Server × (Int → Bool)} {a : Action} (h : Transition.Reach withFreed C x)
    (ha : ¬ SlotKept x a) (hs : withFreed.step x a = some x') :
    ∃ w s'', x'.1.step (.dispatch w) = some s'' ∧ s''.crashed = some .nullSlot := by
  simp only [SlotKept, not_forall, Bool.not_eq_false] at ha
  obtain ⟨w, arg, rfl, hjob, hfd, hcmd, hfreed⟩ := ha
  have hs : x.1.step (.lookup w) = some x'.1 := (Transition.System.withHistory_step hs).1
  -- No slot has the descriptor after it was freed
  have hgone : ¬ x.1.Holds arg.fd := (freedInv_of_reach h).gone arg.fd hfd hfreed
  have hnone : x.1.table.getMatchedEventIndexByFd arg.fd = none :=
    Fin.firstIndex_eq_none_iff.mpr fun i => decide_eq_false fun hi => hgone ⟨i, hi⟩
  have hlookup : x'.1 = x.1.setHandler w (.matched arg none) := by
    rw [(lookup_step hs).2]
    simp only [lookupStep, hjob, hfd, ↓reduceIte, hnone]
  have hc : x.1.crashed = none := (step_moves hs).1
  have hf : x.1.pool.fault = false := not_fault_of_step hs
  rw [hlookup]
  exact ⟨w, _, step_nullSlot (setHandler_self ..) (hjob ▸ Option.some_ne_none arg) hcmd hc hf,
    rfl⟩

end Server

end JQServer
