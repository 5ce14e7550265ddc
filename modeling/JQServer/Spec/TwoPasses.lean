import JQServer.Spec.Framing
import JQServer.Spec.SharedMoves
import JQServer.Spec.UserList

/-!
# The two passes of GETALLUSER

CMD_GETALLUSER counts the occupied slots, allocates that many entries and then writes an
entry for every slot that is occupied in a second pass. `Drift` counts, for each handler,
the slots that other threads occupied and those that they freed between the looks of the
two passes. The entries that a handler has begun, the occupied slots ahead of it and
the slots freed always add up to its count and the slots occupied.
-/

namespace JQServer

namespace SharedTable

variable {s s' : SharedTable} {a : Action}

/-- What a handler has counted in the first pass, and the entries begun in the second. -/
def passes : HandlerPc → Option (Nat × Nat)
  | .counting _ cnt | .allocating cnt => some (cnt, 0)
  | .filling cnt _ node => some (cnt, node.length)
  | .copying (.getAllUser cnt node) _ _ _ => some (cnt, node.length + 1)
  | .replied (.getAllUserAck cnt node) => some (cnt, node.length)
  | _ => none

/-- The slots that the first pass has seen and the second has not. -/
def window : HandlerPc → Finset (Fin maxEvents)
  | .counting iIndex _ => Fin.below maxEvents iIndex
  | .allocating _ => Finset.univ
  | .filling _ iIndex _ => Fin.upFrom maxEvents iIndex
  | .copying (.getAllUser ..) i _ _ => Fin.upFrom maxEvents (i + 1)
  | _ => ∅

/-- The occupied ones of these slots. -/
def ahead (t : Table) (pc : HandlerPc) : Nat := ((window pc).filter t.Occupied).card

/-- For each handler, how many slots other threads have occupied and freed between the two
    passes. -/
structure Drift where
  appeared : Nat → Nat
  vanished : Nat → Nat

/-- One more step to count for a handler, which starts again with the first pass. -/
def tally (pc pc' : HandlerPc) (n : Nat) (changed : Fin maxEvents → Prop)
    [DecidablePred changed] : Nat :=
  match pc' with
  | .counting 0 0 => 0
  | _ => n + ((window pc).filter changed).card

/-- The changes that a step makes to the slots between the passes. -/
def Drift.record (d : Drift) (s : SharedTable) (_ : Action) (s' : SharedTable) : Drift where
  appeared w := tally (s.handlers w) (s'.handlers w) (d.appeared w) fun i =>
    ¬ s.table.Occupied i ∧ s'.table.Occupied i
  vanished w := tally (s.handlers w) (s'.handlers w) (d.vanished w) fun i =>
    s.table.Occupied i ∧ ¬ s'.table.Occupied i

/-- The threads with that count. -/
def drifting : Transition.System (SharedTable × Drift) Action :=
  system.withHistory (fun _ => { appeared := fun _ => 0, vanished := fun _ => 0 }) Drift.record

/-- An entry that is begun has a place among those counted, and a reply has all of these. -/
def Agrees : HandlerPc → Prop
  | .copying (.getAllUser cnt node) _ _ _ => node.length < cnt
  | .replied (.getAllUserAck cnt node) => node.length = cnt
  | _ => True

/-- The passes of every handler agree. -/
def PassesAgree (s : SharedTable) : Prop := ∀ w, Agrees (s.handlers w)

/-- The condition on a look of the second pass at table `t`, when other threads have occupied
    `appeared` slots and freed `vanished` since the first. Where an entry is begun, fewer were
    occupied than were freed or are ahead; at the end, as many were occupied as freed. -/
def LookBalanced (t : Table) (appeared vanished : Nat) : HandlerPc → Prop
  | .filling cnt iIndex node =>
    if h : iIndex < maxEvents then
      t.Occupied ⟨iIndex, h⟩ → appeared < vanished + ahead t (.filling cnt iIndex node)
    else appeared = vanished
  | _ => True

/-- The condition on a step. -/
def Balanced (p : SharedTable × Drift) (a : Action) : Prop :=
  ∀ w, a = .handle w →
    LookBalanced p.1.table (p.2.appeared w) (p.2.vanished w) (p.1.handlers w)

/-! ### The balance of a handler -/

/-- GETALLUSER starts with the first slot. -/
private theorem passes_dispatch {arg : JobParameter} {i : Option (Fin maxEvents)}
    {pc : HandlerPc} {x : Nat × Nat} (h : dispatch arg i = some pc) (hp : passes pc = some x) :
    pc = .counting 0 0 := by
  unfold dispatch at h
  split at h
  case h_6 => exact (Option.some.inj h).symm
  case h_3 => exact absurd h.symm (Option.some_ne_none _)
  all_goals
    rw [← Option.some.inj h] at hp
    exact absurd hp.symm (Option.some_ne_none _)

/-- A slot that was copied for GETALLUSER is an entry. -/
private theorem passes_copied {i : Fin maxEvents} {kind : ReplyKind} {done : List FieldCopy}
    {pc : HandlerPc} {x : Nat × Nat} (h : copied i kind done = some pc) (hp : passes pc = some x) :
    ∃ cnt node n, kind = .getAllUser cnt node ∧ pc = .filling cnt (i + 1) (node ++ [n]) := by
  unfold copied at h
  split at h
  case h_3 => exact ⟨_, _, _, rfl, (Option.some.inj h).symm⟩
  case h_4 => exact absurd h.symm (Option.some_ne_none _)
  all_goals
    rw [← Option.some.inj h] at hp
    exact absurd hp.symm (Option.some_ne_none _)

/-- A look of the counting pass moves a slot from those ahead to the count or leaves it out of
    both. -/
private theorem look_counting {t : Table} {k cnt cnt' n' : Nat} {pc' : HandlerPc}
    (h : look t (.counting k cnt) = some pc') (hp : passes pc' = some (cnt', n')) :
    n' + ahead t pc' + cnt = ahead t (.counting k cnt) + cnt' := by
  simp only [look] at h
  split at h
  · -- Slot k joins the slots seen, and the count if it is occupied
    rename_i hk
    rw [← Option.some.inj h] at hp ⊢
    obtain ⟨rfl, rfl⟩ := Prod.mk.inj (Option.some.inj hp)
    show 0 + ((Fin.below maxEvents (k + 1)).filter t.Occupied).card + cnt =
      ((Fin.below maxEvents k).filter t.Occupied).card + _
    rw [Fin.card_below_succ t.Occupied hk]
    split <;> omega
  · -- At the end of the table the slots seen are all slots
    rename_i hk
    rw [← Option.some.inj h] at hp ⊢
    obtain ⟨rfl, rfl⟩ := Prod.mk.inj (Option.some.inj hp)
    show 0 + (Finset.univ.filter t.Occupied).card + cnt =
      ((Fin.below maxEvents k).filter t.Occupied).card + cnt
    rw [Fin.below_of_le (Nat.le_of_not_lt hk)]
    omega

/-- A look of the filling pass makes an occupied slot ahead an entry that is begun. -/
private theorem look_filling {t : Table} {k cnt cnt' n' : Nat} {node : List JQUserNode}
    {pc' : HandlerPc} (h : look t (.filling cnt k node) = some pc')
    (hp : passes pc' = some (cnt', n')) :
    n' + ahead t pc' + cnt = node.length + ahead t (.filling cnt k node) + cnt' := by
  simp only [look] at h
  split at h
  · rename_i hk
    have hslot := Fin.card_upFrom t.Occupied hk
    split at h
    · -- An occupied slot is no longer ahead, but its entry is begun
      rename_i hocc
      rw [if_pos hocc] at hslot
      rw [← Option.some.inj h] at hp ⊢
      obtain ⟨rfl, rfl⟩ := Prod.mk.inj (Option.some.inj hp)
      show node.length + 1 + ((Fin.upFrom maxEvents (k + 1)).filter t.Occupied).card + cnt =
        node.length + ((Fin.upFrom maxEvents k).filter t.Occupied).card + cnt
      omega
    · -- A free slot is passed over
      rename_i hocc
      rw [if_neg hocc] at hslot
      rw [← Option.some.inj h] at hp ⊢
      obtain ⟨rfl, rfl⟩ := Prod.mk.inj (Option.some.inj hp)
      show node.length + ((Fin.upFrom maxEvents (k + 1)).filter t.Occupied).card + cnt =
        node.length + ((Fin.upFrom maxEvents k).filter t.Occupied).card + cnt
      omega
  · -- At the end of the table nothing is ahead
    rename_i hk
    rw [← Option.some.inj h] at hp ⊢
    obtain ⟨rfl, rfl⟩ := Prod.mk.inj (Option.some.inj hp)
    show node.length + 0 + cnt =
      node.length + ((Fin.upFrom maxEvents k).filter t.Occupied).card + cnt
    rw [Fin.upFrom_of_le (Nat.le_of_not_lt hk)]
    rfl

/-- A copy of a field changes nothing; after the last one the entry is in the list. -/
private theorem look_copying_passes {t : Table} {kind : ReplyKind} {i : Fin maxEvents}
    {done : List FieldCopy} {todo : List SlotField} {pc' : HandlerPc} {cnt' n' : Nat}
    (h : look t (.copying kind i done todo) = some pc') (hp : passes pc' = some (cnt', n')) :
    ∃ cnt n, passes (.copying kind i done todo) = some (cnt, n) ∧
      n' + ahead t pc' + cnt = n + ahead t (.copying kind i done todo) + cnt' := by
  cases todo with
  | cons f todo =>
    rw [← Option.some.inj h] at hp ⊢
    cases kind with
    | getAllUser cnt node =>
      obtain ⟨rfl, rfl⟩ := Prod.mk.inj (Option.some.inj hp)
      exact ⟨cnt, node.length + 1, rfl, rfl⟩
    | handshake => exact absurd hp.symm (Option.some_ne_none _)
    | getRemote => exact absurd hp.symm (Option.some_ne_none _)
  | nil =>
    obtain ⟨cnt, node, n, rfl, rfl⟩ := passes_copied h hp
    obtain ⟨rfl, rfl⟩ := Prod.mk.inj (Option.some.inj hp)
    refine ⟨cnt, node.length + 1, rfl, ?_⟩
    rw [List.length_append]
    rfl

/-- A step of the handler itself keeps entries begun and slots ahead in balance. -/
theorem look_passes {t : Table} {pc pc' : HandlerPc} {cnt' n' : Nat}
    (h : look t pc = some pc') (hp : passes pc' = some (cnt', n')) :
    pc' = .counting 0 0 ∨ ∃ cnt n, passes pc = some (cnt, n) ∧
      n' + ahead t pc' + cnt = n + ahead t pc + cnt' := by
  cases pc with
  | idle => exact absurd h.symm (Option.some_ne_none _)
  | sendUI => exact absurd h.symm (Option.some_ne_none _)
  | sendUIPasswd => exact absurd h.symm (Option.some_ne_none _)
  | replied => exact absurd h.symm (Option.some_ne_none _)
  | searchingFd arg k =>
    -- Only the `switch` leads into the passes, to their start
    left
    simp only [look] at h
    split at h
    · split at h
      · exact passes_dispatch h hp
      · rw [← Option.some.inj h] at hp
        exact absurd hp.symm (Option.some_ne_none _)
    · exact passes_dispatch h hp
  | searchingUsrHashId u k =>
    -- GETREMOTE never gets there
    exfalso
    simp only [look] at h
    split at h
    · split at h
      all_goals
        rw [← Option.some.inj h] at hp
        exact absurd hp.symm (Option.some_ne_none _)
    · rw [← Option.some.inj h] at hp
      exact absurd hp.symm (Option.some_ne_none _)
  | counting k cnt =>
    right
    refine ⟨cnt, 0, rfl, ?_⟩
    rw [look_counting h hp]
    omega
  | allocating cnt =>
    -- The window turns from all slots seen to all slots to come
    right
    refine ⟨cnt, 0, rfl, ?_⟩
    rw [← Option.some.inj h] at hp ⊢
    obtain ⟨rfl, rfl⟩ := Prod.mk.inj (Option.some.inj hp)
    show 0 + ((Fin.upFrom maxEvents 0).filter t.Occupied).card + cnt =
      0 + (Finset.univ.filter t.Occupied).card + cnt
    rw [Fin.upFrom_zero]
  | filling cnt k node => exact .inr ⟨cnt, node.length, rfl, look_filling h hp⟩
  | copying kind i done todo => exact .inr (look_copying_passes h hp)

/-- The entries begun, the occupied slots ahead and the slots freed are the entries counted
    and the slots occupied. -/
def Balance (p : SharedTable × Drift) : Prop :=
  ∀ w cnt n, passes (p.1.handlers w) = some (cnt, n) →
    n + ahead p.1.table (p.1.handlers w) + p.2.vanished w = cnt + p.2.appeared w

/-- A handler that does not start its first pass counts the changes. -/
private theorem tally_of_ne {pc pc' : HandlerPc} {n : Nat} {changed : Fin maxEvents → Prop}
    [DecidablePred changed] (h : pc' ≠ .counting 0 0) :
    tally pc pc' n changed = n + ((window pc).filter changed).card := by
  unfold tally
  split
  · exact absurd rfl h
  · rfl

/-- A handler that stays where it is keeps its balance whatever the table becomes. -/
private theorem balance_same {d : Drift} {w cnt n : Nat} (hpc : s'.handlers w = s.handlers w)
    (hne : s'.handlers w ≠ .counting 0 0)
    (h : n + ahead s.table (s.handlers w) + d.vanished w = cnt + d.appeared w) :
    n + ahead s'.table (s'.handlers w) + (d.record s a s').vanished w =
      cnt + (d.record s a s').appeared w := by
  have hchange := Finset.card_filter_change (window (s.handlers w)) s.table.Occupied
    s'.table.Occupied
  simp only [Drift.record, tally_of_ne hne]
  rw [hpc]
  unfold ahead at h ⊢
  omega

/-- A handler that steps itself changes no slot. -/
private theorem record_of_table_eq (s' : SharedTable) {d : Drift} {w : Nat}
    (ht : s'.table = s.table) (hne : s'.handlers w ≠ .counting 0 0) :
    (d.record s a s').appeared w = d.appeared w ∧ (d.record s a s').vanished w = d.vanished w := by
  simp only [Drift.record, tally_of_ne hne, ht, not_and_self, and_not_self, Finset.filter_false,
    Finset.card_empty, Nat.add_zero, and_self]

/-- A handler stays where it is, leaves the passes or looks at the table. -/
private theorem step_passes (h : s.step a = some s') (w : Nat) :
    s'.handlers w = s.handlers w ∨ (passes (s'.handlers w) = none ∧ Agrees (s'.handlers w)) ∨
      (a = .handle w ∧ s'.table = s.table ∧
        look s.table (s.handlers w) = some (s'.handlers w)) := by
  cases step_handler h w with
  | other _ hsame => exact .inl hsame
  | start _ hpc =>
    rw [hpc]
    split <;> exact .inr (.inl ⟨rfl, trivial⟩)
  | look ha ht hlook => exact .inr (.inr ⟨ha, ht, hlook⟩)
  | sendUI _ _ hpc =>
    rw [hpc]
    exact .inr (.inl ⟨rfl, trivial⟩)
  | sendUIPasswd _ _ hpc =>
    rw [hpc]
    exact .inr (.inl ⟨rfl, trivial⟩)

/-- Every step keeps the balance. -/
theorem Balance.step {p p' : SharedTable × Drift} (hb : Balance p)
    (h : drifting.step p a = some p') : Balance p' := by
  obtain ⟨hs, hd⟩ := Transition.System.withHistory_step h
  intro w cnt n hp
  rw [hd]
  by_cases hzero : p'.1.handlers w = .counting 0 0
  · rw [hzero] at hp ⊢
    obtain ⟨rfl, rfl⟩ := Prod.mk.inj (Option.some.inj hp)
    have hempty : ahead p'.1.table (.counting 0 0) = 0 := by
      show ((Fin.below maxEvents 0).filter p'.1.table.Occupied).card = 0
      rw [Fin.below_zero]
      rfl
    simp only [hempty, Drift.record, hzero, tally]
  -- A handler is left alone, leaves its passes, or looks at the table as it is
  · rcases step_passes hs w with hsame | ⟨hnone, -⟩ | ⟨-, ht, hlook⟩
    · rw [hsame] at hp
      exact balance_same hsame hzero (hb w cnt n hp)
    · rw [hnone] at hp
      exact absurd hp.symm (Option.some_ne_none _)
    · obtain ⟨happ, hvan⟩ := record_of_table_eq p'.1 (d := p.2) (a := a) ht hzero
      rcases look_passes hlook hp with h0 | ⟨cnt0, n0, hp0, hahead⟩
      · exact absurd h0 hzero
      · have hbal := hb w cnt0 n0 hp0
        rw [happ, hvan, ht]
        omega

/-- Every handler is in balance in every state reached. -/
theorem balance_of_reach {C : SharedTable × Drift → Action → Prop} {p : SharedTable × Drift}
    (h : Transition.Reach drifting C p) : Balance p := by
  refine h.invariant ?_ fun p a p' _ hb _ hs => hb.step hs
  rintro p ⟨⟨table, hinit⟩, -⟩ w cnt n hp
  rw [hinit] at hp
  exact absurd hp.symm (Option.some_ne_none _)

/-! ### The passes -/

/-- The `switch` leads to no entry and to no list. -/
private theorem agrees_dispatch {arg : JobParameter} {i : Option (Fin maxEvents)}
    {pc : HandlerPc} (h : dispatch arg i = some pc) : Agrees pc := by
  unfold dispatch at h
  split at h
  case h_3 => exact absurd h.symm (Option.some_ne_none _)
  all_goals
    rw [← Option.some.inj h]
    trivial

/-- Neither does a slot that is copied. -/
private theorem agrees_copied {i : Fin maxEvents} {kind : ReplyKind} {done : List FieldCopy}
    {pc : HandlerPc} (h : copied i kind done = some pc) : Agrees pc := by
  unfold copied at h
  split at h
  case h_4 => exact absurd h.symm (Option.some_ne_none _)
  all_goals
    rw [← Option.some.inj h]
    trivial

/-- The passes of a handler that are in balance go on to agree just when its step meets the
    condition. -/
theorem agrees_look_iff {p : SharedTable × Drift} {w : Nat} {pc' : HandlerPc} (hb : Balance p)
    (hpc : Agrees (p.1.handlers w)) (h : look p.1.table (p.1.handlers w) = some pc') :
    Agrees pc' ↔ LookBalanced p.1.table (p.2.appeared w) (p.2.vanished w) (p.1.handlers w) := by
  have hbal := hb w
  generalize p.1.handlers w = pc at hbal hpc h
  cases pc with
  | idle => exact absurd h.symm (Option.some_ne_none _)
  | sendUI => exact absurd h.symm (Option.some_ne_none _)
  | sendUIPasswd => exact absurd h.symm (Option.some_ne_none _)
  | replied => exact absurd h.symm (Option.some_ne_none _)
  | allocating cnt =>
    rw [← Option.some.inj h]
    exact Iff.rfl
  | searchingFd arg k =>
    refine iff_of_true ?_ trivial
    simp only [look] at h
    split at h
    · split at h
      · exact agrees_dispatch h
      · rw [← Option.some.inj h]
        trivial
    · exact agrees_dispatch h
  | searchingUsrHashId u k =>
    refine iff_of_true ?_ trivial
    simp only [look] at h
    split at h
    · split at h
      all_goals
        rw [← Option.some.inj h]
        trivial
    · rw [← Option.some.inj h]
      trivial
  | counting k cnt =>
    refine iff_of_true ?_ trivial
    simp only [look] at h
    split at h
    all_goals
      rw [← Option.some.inj h]
      trivial
  | copying kind i done todo =>
    refine iff_of_true ?_ trivial
    cases todo with
    | nil => exact agrees_copied h
    | cons f todo =>
      rw [← Option.some.inj h]
      cases kind <;> exact hpc
  | filling cnt k node =>
    have hadd := hbal cnt node.length rfl
    simp only [look, LookBalanced] at h ⊢
    by_cases hk : k < maxEvents
    · rw [dif_pos hk] at h ⊢
      by_cases hocc : p.1.table.Occupied ⟨k, hk⟩
      · -- An entry is begun: it has a place if not too many slots were occupied
        rw [if_pos hocc] at h
        rw [← Option.some.inj h]
        show node.length < cnt ↔ _
        constructor
        · intro hlt _
          omega
        · intro hlt
          have := hlt hocc
          omega
      · rw [if_neg hocc] at h
        rw [← Option.some.inj h]
        exact iff_of_true trivial fun ho => absurd ho hocc
    · -- The pass is over: no slot is ahead
      rw [dif_neg hk] at h ⊢
      rw [← Option.some.inj h]
      have hahead : ahead p.1.table (.filling cnt k node) = 0 := by
        show ((Fin.upFrom maxEvents k).filter p.1.table.Occupied).card = 0
        rw [Fin.upFrom_of_le (Nat.le_of_not_lt hk)]
        rfl
      show node.length = cnt ↔ _
      omega

/-- In a run in which, whenever the second pass begins an entry, fewer slots were occupied
    since the first pass than were freed or are ahead, and as many were occupied as freed when
    it ends, the passes agree. -/
theorem passes_agree {p : SharedTable × Drift} (h : Transition.Reach drifting Balanced p) :
    PassesAgree p.1 := by
  refine h.invariant (I := fun p => PassesAgree p.1) ?_ ?_
  · rintro p ⟨⟨table, hinit⟩, -⟩ w
    rw [hinit]
    trivial
  · intro p a p' hr hagree hc hstep w
    have hs := (Transition.System.withHistory_step hstep).1
    rcases step_passes hs w with hsame | ⟨-, hagrees⟩ | ⟨rfl, -, hlook⟩
    · rw [hsame]
      exact hagree w
    · exact hagrees
    · exact (agrees_look_iff (balance_of_reach hr) (hagree w) hlook).mpr (hc w rfl)

/-- The condition is exact: a step after which the passes still agree meets it. -/
theorem balanced_of_passesAgree {p p' : SharedTable × Drift}
    (h : Transition.Reachable drifting p) (hp : PassesAgree p.1)
    (hs : drifting.step p a = some p') (hp' : PassesAgree p'.1) : Balanced p a := by
  rintro w rfl
  cases hlook : look p.1.table (p.1.handlers w) with
  | some pc' =>
    have hstep := (Transition.System.withHistory_step hs).1
    have hto : p.1.setHandler w pc' = p'.1 :=
      Option.some.inj ((handleStep_of_look hlook).symm.trans hstep)
    have hpc : p'.1.handlers w = pc' := by
      rw [← hto]
      exact Function.update_self ..
    exact (agrees_look_iff (balance_of_reach h) (hp w) hlook).mp (hpc ▸ hp' w)
  -- A handler that cannot look is not in its second pass
  | none =>
    generalize p.1.handlers w = pc at hlook
    cases pc with
    | filling cnt k node =>
      simp only [look] at hlook
      split at hlook
      · split at hlook
        all_goals exact absurd hlook (Option.some_ne_none _)
      · exact absurd hlook (Option.some_ne_none _)
    | _ => trivial

/-! ### Runs -/

/-- While nothing is occupied or freed, every look meets the condition. -/
private theorem lookBalanced_zero (t : Table) (pc : HandlerPc) : LookBalanced t 0 0 pc := by
  cases pc with
  | filling cnt k node =>
    simp only [LookBalanced]
    split
    · rename_i hk
      intro hocc
      have hslot := Fin.card_upFrom t.Occupied hk
      rw [if_pos hocc] at hslot
      show 0 < 0 + ((Fin.upFrom maxEvents k).filter t.Occupied).card
      omega
    · trivial
  | _ => trivial

/-- A handler that runs alone meets the condition. -/
theorem reach_alone {p : SharedTable × Drift} {w : Nat} {pc : HandlerPc}
    (hr : Transition.Reach drifting Balanced p) (happ : p.2.appeared w = 0)
    (hvan : p.2.vanished w = 0) (h : Alone p.1.table (p.1.handlers w) pc) :
    ∃ p', Transition.Reach drifting Balanced p' ∧ p'.1 = p.1.setHandler w pc ∧
      p'.2.appeared w = 0 ∧ p'.2.vanished w = 0 := by
  induction h with
  | refl =>
    refine ⟨p, hr, ?_, happ, hvan⟩
    rw [setHandler, Function.update_eq_self]
  | @tail b c _ hlook ih =>
    obtain ⟨q, hq, hstate, happ', hvan'⟩ := ih
    have hb : q.1.handlers w = b := by
      rw [hstate]
      exact Function.update_self ..
    have htable : q.1.table = p.1.table := by
      rw [hstate]
      rfl
    have hs : q.1.step (.handle w) = some (q.1.setHandler w c) := by
      show q.1.handleStep w (q.1.handlers w) = _
      rw [hb]
      exact handleStep_of_look (htable ▸ hlook)
    have hpc : (q.1.setHandler w c).handlers w = c := Function.update_self ..
    refine ⟨(q.1.setHandler w c, q.2.record q.1 (.handle w) (q.1.setHandler w c)),
      .step (a := .handle w) hq ?_ ?_, ?_, ?_⟩
    -- No slot has been occupied or freed since the first pass
    · rintro v ⟨⟩
      rw [happ', hvan']
      exact lookBalanced_zero _ _
    · exact Option.map_eq_some_iff.mpr ⟨_, hs, rfl⟩
    · rw [hstate]
      simp only [setHandler, Function.update_idem]
    · by_cases hzero : c = .counting 0 0
      · subst hzero
        simp only [Drift.record, hpc, tally, and_self]
      · have hrec := record_of_table_eq (s := q.1) (q.1.setHandler w c)
          (a := .handle w) (d := q.2) (w := w) rfl (by rw [hpc]; exact hzero)
        rw [hrec.1, hrec.2]
        exact ⟨happ', hvan'⟩

/-- GETALLUSER, received from the client with descriptor 5. -/
def getAllUserJob : JobParameter := .received Packet.getAllUser.bytes 5 0

/-- The threads on a table with one user, worker 0 having taken that job. -/
def oneUserStart : SharedTable := (start oneUserTable).setHandler 0 (.searchingFd getAllUserJob 0)

/-- The handler of the job gets to its first pass. -/
private theorem alone_oneUserStart :
    Alone oneUserTable (.searchingFd getAllUserJob 0) (.counting 0 0) := by
  apply alone_searchingFd
  have hcmd : Command.ofBuffer getAllUserJob.recvBuffer = .getAllUser :=
    Packet.getAllUser.ofBuffer_bytes
  simp only [dispatch, hcmd]

/-- It counts one user. -/
private theorem getAllUsersCount_oneUserTable : oneUserTable.getAllUsersCount = 1 := by
  rw [← Table.length_nodes, nodes_oneUserTable, List.length_singleton]

/-- With one user and no change the reply has one entry. -/
theorem passes_agree_one :
    ∃ p : SharedTable × Drift, (∃ node, p.1.handlers 0 = .replied (.getAllUserAck 1 node)) ∧
      PassesAgree p.1 := by
  let d : Drift := { appeared := fun _ => 0, vanished := fun _ => 0 }
  have hs : drifting.step (start oneUserTable, d) (.start 0 getAllUserJob) =
      some (oneUserStart,
        d.record (start oneUserTable) (.start 0 getAllUserJob) oneUserStart) := rfl
  have hinit : drifting.init (start oneUserTable, d) := ⟨⟨oneUserTable, rfl⟩, rfl⟩
  have hr := Transition.Reach.step (C := Balanced) (.init hinit) (by rintro v ⟨⟩) hs
  have halone := alone_oneUserStart.trans (alone_getAllUser.trans (alone_allocating _))
  rw [getAllUsersCount_oneUserTable] at halone
  obtain ⟨p, hp, hstate, -⟩ := reach_alone (w := 0) hr rfl rfl halone
  have hpc : p.1.handlers 0 = .replied (.getAllUserAck 1
      ((List.finRange maxEvents).filterMap oneUserTable.getAllUsersNode)) := by
    rw [hstate]
    exact Function.update_self 0 _ oneUserStart.handlers
  exact ⟨p, ⟨_, hpc⟩, passes_agree hp⟩

/-- A client connects between the passes, and the second one writes past the allocation. -/
def connectBetween : List Action :=
  [.accept { fd := 6, addr := .ofBytes _ (CString.ascii "10.0.0.2"), port := 4001 },
    .search, .search, .initSlot 120, .fill, .fill, .fill, .fill, .fill, .fill, .unlock,
    .handle 0, .handle 0, .handle 0, .handle 0, .handle 0, .handle 0, .handle 0, .handle 0,
    .handle 0]

/-- The passes do not agree in every run. -/
theorem passes_agree_fails : ¬ ∀ s, Transition.Reachable system s → PassesAgree s := by
  intro hall
  have hr : Transition.Reachable system oneUserStart :=
    .step (a := .start 0 getAllUserJob) (.init ⟨oneUserTable, rfl⟩) trivial rfl
  have hcount : ∃ n, system.run oneUserStart (List.replicate n (.handle 0)) =
      some (oneUserStart.setHandler 0 (.allocating 1)) := by
    refine Alone.run (s := oneUserStart) ?_
    rw [← getAllUsersCount_oneUserTable]
    exact alone_oneUserStart.trans alone_getAllUser
  obtain ⟨n, hn⟩ := hcount
  have hfill : ∃ s node done todo,
      system.run (oneUserStart.setHandler 0 (.allocating 1)) connectBetween = some s ∧
      s.handlers 0 = .copying (.getAllUser 1 [node]) 1 done todo :=
    ⟨_, _, _, _, rfl, rfl⟩
  obtain ⟨s, node, done, todo, hs, hpc⟩ := hfill
  have hreach := (hr.run (system.meets_of_mem (fun _ _ _ => trivial) _) hn).run
    (system.meets_of_mem (fun _ _ _ => trivial) _) hs
  -- The entry of slot 1 is the second of one
  have hlt : Agrees (s.handlers 0) := hall s hreach 0
  rw [hpc] at hlt
  exact Nat.lt_irrefl 1 hlt

end SharedTable

end JQServer
