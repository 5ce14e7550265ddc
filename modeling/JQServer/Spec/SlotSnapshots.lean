import JQServer.Native.ClientPackets
import JQServer.Spec.SharedMoves
import JQServer.Spec.UserList

/-!
# Copies of a slot

A handler copies the fields of a slot for a reply one by one, and CMD_SENDUI stores the
user id and the password one after the other. `Trail` records the states of the run and, for
each handler, its last copy of which the slot still held all that was copied before and held
it for one connection. If each later copy is as it would have been then, the reply is a
snapshot of the slot in that state.
-/

namespace JQServer

namespace SharedTable

variable {s s' : SharedTable} {a : Action}

/-- The fields of slot `i` are those of the connection with its address; a user id or a
    password may also be empty. -/
def OneConnection (s : SharedTable) (i : Fin maxEvents) (fields : List SlotField) : Prop :=
  ∀ f ∈ fields, f = .now ∨ s.writer i f = s.writer i .clientIpAddr ∨ f.copy (s.table i) = .str []

/-- Slot `i` holds what was copied of it for a reply, and for one connection. The time is no
    matter. -/
def Snapshot (s : SharedTable) (kind : ReplyKind) (i : Fin maxEvents) (done : List FieldCopy) :
    Prop :=
  (∀ x ∈ done, x.1 = .now ∨ x.1.copy (s.table i) = x.2) ∧ s.OneConnection i kind.fields

instance (s : SharedTable) (i : Fin maxEvents) (fields : List SlotField) :
    Decidable (s.OneConnection i fields) :=
  inferInstanceAs (Decidable (∀ f ∈ fields, _))

instance (s : SharedTable) (kind : ReplyKind) (i : Fin maxEvents) (done : List FieldCopy) :
    Decidable (s.Snapshot kind i done) :=
  inferInstanceAs (Decidable (_ ∧ _))

/-- A handler is between the two copies of a SENDUI for slot `i`. -/
def HandlerPc.Storing (i : Fin maxEvents) : HandlerPc → Prop
  | .sendUIPasswd _ j _ => i = j
  | _ => False

/-- The record of a run. -/
structure Trail where
  /-- The table at the start. -/
  initial : Table
  /-- The states of the run. -/
  past : List SharedTable
  /-- The state of a handler's last copy that had a snapshot of the slot. -/
  view : Nat → Option SharedTable
  /-- The SENDUI messages stored in a slot. -/
  stored : Fin maxEvents → List SendUIMessage

/-- The copies of a handler whose state is looked at for its next step. -/
def viewAfter (s : SharedTable) (view : Option SharedTable) : HandlerPc → Option SharedTable
  | .copying kind i done (f :: _) =>
    if f ≠ .now ∧ s.Snapshot kind i done then some s else view
  | _ => none

/-- The messages stored after the next step of a handler. -/
def storedAfter (stored : Fin maxEvents → List SendUIMessage) :
    HandlerPc → Fin maxEvents → List SendUIMessage
  | .sendUIPasswd _ i msg => Function.update stored i (msg :: stored i)
  | _ => stored

/-- One more step of the run. -/
def Trail.record (t : Trail) (s : SharedTable) (a : Action) (s' : SharedTable) : Trail :=
  match a with
  | .handle w => { t with
      past := s' :: t.past
      view := Function.update t.view w (s.viewAfter (t.view w) (s.handlers w))
      stored := storedAfter t.stored (s.handlers w) }
  | _ => { t with past := s' :: t.past }

/-- The threads with that record. -/
def recorded : Transition.System (SharedTable × Trail) Action :=
  system.withHistory
    (fun s => { initial := s.table, past := [s], view := fun _ => none, stored := fun _ => [] })
    Trail.record

/-- What was copied of a slot for a reply was in the slot in one state of the run, for one
    connection. -/
def CopiesWhole (p : SharedTable × Trail) : Prop :=
  ∀ w kind i done, p.1.handlers w = .copying kind i done [] →
    ∃ s ∈ p.2.past, s.Snapshot kind i done

/-- The user id and the password of a slot are of one SENDUI, or were there at the start,
    when no handler is between storing one and the other. -/
def LoginsWhole (p : SharedTable × Trail) : Prop :=
  ∀ i, (∀ w, ¬ (p.1.handlers w).Storing i) →
    ((p.1.table i).usrhashId = (p.2.initial i).usrhashId ∧
      (p.1.table i).passwd = (p.2.initial i).passwd) ∨
    ∃ msg ∈ p.2.stored i, (p.1.table i).usrhashId = .strncpy 10 msg.userId.bytes ∧
      (p.1.table i).passwd = .strncpy 7 msg.passwd.bytes

/-- The condition on the next step of handler `w`. A field is copied from a slot that still
    holds what was copied before, for one connection, or is as it was at the last copy of
    which that is true. The password of a SENDUI that is the last one between its copies is
    stored where the user id is still its own, or that of another SENDUI with the password. -/
def StepWhole (p : SharedTable × Trail) (w : Nat) : HandlerPc → Prop
  | .copying kind i done (f :: _) =>
    f = .now ∨ p.1.Snapshot kind i done ∨
      ∃ s, p.2.view w = some s ∧ f.copy (s.table i) = f.copy (p.1.table i)
  | .sendUIPasswd _ i msg =>
    (∀ v ≠ w, ¬ (p.1.handlers v).Storing i) →
      ∃ m, (m = msg ∨ m ∈ p.2.stored i) ∧
        CharArray.strncpy 7 m.passwd.bytes = CharArray.strncpy 7 msg.passwd.bytes ∧
        (p.1.table i).usrhashId = .strncpy 10 m.userId.bytes
  | _ => True

/-- The condition on a step. -/
def Undisturbed (p : SharedTable × Trail) (a : Action) : Prop :=
  ∀ w, a = .handle w → StepWhole p w (p.1.handlers w)

/-! ### Copies -/

/-- A handler that copies a slot has copied a field, or has just found the slot. -/
private theorem look_copying {t : Table} {pc : HandlerPc} {kind : ReplyKind} {i : Fin maxEvents}
    {done : List FieldCopy} {todo : List SlotField}
    (h : look t pc = some (.copying kind i done todo)) :
    (∃ f done', pc = .copying kind i done' (f :: todo) ∧ done = done' ++ [(f, f.copy (t i))]) ∨
      (done = [] ∧ todo = kind.fields ∧ ∀ s view, viewAfter s view pc = none) := by
  -- The `switch` leads to a copy for HANDSHAKE only
  have hdispatch : ∀ {arg j}, dispatch arg j = some (.copying kind i done todo) →
      done = [] ∧ todo = kind.fields := by
    intro arg j hd
    unfold dispatch at hd
    split at hd
    case h_2 => cases hd; exact ⟨rfl, rfl⟩
    all_goals cases hd
  cases pc with
  | idle => cases h
  | sendUI => cases h
  | sendUIPasswd => cases h
  | replied => cases h
  | allocating => cases h
  | searchingFd arg k =>
    right
    simp only [look] at h
    split at h
    · split at h
      · exact ⟨(hdispatch h).1, (hdispatch h).2, fun _ _ => rfl⟩
      · cases h
    · exact ⟨(hdispatch h).1, (hdispatch h).2, fun _ _ => rfl⟩
  | searchingUsrHashId u k =>
    right
    simp only [look] at h
    split at h
    · split at h
      · cases h
        exact ⟨rfl, rfl, fun _ _ => rfl⟩
      · cases h
    · cases h
  | counting k cnt =>
    simp only [look] at h
    split at h <;> cases h
  | filling cnt k node =>
    right
    simp only [look] at h
    split at h
    · split at h
      · cases h
        exact ⟨rfl, rfl, fun _ _ => rfl⟩
      · cases h
    · cases h
  | copying kind' i' done' todo' =>
    cases todo' with
    | nil =>
      -- A complete copy is left
      simp only [look, copied] at h
      split at h <;> cases h
    | cons f todo' =>
      left
      cases h
      exact ⟨f, done', rfl, rfl⟩

/-- What the record says about a handler that copies a slot. -/
structure ViewInv (t : Trail) (view : Option SharedTable) (kind : ReplyKind) (i : Fin maxEvents)
    (done : List FieldCopy) (todo : List SlotField) : Prop where
  /-- The fields are copied in order. -/
  fields : done.map Prod.fst ++ todo = kind.fields
  /-- The view is a snapshot of the slot. -/
  snapshot : ∀ s, view = some s → s ∈ t.past ∧ s.Snapshot kind i done
  /-- There is one after the first copy. -/
  exists_view : (∀ x ∈ done, x.1 = .now) ∨ ∃ s, view = some s

section

variable {t t' : Trail} {view : Option SharedTable} {kind : ReplyKind} {i : Fin maxEvents}
  {done : List FieldCopy} {f : SlotField} {todo : List SlotField}

/-- The run goes on. -/
theorem ViewInv.mono (h : ViewInv t view kind i done todo) (hpast : ∀ s ∈ t.past, s ∈ t'.past) :
    ViewInv t' view kind i done todo :=
  ⟨h.fields, fun s hs => ⟨hpast s (h.snapshot s hs).1, (h.snapshot s hs).2⟩, h.exists_view⟩

/-- A handler that has just found the slot has no view. -/
theorem ViewInv.start : ViewInv t none kind i [] kind.fields :=
  ⟨rfl, fun s hs => absurd hs.symm (Option.some_ne_none s), .inl (by simp)⟩

/-- A snapshot of what was copied before is one of the next copy too, if that is as it was. -/
private theorem Snapshot.copy (h : s.Snapshot kind i done)
    (hf : f = .now ∨ f.copy (s.table i) = f.copy (s'.table i)) :
    s.Snapshot kind i (done ++ [(f, f.copy (s'.table i))]) := by
  refine ⟨fun x hx => ?_, h.2⟩
  rcases List.mem_append.mp hx with hx | hx
  · exact h.1 x hx
  · rw [List.mem_singleton.mp hx]
    exact hf

/-- The next copy, under the condition on it. -/
theorem ViewInv.copy (h : ViewInv t view kind i done (f :: todo)) (hs : s ∈ t.past)
    (hc : f = .now ∨ s.Snapshot kind i done ∨
      ∃ s', view = some s' ∧ f.copy (s'.table i) = f.copy (s.table i)) :
    ViewInv t (s.viewAfter view (.copying kind i done (f :: todo))) kind i
      (done ++ [(f, f.copy (s.table i))]) todo := by
  have hfields : (done ++ [(f, f.copy (s.table i))]).map Prod.fst ++ todo = kind.fields := by
    rw [List.map_append, List.append_assoc]
    exact h.fields
  by_cases hsnap : f ≠ .now ∧ s.Snapshot kind i done
  · -- The slot still holds what was copied: this state is the view
    have hview : s.viewAfter view (.copying kind i done (f :: todo)) = some s := if_pos hsnap
    rw [hview]
    refine ⟨hfields, fun s' hs' => ?_, .inr ⟨s, rfl⟩⟩
    rw [← Option.some.inj hs']
    exact ⟨hs, hsnap.2.copy (.inr rfl)⟩
  · have hview : s.viewAfter view (.copying kind i done (f :: todo)) = view := if_neg hsnap
    rw [hview]
    by_cases hnow : f = .now
    · -- The time is no matter
      refine ⟨hfields, fun s' hs' => ?_, ?_⟩
      · exact ⟨(h.snapshot s' hs').1, (h.snapshot s' hs').2.copy (.inl hnow)⟩
      · refine h.exists_view.imp_left fun hall x hx => ?_
        rcases List.mem_append.mp hx with hx | hx
        · exact hall x hx
        · rw [List.mem_singleton.mp hx]
          exact hnow
    · -- The field is as it was in the view
      obtain ⟨s', hview', hsame⟩ : ∃ s', view = some s' ∧
          f.copy (s'.table i) = f.copy (s.table i) := by
        rcases hc with hc | hc | hc
        · exact absurd hc hnow
        · exact absurd ⟨hnow, hc⟩ hsnap
        · exact hc
      refine ⟨hfields, fun u hu => ?_, .inr ⟨s', hview'⟩⟩
      obtain rfl := Option.some.inj (hview'.symm.trans hu)
      exact ⟨(h.snapshot s' hu).1, (h.snapshot s' hu).2.copy (.inr hsame)⟩

/-- A complete copy has a view. -/
theorem ViewInv.complete (h : ViewInv t view kind i done []) :
    ∃ s ∈ t.past, s.Snapshot kind i done := by
  rcases h.exists_view with hnow | ⟨s, hs⟩
  · -- Every reply copies more than the time
    have hfields := h.fields
    rw [List.append_nil] at hfields
    have hall : ∀ f ∈ kind.fields, f = SlotField.now := by
      intro f hf
      rw [← hfields] at hf
      obtain ⟨x, hx, rfl⟩ := List.mem_map.mp hf
      exact hnow x hx
    have haddr : SlotField.clientIpAddr ∈ kind.fields := by
      cases kind <;> simp [ReplyKind.fields]
    exact absurd (hall _ haddr) (by simp)
  · exact ⟨s, h.snapshot s hs⟩

end

/-- The invariant of the copies. -/
structure CopyInv (p : SharedTable × Trail) : Prop where
  /-- The record has the state. -/
  current : p.1 ∈ p.2.past
  /-- It has a view of every slot that is copied. -/
  view : ∀ w kind i done todo, p.1.handlers w = .copying kind i done todo →
    ViewInv p.2 (p.2.view w) kind i done todo

/-- The record keeps the states of the run. -/
private theorem past_record (t : Trail) (s : SharedTable) (a : Action) (s' : SharedTable) :
    (t.record s a s').past = s' :: t.past := by
  cases a <;> rfl

/-- The view of a handler that does not step stays. -/
private theorem view_record_of_ne {t : Trail} {w : Nat} (ha : a ≠ .handle w) :
    (t.record s a s').view w = t.view w := by
  cases a with
  | handle v => exact Function.update_of_ne (fun hw => ha (congrArg Action.handle hw.symm)) ..
  | _ => rfl

/-- A step under the condition keeps the invariant of the copies. -/
theorem CopyInv.step {p p' : SharedTable × Trail} (h : CopyInv p) (hc : Undisturbed p a)
    (hs : recorded.step p a = some p') : CopyInv p' := by
  obtain ⟨hstep, hrec⟩ := Transition.System.withHistory_step hs
  -- Views stay in the past: it only grows
  have hpast : ∀ s ∈ p.2.past, s ∈ p'.2.past := by
    intro s hmem
    rw [hrec, past_record]
    exact List.mem_cons_of_mem _ hmem
  refine ⟨?_, fun w kind i done todo hpc => ?_⟩
  · rw [hrec, past_record]
    exact List.mem_cons_self
  · cases step_handler hstep w with
    | other ha hsame =>
      have hview : p'.2.view w = p.2.view w := by
        rw [hrec]
        exact view_record_of_ne ha
      rw [hview]
      exact (h.view w kind i done todo (hsame ▸ hpc)).mono hpast
    | @start arg _ hpc' =>
      rw [hpc'] at hpc
      split at hpc <;> cases hpc
    | sendUI _ _ hpc' =>
      rw [hpc'] at hpc
      cases hpc
    | sendUIPasswd _ _ hpc' =>
      rw [hpc'] at hpc
      cases hpc
    | look ha _ hlook =>
      subst ha
      have hview : p'.2.view w = p.1.viewAfter (p.2.view w) (p.1.handlers w) := by
        rw [hrec]
        exact Function.update_self ..
      rw [hpc] at hlook
      rw [hview]
      rcases look_copying hlook with ⟨f, done', hpc', rfl⟩ | ⟨rfl, rfl, hnone⟩
      · -- It has copied one more field, under the condition
        have hcopy := hc w rfl
        rw [hpc'] at hcopy ⊢
        exact ((h.view w kind i done' (f :: todo) hpc').copy h.current hcopy).mono hpast
      · rw [hnone]
        exact .start

/-! ### Logins -/

/-- The accept thread and the event loop write to neither the user id nor the password. -/
private theorem write_login (s : SharedTable) (i j : Fin maxEvents) (x : SlotWrite) :
    ((s.write i x).table j).usrhashId = (s.table j).usrhashId ∧
      ((s.write i x).table j).passwd = (s.table j).passwd := by
  by_cases hj : j = i
  · subst hj
    simp only [write, Function.update_self]
    cases x <;> exact ⟨rfl, rfl⟩
  · simp only [write, Function.update_of_ne hj]
    exact ⟨trivial, trivial⟩

/-- Neither does `update_time_by_index`. -/
private theorem updateTime_login (t : Table) (i j : Fin maxEvents) (now : Int) :
    (t.updateTimeByIndex i now j).usrhashId = (t j).usrhashId ∧
      (t.updateTimeByIndex i now j).passwd = (t j).passwd := by
  by_cases hj : j = i
  · subst hj
    simp only [Table.updateTimeByIndex, Function.update_self]
    exact ⟨trivial, trivial⟩
  · simp only [Table.updateTimeByIndex, Function.update_of_ne hj]
    exact ⟨trivial, trivial⟩

/-- A handler between its copies stays there while another worker steps. -/
private theorem storing_setHandler {v : Nat} {pc : HandlerPc} {w : Nat} {i : Fin maxEvents}
    (hv : ¬ (s.handlers v).Storing i) (h : (s.handlers w).Storing i) :
    ((s.setHandler v pc).handlers w).Storing i := by
  have hw : w ≠ v := fun hw => hv (hw ▸ h)
  show (Function.update s.handlers v pc w).Storing i
  rw [Function.update_of_ne hw]
  exact h

/-- A step stores a user id, stores a password or leaves both. -/
private theorem step_login (h : s.step a = some s') :
    (∃ w conn i msg, a = .handle w ∧ s.handlers w = .sendUI conn i msg ∧
      s' = (s.copyUserId conn i msg).setHandler w (.sendUIPasswd conn i msg)) ∨
    (∃ w conn i msg, a = .handle w ∧ s.handlers w = .sendUIPasswd conn i msg ∧
      s' = (s.copyPasswd conn i msg).setHandler w .idle) ∨
    ((∀ i, (s'.table i).usrhashId = (s.table i).usrhashId ∧
        (s'.table i).passwd = (s.table i).passwd) ∧
      ∀ w i, (s.handlers w).Storing i → (s'.handlers w).Storing i) := by
  cases step_moves h with
  | sendUI hpc => exact .inl ⟨_, _, _, _, rfl, hpc, rfl⟩
  | sendUIPasswd hpc => exact .inr (.inl ⟨_, _, _, _, rfl, hpc, rfl⟩)
  -- The other threads
  | accept => exact .inr (.inr ⟨fun i => ⟨rfl, rfl⟩, fun w i hst => hst⟩)
  | loop => exact .inr (.inr ⟨fun i => ⟨rfl, rfl⟩, fun w i hst => hst⟩)
  | freeWrite => exact .inr (.inr ⟨fun j => write_login s _ j _, fun w i hst => hst⟩)
  | @fill c i x =>
    refine .inr (.inr ⟨fun j => ?_, fun w j hst => ?_⟩)
    · show ((s.fillWrite c i x).table j).usrhashId = _ ∧ ((s.fillWrite c i x).table j).passwd = _
      rw [fillWrite_table]
      exact write_login s i j x
    · show ((s.fillWrite c i x).handlers w).Storing j
      rw [fillWrite_handlers]
      exact hst
  | updateTime i now =>
    exact .inr (.inr ⟨fun j => updateTime_login s.table i j now, fun w j hst => hst⟩)
  -- A worker that is not between its copies
  | @start v arg hpc =>
    refine .inr (.inr ⟨fun i => ⟨rfl, rfl⟩, fun w i => storing_setHandler fun hst => ?_⟩)
    rcases hpc with hpc | ⟨reply, hpc⟩
    · rw [hpc] at hst
      exact hst.elim
    · rw [hpc] at hst
      exact hst.elim
  | @look v pc hlook =>
    refine .inr (.inr ⟨fun i => ⟨rfl, rfl⟩, fun w i => storing_setHandler fun hst => ?_⟩)
    cases hpc : s.handlers v with
    | sendUIPasswd =>
      rw [hpc] at hlook
      cases hlook
    | _ =>
      rw [hpc] at hst
      exact hst.elim

/-- The record keeps the messages. -/
private theorem stored_mono {t : Trail} {i : Fin maxEvents} {m : SendUIMessage}
    (h : m ∈ t.stored i) : m ∈ (t.record s a s').stored i := by
  cases a with
  | handle w =>
    show m ∈ storedAfter t.stored (s.handlers w) i
    cases s.handlers w with
    | sendUIPasswd conn j msg =>
      show m ∈ Function.update t.stored j (msg :: t.stored j) i
      by_cases hj : i = j
      · subst hj
        rw [Function.update_self]
        exact List.mem_cons_of_mem _ h
      · rw [Function.update_of_ne hj]
        exact h
    | _ => exact h
  | _ => exact h

/-- The record keeps the table at the start. -/
private theorem initial_record (t : Trail) (s : SharedTable) (a : Action) (s' : SharedTable) :
    (t.record s a s').initial = t.initial := by
  cases a <;> rfl

/-- What is whole stays whole in a slot whose user id and password stay. -/
private theorem login_mono {t : Trail} {i : Fin maxEvents}
    (hid : (s'.table i).usrhashId = (s.table i).usrhashId)
    (hpw : (s'.table i).passwd = (s.table i).passwd)
    (h : ((s.table i).usrhashId = (t.initial i).usrhashId ∧
        (s.table i).passwd = (t.initial i).passwd) ∨
      ∃ msg ∈ t.stored i, (s.table i).usrhashId = .strncpy 10 msg.userId.bytes ∧
        (s.table i).passwd = .strncpy 7 msg.passwd.bytes) :
    ((s'.table i).usrhashId = ((t.record s a s').initial i).usrhashId ∧
        (s'.table i).passwd = ((t.record s a s').initial i).passwd) ∨
      ∃ msg ∈ (t.record s a s').stored i, (s'.table i).usrhashId = .strncpy 10 msg.userId.bytes ∧
        (s'.table i).passwd = .strncpy 7 msg.passwd.bytes := by
  rw [hid, hpw, initial_record]
  refine h.imp id ?_
  rintro ⟨msg, hmem, hmsg⟩
  exact ⟨msg, stored_mono hmem, hmsg⟩

/-- Whole logins stay whole in a slot that a step of a handler between no copies of it
    leaves as it is. -/
private theorem LoginsWhole.other_slot {p : SharedTable × Trail} {w : Nat} {i : Fin maxEvents}
    (h : LoginsWhole p) (hother : ∀ v ≠ w, s'.handlers v = p.1.handlers v)
    (hw : ¬ (p.1.handlers w).Storing i) (hslot : s'.table i = p.1.table i)
    (hfree : ∀ v, ¬ (s'.handlers v).Storing i) :
    ((s'.table i).usrhashId = ((p.2.record p.1 a s').initial i).usrhashId ∧
        (s'.table i).passwd = ((p.2.record p.1 a s').initial i).passwd) ∨
      ∃ msg ∈ (p.2.record p.1 a s').stored i,
        (s'.table i).usrhashId = .strncpy 10 msg.userId.bytes ∧
        (s'.table i).passwd = .strncpy 7 msg.passwd.bytes := by
  refine login_mono (congrArg _ hslot) (congrArg _ hslot) (h i fun v hv => ?_)
  by_cases hvw : v = w
  · exact hw (hvw ▸ hv)
  · exact hfree v (hother v hvw ▸ hv)

/-- A step under the condition keeps the logins whole. -/
theorem LoginsWhole.step {p p' : SharedTable × Trail} (h : LoginsWhole p)
    (hc : Undisturbed p a) (hs : recorded.step p a = some p') : LoginsWhole p' := by
  obtain ⟨hstep, hrec⟩ := Transition.System.withHistory_step hs
  intro i hfree
  rw [hrec]
  rcases step_login hstep with ⟨w, conn, j, msg, rfl, hpc, hs'⟩ |
    ⟨w, conn, j, msg, rfl, hpc, hs'⟩ | ⟨hsame, hstoring⟩
  · -- The handler is between the copies for slot `j` now, so `i` is another slot
    have hother : ∀ v ≠ w, p'.1.handlers v = p.1.handlers v := fun v hv => by
      rw [hs']
      exact Function.update_of_ne hv ..
    have hij : i ≠ j := by
      rintro rfl
      refine hfree w ?_
      rw [hs']
      show HandlerPc.Storing i (Function.update p.1.handlers w _ w)
      rw [Function.update_self]
      rfl
    have hslot : p'.1.table i = p.1.table i := by
      rw [hs']
      exact Function.update_of_ne hij ..
    exact h.other_slot hother (by rw [hpc]; exact id) hslot hfree
  · have hother : ∀ v ≠ w, p'.1.handlers v = p.1.handlers v := fun v hv => by
      rw [hs']
      exact Function.update_of_ne hv ..
    by_cases hij : i = j
    · -- It was the last one: the user id is of a message with this password
      subst hij
      have hcond := hc w rfl
      rw [hpc] at hcond
      obtain ⟨m, hm, hpw, hid⟩ := hcond fun v hv => hother v hv ▸ hfree v
      have hslot : p'.1.table i =
          { p.1.table i with passwd := .strncpy 7 msg.passwd.bytes } := by
        rw [hs']
        exact Function.update_self ..
      have hstored : (p.2.record p.1 (.handle w) p'.1).stored i = msg :: p.2.stored i := by
        show storedAfter p.2.stored (p.1.handlers w) i = _
        rw [hpc]
        exact Function.update_self ..
      refine .inr ⟨m, ?_, ?_, ?_⟩
      · rw [hstored]
        rcases hm with rfl | hm
        · exact List.mem_cons_self
        · exact List.mem_cons_of_mem _ hm
      · rw [hslot]
        exact hid
      · rw [hslot]
        exact hpw.symm
    · -- Another slot keeps its login and the handlers between its copies
      have hslot : p'.1.table i = p.1.table i := by
        rw [hs']
        exact Function.update_of_ne hij ..
      exact h.other_slot hother (by rw [hpc]; exact hij) hslot hfree
  · exact login_mono (hsame i).1 (hsame i).2 (h i fun v hv => hfree v (hstoring v i hv))

/-! ### Runs -/

/-- In a run whose copies all meet the condition, every reply has what a slot held in one
    state for one connection, and every slot has the user id and the password of one SENDUI. -/
theorem slots_whole {p : SharedTable × Trail} (h : Transition.Reach recorded Undisturbed p) :
    CopiesWhole p ∧ LoginsWhole p := by
  have hinv : CopyInv p ∧ LoginsWhole p := by
    refine h.invariant (I := fun p => CopyInv p ∧ LoginsWhole p) ?_ ?_
    · -- At the start no handler runs and every slot has its initial login
      rintro p ⟨⟨table, hinit⟩, htrail⟩
      have hidle : ∀ w, p.1.handlers w = .idle := fun w => by rw [hinit]; rfl
      refine ⟨⟨?_, fun w kind i done todo hpc => ?_⟩, fun i _ => .inl ?_⟩
      · rw [htrail]
        exact List.mem_cons_self
      · rw [hidle] at hpc
        cases hpc
      · rw [htrail]
        exact ⟨rfl, rfl⟩
    · intro p a p' _ hI hc hs
      exact ⟨hI.1.step hc hs, hI.2.step hc hs⟩
  exact ⟨fun w kind i done hpc => (hinv.1.view w kind i done [] hpc).complete, hinv.2⟩

/-- Two users. -/
def twoUsersTable : Table := Function.update oneUserTable 1 {
  connectFd := 6
  socketStatus := 1
  now := 110
  clientIpAddr := .ofBytes _ (CString.ascii "10.0.0.2")
  clientPort := 4001
  usrhashId := .ofBytes _ (CString.ascii "cd")
  passwd := .ofBytes _ (CString.ascii "pw") }

/-- GETREMOTE for the first, received from the second. -/
def getRemoteJob : JobParameter :=
  .received (Packet.getRemote ⟨CString.ascii "ab", by decide, by decide⟩
    ⟨CString.ascii "pw", by decide, by decide⟩).bytes 6 1

/-- The handler of the job gets to its first copy. -/
def findRemote : List Action := [.start 0 getRemoteJob, .handle 0, .handle 0, .handle 0]

/-- Slot 0 is freed and filled for another client. -/
def reuseSlot : List Action :=
  [.free 0, .freeWrite, .freeWrite, .freeUnlock,
    .accept { fd := 7, addr := .ofBytes _ (CString.ascii "10.0.0.3"), port := 4002 },
    .search, .initSlot 120, .fill, .fill, .fill, .fill, .fill, .fill, .unlock]

/-- The start of the record. -/
def twoUsersStart : SharedTable × Trail :=
  (start twoUsersTable, {
    initial := twoUsersTable
    past := [start twoUsersTable]
    view := fun _ => none
    stored := fun _ => [] })

set_option maxRecDepth 100000 in
/-- A copy that no other thread disturbs is whole. -/
theorem slots_whole_remote :
    ∃ p : SharedTable × Trail, p.1.handlers 0 = .copying .getRemote 0
      [(.clientIpAddr, .str (CString.ascii "10.0.0.1")), (.clientPort, .int 4000),
        (.clientPort, .int 4000), (.clientIpAddr, .str (CString.ascii "10.0.0.1"))] [] ∧
      CopiesWhole p ∧ LoginsWhole p := by
  have hinit : recorded.init twoUsersStart := ⟨⟨twoUsersTable, rfl⟩, rfl⟩
  have hrun : ∃ p, recorded.run twoUsersStart
      (findRemote ++ [.handle 0, .handle 0, .handle 0, .handle 0]) = some p ∧
      p.1.handlers 0 = .copying .getRemote 0
      [(.clientIpAddr, .str (CString.ascii "10.0.0.1")), (.clientPort, .int 4000),
        (.clientPort, .int 4000), (.clientIpAddr, .str (CString.ascii "10.0.0.1"))] [] :=
    ⟨_, rfl, rfl⟩
  obtain ⟨p, hp, hpc⟩ := hrun
  refine ⟨p, hpc, slots_whole (Transition.Reach.run (.init hinit) ?_ hp)⟩
  refine .cons rfl ?_ (.cons rfl ?_ (.cons rfl ?_ (.cons rfl ?_ (.cons rfl ?_ (.cons rfl ?_
    (.cons rfl ?_ (.cons rfl ?_ .nil)))))))
  · rintro w ⟨⟩
  · rintro w ⟨⟩; exact trivial
  · rintro w ⟨⟩; exact trivial
  · rintro w ⟨⟩; exact trivial
  · rintro w ⟨⟩; exact .inr (.inl (by decide))
  · rintro w ⟨⟩; exact .inr (.inl (by decide))
  · rintro w ⟨⟩; exact .inr (.inl (by decide))
  · rintro w ⟨⟩; exact .inr (.inl (by decide))

set_option maxRecDepth 100000 in
/-- A slot that is reused between two copies gives the address of one client with the port
    of another. -/
theorem slots_whole_fails :
    ¬ ∀ p, Transition.Reachable recorded p → CopiesWhole p ∧ LoginsWhole p := by
  intro hall
  have hinit : recorded.init twoUsersStart := ⟨⟨twoUsersTable, rfl⟩, rfl⟩
  have hrun : ∃ p, recorded.run twoUsersStart
      (findRemote ++ .handle 0 :: reuseSlot ++ [.handle 0, .handle 0, .handle 0]) = some p ∧
      p.1.handlers 0 = .copying .getRemote 0
      [(.clientIpAddr, .str (CString.ascii "10.0.0.1")), (.clientPort, .int 4002),
        (.clientPort, .int 4002), (.clientIpAddr, .str (CString.ascii "10.0.0.3"))] [] :=
    ⟨_, rfl, rfl⟩
  obtain ⟨p, hp, hpc⟩ := hrun
  obtain ⟨s, -, hsnap, -⟩ := (hall p (.of_run hinit hp)).1 0 _ _ _ hpc
  -- The slot never held both addresses
  have hfirst := (hsnap (.clientIpAddr, .str (CString.ascii "10.0.0.1")) (by simp)).resolve_left
    (by simp)
  have hlast := (hsnap (.clientIpAddr, .str (CString.ascii "10.0.0.3")) (by simp)).resolve_left
    (by simp)
  exact absurd (hfirst.symm.trans hlast) (by decide)

end SharedTable

end JQServer
