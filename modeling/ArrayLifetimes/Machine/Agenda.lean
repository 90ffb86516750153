/-
What puts commands on the agenda of a world.

The agenda of a world are the commands that release hooks and the engine have yet to run.
Hardly anything changes it: the lemmas say so for one operation after the other.  Only
mentioning a release hook adds to it, and only running a hook or a callback takes from it.
-/
import ArrayLifetimes.Machine.Progress

namespace ArrayLifetimes

theorem bind_eq_ok {ε α β : Type} {x : Except ε α} {f : α → Except ε β} {b : β} :
    (x >>= f) = .ok b ↔ ∃ a, x = .ok a ∧ f a = .ok b := by
  cases x <;> simp [bind, Except.bind]

theorem mapError_ok {ε δ α : Type} (f : ε → δ) (a : α) :
    (Except.ok a : Except ε α).mapError f = .ok a := rfl

theorem mapError_eq_ok {ε δ α : Type} {x : Except ε α} {f : ε → δ} {a : α} :
    x.mapError f = .ok a ↔ x = .ok a := by
  cases x with
  | error e => constructor <;> rintro ⟨⟩
  | ok b => constructor <;> rintro ⟨⟩ <;> rfl

theorem map_eq_ok {ε α β : Type} {x : Except ε α} {f : α → β} {b : β} :
    x.map f = .ok b ↔ ∃ a, x = .ok a ∧ f a = b := by
  cases x <;> simp [Except.map]

/-- Release hooks and callbacks. -/
structure Agenda where
  hooks : Array Hook
  afterCreate : Option Callback
  afterInvoke : Option Callback

namespace World

def agenda (w : World) : Agenda := ⟨w.hooks, w.engine.afterCreate, w.engine.afterInvoke⟩

theorem text_eq_of_agenda {v w : World} (h : v.agenda = w.agenda) : v.text = w.text := by
  simp only [agenda, Agenda.mk.injEq] at h
  simp [text, h]

/-! ### Changes of other parts -/

@[simp] theorem agenda_record (w : World) (e : Entry) : (w.record e).agenda = w.agenda := rfl

@[simp] theorem agenda_tell (w : World) (caller : Caller) (c : EngineCall) :
    (w.tell caller c).agenda = w.agenda := rfl

@[simp] theorem agenda_note (w : World) (e : Event) : (w.note e).agenda = w.agenda := rfl

@[simp] theorem agenda_modifyManager (w : World) (m : ManagerId) (f : Manager → Manager) :
    (w.modifyManager m f).agenda = w.agenda := rfl

@[simp] theorem agenda_addManager (w : World) (m : Manager) :
    (w.addManager m).1.agenda = w.agenda := rfl

@[simp] theorem agenda_addArray (w : World) (a : ArrayRecord) :
    (w.addArray a).1.agenda = w.agenda := rfl

@[simp] theorem agenda_newThread (w : World) : w.newThread.1.agenda = w.agenda := rfl

@[simp] theorem agenda_nameManager (w : World) (n : Name) (m : ManagerId) :
    (w.nameManager n m).agenda = w.agenda := rfl

@[simp] theorem agenda_nameArray (w : World) (n : Name) (a : ArrayId) :
    (w.nameArray n a).agenda = w.agenda := rfl

@[simp] theorem agenda_nameResource (w : World) (n : Name) (r : Resource) :
    (w.nameResource n r).agenda = w.agenda := rfl

@[simp] theorem agenda_setGuards (w : World) (guards : Keyed Name ManagerId) :
    (w.setGuards guards).agenda = w.agenda := rfl

@[simp] theorem agenda_nameDisplaced (w : World) (n : Option Name) (r : Option Resource) :
    (w.nameDisplaced n r).agenda = w.agenda := by
  unfold nameDisplaced
  split <;> rfl

theorem agenda_foldl {α : Type} (f : World → α → World)
    (h : ∀ w a, (f w a).agenda = w.agenda) (as : List α) (w : World) :
    (as.foldl f w).agenda = w.agenda := by
  induction as generalizing w with
  | nil => rfl
  | cons a as ih => rw [List.foldl_cons, ih, h]

@[simp] theorem agenda_nameOutputs (w : World) (n : Name) (as : List ArrayId) :
    (w.nameOutputs n as).agenda = w.agenda := by
  refine agenda_foldl _ ?_ _ w
  intros
  rfl

@[simp] theorem agenda_newBase (w : World) (d : Device) : (w.newBase d).1.agenda = w.agenda := rfl

/-! ### Managers and resources -/

theorem agenda_newSub {w v : World} {m child : ManagerId} {d : Option Device}
    (h : w.newSub m d = .ok (v, child)) : v.agenda = w.agenda := by
  unfold newSub at h
  cases hm : w.openManager m with
  | error e => simp [hm, bind, Except.bind] at h
  | ok owner =>
    simp only [hm, bind, Except.bind, pure, Except.pure, Except.ok.injEq, Prod.mk.injEq] at h
    rw [← h.1]
    rfl

theorem agenda_attach {w v : World} {m : ManagerId} {key : Label} {r : Resource}
    {old : Option Resource} (h : w.attach m key r = .ok (v, old)) : v.agenda = w.agenda := by
  unfold attach at h
  cases hm : w.openManager m with
  | error e => simp [hm, bind, Except.bind] at h
  | ok owner =>
    simp only [hm, bind, Except.bind, pure, Except.pure] at h
    split at h
    · simp at h
    · simp only [Except.ok.injEq, Prod.mk.injEq] at h
      rw [← h.1]
      split <;> rfl

theorem agenda_attachArray {w v : World} {m : ManagerId} {a : ArrayId}
    (h : w.attachArray m a = .ok v) : v.agenda = w.agenda := by
  unfold attachArray at h
  cases ha : w.attach m (.array a) (.array a) with
  | error e => simp [ha, bind, Except.bind] at h
  | ok p =>
    simp only [ha, bind, Except.bind, pure, Except.pure, Except.ok.injEq] at h
    rw [← h]
    exact agenda_attach ha

@[simp] theorem agenda_detach (w : World) (m : ManagerId) (key : Label) :
    (w.detach m key).1.agenda = w.agenda := by
  unfold detach
  split
  · rfl
  · split <;> rfl

@[simp] theorem agenda_detachArray (w : World) (m : ManagerId) (a : ArrayId) :
    (w.detachArray m a).1.agenda = w.agenda := agenda_detach w m (.array a)

@[simp] theorem agenda_detachSub (w : World) (m child : ManagerId) :
    (w.detachSub m child).1.agenda = w.agenda := by
  unfold detachSub
  split
  · rfl
  · split <;> rfl

/-! ### Shutdowns -/

@[simp] theorem agenda_dropRoots (w : World) : w.dropRoots.agenda = w.agenda := by
  unfold dropRoots
  split <;> rfl

@[simp] theorem agenda_endShutdown (w : World) : w.endShutdown.agenda = w.agenda :=
  agenda_dropRoots _

/-! ### The engine -/

theorem afterCreate_of_due {e : Engine} {c : Callback} (h : e.dueAfterCreate = some c) :
    e.afterCreate = some c := by
  unfold Engine.dueAfterCreate at h
  split at h
  · simp at h
  · exact h

theorem afterInvoke_of_due {e : Engine} {c : Callback} (h : e.dueAfterInvoke = some c) :
    e.afterInvoke = some c := by
  unfold Engine.dueAfterInvoke at h
  split at h
  · simp at h
  · exact h

@[simp] theorem afterCreate_create (e : Engine) (r : AllocationRequest) :
    (e.create r).1.afterCreate = e.afterCreate := by
  unfold Engine.create Engine.createHosted
  split
  · rfl
  · split
    · rfl
    · split <;> rfl

@[simp] theorem afterInvoke_create (e : Engine) (r : AllocationRequest) :
    (e.create r).1.afterInvoke = e.afterInvoke := by
  unfold Engine.create Engine.createHosted
  split
  · rfl
  · split
    · rfl
    · split <;> rfl

@[simp] theorem afterCreate_release (e : Engine) (x : Handle) :
    (e.release x).1.afterCreate = e.afterCreate := by
  unfold Engine.release Engine.releaseHosted
  split
  · rfl
  · split
    · rfl
    · split
      · rfl
      · split <;> rfl

@[simp] theorem afterInvoke_release (e : Engine) (x : Handle) :
    (e.release x).1.afterInvoke = e.afterInvoke := by
  unfold Engine.release Engine.releaseHosted
  split
  · rfl
  · split
    · rfl
    · split
      · rfl
      · split <;> rfl

theorem eq_of_invokeHosted {e g : Engine} {operation : String} {inputs : List Handle} {ps : Params}
    {natives : List NativeArray} (h : e.invokeHosted operation inputs ps = .ok (g, natives)) :
    g = { e with host := g.host } := by
  have single : ∀ {p : Engine × List NativeArray},
      (e.host.invoke operation inputs ps >>= fun made =>
          Except.ok ({ e with host := made.1 }, [made.2])) = .ok p →
        p.1 = { e with host := p.1.host } := by
    intro p hp
    obtain ⟨made, -, hp⟩ := bind_eq_ok.mp hp
    cases hp
    rfl
  unfold Engine.invokeHosted at h
  split at h
  · exact single h
  · split at h
    · split at h
      · simp at h
      · rename_i parts _
        cases hc : Engine.copies e.host inputs ps parts.toNat with
        | error x => simp [hc, bind, Except.bind] at h
        | ok q =>
          simp only [hc, bind, Except.bind, pure, Except.pure, Except.ok.injEq,
            Prod.mk.injEq] at h
          rw [← h.1]
    · exact single h
  · simp at h

theorem eq_of_invokeIntoHosted {e g : Engine} {operation : String} {inputs outputs : List Handle}
    {ps : Params} (h : e.invokeIntoHosted operation inputs outputs ps = .ok g) :
    g = { e with host := g.host } := by
  unfold Engine.invokeIntoHosted at h
  cases hi : e.host.invokeInto operation inputs outputs ps <;>
    split at h <;>
    simp_all only [bind, Except.bind, pure, Except.pure, Except.ok.injEq, reduceCtorEq]
  all_goals rw [← h]

/-- An operation changes nothing of the engine but the host. -/
theorem eq_of_invoke {e g : Engine} {operation : String} {inputs : List Handle} {ps : Params}
    {natives : List NativeArray} (h : e.invoke operation inputs ps = .ok (g, natives)) :
    g = { e with host := g.host } := by
  unfold Engine.invoke at h
  split at h
  · rename_i f _
    cases hf : f.invoke e.calls with
    | error x => simp [hf, Except.map] at h
    | ok ns =>
      simp only [hf, Except.map, Except.ok.injEq, Prod.mk.injEq] at h
      rw [← h.1]
  · exact eq_of_invokeHosted (mapError_eq_ok.mp h)

theorem eq_of_invokeInto {e g : Engine} {operation : String} {inputs outputs : List Handle}
    {ps : Params} (h : e.invokeInto operation inputs outputs ps = .ok g) :
    g = { e with host := g.host } := by
  unfold Engine.invokeInto at h
  split at h
  · rename_i f _
    cases hf : f.invokeInto e.calls with
    | error x => simp [hf, Except.map] at h
    | ok ns =>
      simp only [hf, Except.map, Except.ok.injEq] at h
      rw [← h]
  · exact eq_of_invokeIntoHosted (mapError_eq_ok.mp h)

theorem agenda_noteAllocated (w : World) (natives : List NativeArray) :
    (w.noteAllocated natives).agenda = w.agenda := by
  refine agenda_foldl _ ?_ _ w
  intros
  rfl

@[simp] theorem agenda_callCreate (w : World) (c : Caller) (r : AllocationRequest) :
    (w.callCreate c r).1.agenda = w.agenda := by
  have ha := agenda_tell w c (.create r)
  have hc := afterCreate_create (w.tell c (.create r)).engine r
  have hi := afterInvoke_create (w.tell c (.create r)).engine r
  rw [← ha]
  unfold callCreate
  simp only
  split <;> rename_i h <;> simp only [h] at hc hi <;> simp [agenda, note, record, hc, hi]

@[simp] theorem agenda_callRelease (w : World) (c : Caller) (x : Handle) :
    (w.callRelease c x).1.agenda = w.agenda := by
  have ha := agenda_tell w c (.release x)
  have hc := afterCreate_release (w.tell c (.release x)).engine x
  have hi := afterInvoke_release (w.tell c (.release x)).engine x
  rw [← ha]
  unfold callRelease
  simp only
  split <;> rename_i h <;> simp only [h] at hc hi <;> simp [agenda, note, record, hc, hi]

@[simp] theorem agenda_callRead (w : World) (c : Caller) (x : Handle) :
    (w.callRead c x).1.agenda = w.agenda := rfl

@[simp] theorem agenda_callInvoke (w : World) (c : Caller) (operation : String)
    (inputs : List Handle) (ps : Params) :
    (w.callInvoke c operation inputs ps).1.agenda = w.agenda := by
  unfold callInvoke
  simp only
  split
  · rename_i h
    rw [agenda_noteAllocated, agenda, eq_of_invoke h]
    rfl
  · rfl

@[simp] theorem agenda_callInvokeInto (w : World) (c : Caller) (operation : String)
    (inputs outputs : List Handle) (ps : Params) :
    (w.callInvokeInto c operation inputs outputs ps).1.agenda = w.agenda := by
  unfold callInvokeInto
  simp only
  split
  · rename_i h
    rw [agenda, eq_of_invokeInto h]
    rfl
  · rfl

/-! ### Arrays -/

@[simp] theorem agenda_markReleased (w : World) (a : ArrayId) :
    (w.markReleased a).agenda = w.agenda := rfl

@[simp] theorem agenda_releaseArray (w : World) (a : ArrayId) :
    (w.releaseArray a).1.agenda = w.agenda := by
  unfold releaseArray
  split
  · rfl
  · split
    · simp
    · rfl

@[simp] theorem agenda_arrayBytes (w : World) (a : ArrayId) :
    (w.arrayBytes a).1.agenda = w.agenda := by
  unfold arrayBytes
  split <;> simp

@[simp] theorem agenda_arrayElements (w : World) (a : ArrayId) (t : Option DataType) :
    (w.arrayElements a t).1.agenda = w.agenda := by
  unfold arrayElements
  split
  · rfl
  · simp only
    split <;> simp

@[simp] theorem agenda_adopt (w : World) (n : NativeArray) : (w.adopt n).1.agenda = w.agenda := rfl

@[simp] theorem agenda_track (w : World) (m : ManagerId) (n : NativeArray) :
    (w.track m n).1.agenda = w.agenda := by
  unfold track
  simp only
  split
  · rfl
  · have h := agenda_releaseArray (w.adopt n).1 (w.adopt n).2
    split <;> rename_i hr <;> rw [hr] at h <;> simpa using h

@[simp] theorem agenda_discard (w : World) (ns : List NativeArray) :
    (w.discard ns).1.agenda = w.agenda := by
  induction ns generalizing w with
  | nil => rfl
  | cons n rest ih =>
    have h := agenda_releaseArray (w.adopt n).1 (w.adopt n).2
    unfold discard
    simp only
    split <;> rename_i hr <;> rw [hr] at h
    · rw [ih]; simpa using h
    · rw [ih]; simpa using h
    · simpa using h

@[simp] theorem agenda_trackAll (w : World) (m : ManagerId) (ns : List NativeArray) :
    (w.trackAll m ns).1.agenda = w.agenda := by
  induction ns generalizing w with
  | nil => rfl
  | cons n rest ih =>
    have h := agenda_track w m n
    unfold trackAll
    split <;> rename_i hr <;> rw [hr] at h
    · rename_i v a
      have hv := ih v
      split <;> rename_i ht <;> rw [ht] at hv <;> exact hv.trans h
    · exact h
    · rename_i v f _
      have hv := agenda_discard v rest
      split <;> rename_i ht <;> rw [ht] at hv <;> exact hv.trans h

/-! ### Questions -/

@[simp] theorem agenda_shownArray (w : World) (a : ArrayId) (check : Option Check) :
    (w.shownArray a check).1.agenda = w.agenda := by
  have h := agenda_arrayElements w a none
  unfold shownArray
  split <;> simp_all

@[simp] theorem agenda_shownArrays (w : World) (as : List ArrayId) :
    (w.shownArrays as).1.agenda = w.agenda := by
  induction as generalizing w with
  | nil => rfl
  | cons a rest ih =>
    have h := agenda_arrayElements w a none
    unfold shownArrays
    split
    · rename_i v xs _ he
      rw [he] at h
      have hv := ih v
      split <;> rename_i ht <;> rw [ht] at hv <;> exact hv.trans h
    · rename_i he
      rw [he] at h
      exact h
    · rename_i v xs _ he
      rw [he] at h
      exact (ih v).trans h

@[simp] theorem agenda_readEach (w : World) (as : List ArrayId) :
    (w.readEach as).1.agenda = w.agenda := by
  induction as generalizing w with
  | nil => rfl
  | cons a rest ih =>
    unfold readEach
    simp [ih]

@[simp] theorem agenda_ask (w : World) (running : List ManagerId) (q : Query) :
    (w.ask running q).1.agenda = w.agenda := by
  unfold ask
  split <;> simp only [askRegistry, answerFrom]
  all_goals try (split <;> simp)

end World

end ArrayLifetimes
