/-
What happens beside the managers.

Most of what happens to a world leaves its managers and its registry alone, and so the arrays
and the release hooks that it has.  `Aside` says so; new arrays may have come.  The calls to
the engine and the notes of the journal change even less: `Told` says that they leave all
else as it was.

An operation of the engine makes arrays, and an open manager takes them.  `Fills` is a chain
of such takings, with anything aside between them.
-/
import ArrayLifetimes.Proofs.World.Minding

namespace ArrayLifetimes

/-- What a world has of its registry. -/
structure Registry where
  registered : Bool
  shutdowns : Nat
  roots : List ManagerId

namespace World

def registry (w : World) : Registry := ⟨w.registered, w.shutdowns, w.roots⟩

variable {w v u : World}

/-! ### Calls and notes -/

/-- Nothing but the engine and the journal has changed. -/
def Told (w v : World) : Prop := ∃ engine journal, v = { w with engine, journal }

theorem Told.refl (w : World) : w.Told w := ⟨w.engine, w.journal, rfl⟩

theorem Told.trans (h : w.Told v) (h' : v.Told u) : w.Told u := by
  obtain ⟨engine, journal, rfl⟩ := h
  obtain ⟨engine', journal', rfl⟩ := h'
  exact ⟨engine', journal', rfl⟩

theorem told_record (w : World) (e : Entry) : w.Told (w.record e) := ⟨_, _, rfl⟩

theorem told_note (w : World) (e : Event) : w.Told (w.note e) := ⟨_, _, rfl⟩

theorem told_callCreate (w : World) (caller : Caller) (r : AllocationRequest) :
    w.Told (w.callCreate caller r).1 := by
  unfold callCreate
  simp only
  split <;> exact ⟨_, _, rfl⟩

theorem told_callRelease (w : World) (caller : Caller) (x : Handle) :
    w.Told (w.callRelease caller x).1 := by
  unfold callRelease
  simp only
  split <;> exact ⟨_, _, rfl⟩

theorem told_callRead (w : World) (caller : Caller) (x : Handle) :
    w.Told (w.callRead caller x).1 := ⟨_, _, rfl⟩

theorem told_callInvoke (w : World) (caller : Caller) (operation : String) (inputs : List Handle)
    (ps : Params) : w.Told (w.callInvoke caller operation inputs ps).1 := by
  unfold callInvoke
  simp only
  split
  · rw [noteAllocated_eq]
    exact ⟨_, _, rfl⟩
  · exact ⟨_, _, rfl⟩

theorem told_callInvokeInto (w : World) (caller : Caller) (operation : String)
    (inputs outputs : List Handle) (ps : Params) :
    w.Told (w.callInvokeInto caller operation inputs outputs ps).1 := by
  unfold callInvokeInto
  simp only
  split <;> exact ⟨_, _, rfl⟩

theorem told_arrayBytes (w : World) (a : ArrayId) : w.Told (w.arrayBytes a).1 := by
  unfold arrayBytes
  split
  · exact .refl w
  · exact told_callRead w .managers _

theorem told_arrayElements (w : World) (a : ArrayId) (t : Option DataType) :
    w.Told (w.arrayElements a t).1 := by
  unfold arrayElements
  split
  · exact .refl w
  · simp only
    split
    · exact .refl w
    · exact told_arrayBytes w a

theorem told_shownArray (w : World) (a : ArrayId) (check : Option Check) :
    w.Told (w.shownArray a check).1 := by
  have h := told_arrayElements w a none
  unfold shownArray
  split <;> rename_i he <;> rw [he] at h <;> exact h

theorem told_shownArrays (w : World) (as : List ArrayId) : w.Told (w.shownArrays as).1 := by
  induction as generalizing w with
  | nil => exact .refl w
  | cons a rest ih =>
      have h := told_arrayElements w a none
      unfold shownArrays
      split
      · rename_i v xs _ he
        rw [he] at h
        have hv := ih v
        split <;> rename_i ht <;> rw [ht] at hv <;> exact h.trans hv
      · rename_i he
        rw [he] at h
        exact h
      · rename_i v xs _ he
        rw [he] at h
        exact h.trans (ih v)

theorem told_readEach (w : World) (as : List ArrayId) : w.Told (w.readEach as).1 := by
  induction as generalizing w with
  | nil => exact .refl w
  | cons a as ih => exact (told_arrayElements w a none).trans (ih _)

theorem told_ask (w : World) (running : List ManagerId) (q : Query) :
    w.Told (w.ask running q).1 := by
  cases q with
  | registryContains n =>
      simp only [ask]
      split <;> exact .refl w
  | read n t =>
      simp only [ask]
      split
      · exact .refl w
      · exact told_arrayElements w _ t
  | bytes n =>
      simp only [ask]
      split
      · exact .refl w
      · exact told_arrayBytes w _
  | _ => exact .refl w

theorem told_recordItem (w : World) (m : ManagerId) (failures : ReleaseFailures)
    (outcome : Outcome) (item : Item) : w.Told (w.recordItem m failures outcome item).1 := by
  cases item with
  | child id =>
      simp only [recordItem]
      split <;> exact .refl w
  | resource key =>
      simp only [recordItem]
      split
      · split
        · exact told_note w _
        · exact .refl w
      · exact told_note w _

theorem told_endScope (w : World) (m : ManagerId) (body : List Reply) (outcome : Outcome)
    (result : BodyResult) : w.Told (w.endScope m body outcome result).1 := by
  cases result with
  | value j => exact .refl w
  | fault | panic =>
      simp only [endScope]
      split
      · exact told_note w _
      · exact .refl w

theorem told_afterRelease (w : World) (outcome : Outcome) (next : AfterRelease) :
    w.Told (w.afterRelease outcome next).1 := by
  cases next with
  | done | releasedBefore | releasedNow => exact .refl w
  | droppedGuard m inUse r =>
      simp only [afterRelease]
      split
      · exact .refl w
      · exact told_note w _
      · exact .refl w
  | endedScope p m body result => exact told_endScope w m body outcome result

/-! ### Managers and what there is -/

/-- The managers and the registry are as they were, and so are the arrays and the release hooks
that there were. -/
structure Aside (w v : World) : Prop where
  managers : v.managers = w.managers
  registry : v.registry = w.registry
  arrays : ∀ a, w.Has (.array a) → v.array? a = w.array? a
  hooks : ∀ h, w.Has (.hook h) → v.hook? h = w.hook? h

theorem Aside.of_eq (hm : v.managers = w.managers) (hr : v.registry = w.registry)
    (ha : v.arrays = w.arrays) (hh : v.hooks = w.hooks) : w.Aside v :=
  ⟨hm, hr, fun a _ => by simp only [array?, ha], fun h _ => by simp only [hook?, hh]⟩

theorem Told.aside (h : w.Told v) : w.Aside v := by
  obtain ⟨engine, journal, rfl⟩ := h
  exact .of_eq rfl rfl rfl rfl

theorem Aside.refl (w : World) : w.Aside w := .of_eq rfl rfl rfl rfl

theorem Aside.has (h : w.Aside v) (x : Resource) (hx : w.Has x) : v.Has x := by
  cases x with
  | manager m => simpa only [Has, h.managers] using hx
  | array a =>
      obtain ⟨r, hr⟩ := exists_of_has_array hx
      rw [← h.arrays a hx, array?] at hr
      exact (Array.getElem?_eq_some_iff.mp hr).1
  | hook g =>
      obtain ⟨r, hr⟩ := exists_of_has_hook hx
      rw [← h.hooks g hx, hook?] at hr
      exact (Array.getElem?_eq_some_iff.mp hr).1

theorem Aside.trans (h : w.Aside v) (h' : v.Aside u) : w.Aside u where
  managers := h'.managers.trans h.managers
  registry := h'.registry.trans h.registry
  arrays a ha := (h'.arrays a (h.has _ ha)).trans (h.arrays a ha)
  hooks g hg := (h'.hooks g (h.has _ hg)).trans (h.hooks g hg)

theorem Aside.manager? (h : w.Aside v) (m : ManagerId) : v.manager? m = w.manager? m := by
  simp only [World.manager?, h.managers]

/-! ### Names -/

theorem aside_nameDisplaced (w : World) (n : Option Name) (x : Option Resource) :
    w.Aside (w.nameDisplaced n x) := by
  unfold nameDisplaced
  split
  · exact .of_eq rfl rfl rfl rfl
  · exact .refl w

theorem aside_nameOutputs (w : World) (n : Name) (as : List ArrayId) :
    w.Aside (w.nameOutputs n as) := by
  unfold nameOutputs
  generalize as.zipIdx = l
  induction l generalizing w with
  | nil => exact .refl w
  | cons p l ih =>
      have hp : w.Aside (w.nameArray (if p.2 = 0 then n else n ++ "." ++ toString p.2) p.1) :=
        .of_eq rfl rfl rfl rfl
      exact hp.trans (ih _)

theorem aside_resourceNamed {r : ResourceName} {x : Resource}
    (h : w.resourceNamed r = .ok (v, x)) : w.Aside v := by
  cases r <;> simp only [resourceNamed, bind_eq_ok, pure, Except.pure, Except.ok.injEq,
    Prod.mk.injEq] at h
  case hook label work ending =>
    obtain ⟨rfl, -⟩ := h
    refine ⟨rfl, rfl, fun _ _ => rfl, fun g hg => ?_⟩
    rw [hook?_addHook, if_neg (Nat.ne_of_lt hg)]
  all_goals
    obtain ⟨-, -, rfl, -⟩ := h
    exact .refl w

/-! ### New arrays -/

theorem aside_adopt (w : World) (n : NativeArray) : w.Aside (w.adopt n).1 := by
  refine ⟨rfl, rfl, fun a ha => ?_, fun _ _ => rfl⟩
  rw [array?_adopt, if_neg (Nat.ne_of_lt ha)]

/-- Releasing an array marks it at most. -/
theorem releaseArray_eq_or_told (w : World) (a : ArrayId) :
    (w.releaseArray a).1 = w ∨ (w.markReleased a).Told (w.releaseArray a).1 := by
  unfold releaseArray
  split
  · exact Or.inl rfl
  · split
    · exact Or.inr ((told_note _ _).trans (told_callRelease _ .managers _))
    · exact Or.inl rfl

/-- An array that has just been adopted is released: of all that there was, nothing changes. -/
theorem aside_releaseArray_adopt (w : World) (n : NativeArray) :
    w.Aside ((w.adopt n).1.releaseArray (w.adopt n).2).1 := by
  have hn := aside_adopt w n
  have hmarked : w.Aside ((w.adopt n).1.markReleased (w.adopt n).2) := by
    refine ⟨rfl, rfl, fun a ha => ?_, fun _ _ => rfl⟩
    have hne : (w.adopt n).2 ≠ a := by
      rintro rfl
      exact Nat.lt_irrefl _ ha
    rw [array?_markReleased, if_neg hne]
    exact hn.arrays a ha
  rcases releaseArray_eq_or_told (w.adopt n).1 (w.adopt n).2 with hv | hv
  · rw [hv]
    exact hn
  · exact hmarked.trans hv.aside

theorem aside_discard (w : World) (ns : List NativeArray) : w.Aside (w.discard ns).1 := by
  induction ns generalizing w with
  | nil => exact .refl w
  | cons n rest ih =>
      have hr := aside_releaseArray_adopt w n
      unfold discard
      simp only
      split <;> rename_i he <;> rw [he] at hr
      · exact hr.trans (ih _)
      · exact (hr.trans (told_note _ _).aside).trans (ih _)
      · exact hr

/-- An open manager has taken new arrays, one after the other. -/
inductive Fill (w : World) : World → Prop
  | aside {v : World} (h : w.Aside v) : Fill w v
  | hold (n : NativeArray) {m : ManagerId} {r : Manager} (h : w.openManager m = .ok r) :
      Fill w ((w.adopt n).1.modifyManager m fun r => r.holding (w.adopt n).2)

/-- Open managers may have taken new arrays. -/
abbrev Fills : World → World → Prop := Relation.ReflTransGen Fill

theorem Aside.fills (h : w.Aside v) : w.Fills v := .single (.aside h)

theorem fills_track (w : World) (m : ManagerId) (n : NativeArray) : w.Fills (w.track m n).1 := by
  unfold track
  simp only
  split
  · rename_i r hr
    exact Relation.ReflTransGen.trans (.single (.hold n hr)) (told_note _ _).aside.fills
  · have hr := aside_releaseArray_adopt w n
    split <;> rename_i he <;> rw [he] at hr
    · exact hr.fills
    · exact (hr.trans (told_note _ _).aside).fills
    · exact hr.fills

theorem fills_trackAll (w : World) (m : ManagerId) (ns : List NativeArray) :
    w.Fills (w.trackAll m ns).1 := by
  induction ns generalizing w with
  | nil => exact .refl
  | cons n rest ih =>
      have ht := fills_track w m n
      unfold trackAll
      split
      · rename_i v a he
        rw [he] at ht
        have hv := ih v
        split <;> rename_i hall <;> rw [hall] at hv <;> exact ht.trans hv
      · rename_i he
        rw [he] at ht
        exact ht
      · rename_i v f _ he
        rw [he] at ht
        have hv := (aside_discard v rest).fills
        split <;> rename_i hd <;> rw [hd] at hv <;> exact ht.trans hv

theorem fills_proceed (w : World) (next : AfterCallback) : w.Fills (w.proceed next).1 := by
  cases next with
  | track m n name check =>
      have ht := fills_track w m n
      simp only [proceed]
      split <;> rename_i he <;> rw [he] at ht
      · rename_i v a
        have hnamed : v.Aside (v.nameArray name a) := .of_eq rfl rfl rfl rfl
        exact ht.trans (hnamed.trans (told_shownArray _ a check).aside).fills
      · exact ht
  | trackAll m operation ns name =>
      have hnote := (told_note w (.invoked m operation ns.length)).aside.fills
      have ht := hnote.trans (fills_trackAll (w.note (.invoked m operation ns.length)) m ns)
      simp only [proceed]
      split <;> rename_i he <;> rw [he] at ht
      · rename_i v as
        exact ht.trans ((aside_nameOutputs v name as).trans (told_shownArrays _ as).aside).fills
      · exact ht
  | answer r => exact .refl

theorem fills_afterCreate (w : World) (next : AfterCallback) : w.Fills (w.afterCreate next).1 := by
  unfold afterCreate
  split
  · have ha : w.Aside { w with engine := { w.engine with afterCreate := none } } :=
      .of_eq rfl rfl rfl rfl
    exact ha.fills
  · exact fills_proceed w next

theorem fills_afterInvoke (w : World) (next : AfterCallback) : w.Fills (w.afterInvoke next).1 := by
  unfold afterInvoke
  split
  · have ha : w.Aside { w with engine := { w.engine with afterInvoke := none } } :=
      .of_eq rfl rfl rfl rfl
    exact ha.fills
  · exact fills_proceed w next

theorem fills_performAllocate {manager name : Name} {a : Allocation} {check : Option Check}
    {p : World × Action} (h : w.performAllocate manager name a check = .ok p) : w.Fills p.1 := by
  simp only [performAllocate, bind_eq_ok] at h
  obtain ⟨m, -, d, -, r, -, h⟩ := h
  have hc := (told_callCreate w .managers r).aside.fills
  split at h <;> rename_i he <;> rw [he] at hc <;> cases h
  · exact hc
  · exact hc.trans (fills_afterCreate _ _)

theorem fills_performInvoke {manager name : Name} {operation : String} {inputs : List Name}
    {ps : Params} {p : World × Action}
    (h : w.performInvoke manager operation inputs ps name = .ok p) : w.Fills p.1 := by
  simp only [performInvoke, bind_eq_ok] at h
  obtain ⟨m, -, as, -, hs, -, h⟩ := h
  have hc := (told_callInvoke w .managers operation hs ps).aside.fills
  split at h <;> rename_i he <;> rw [he] at hc <;> cases h
  · exact hc
  · exact hc.trans (fills_afterInvoke _ _)

theorem told_performInvokeInto {manager : Name} {operation : String} {inputs outputs : List Name}
    {ps : Params} {p : World × Action}
    (h : w.performInvokeInto manager operation inputs outputs ps = .ok p) : w.Told p.1 := by
  simp only [performInvokeInto, bind_eq_ok] at h
  obtain ⟨-, -, as, -, bs, -, ⟨xs, ys⟩, -, h⟩ := h
  have hc := told_callInvokeInto w .managers operation xs ys ps
  split at h <;> rename_i he <;> rw [he] at hc <;> cases h
  · exact hc
  · exact hc.trans (told_readEach _ bs)

theorem fills_performDirect (w : World) (call : DirectCall) :
    w.Fills (w.performDirect call).1 := by
  cases call with
  | create r =>
      have hc := (told_callCreate w .client r).aside.fills
      simp only [performDirect]
      split <;> rename_i he <;> rw [he] at hc
      · exact hc.trans (fills_afterCreate _ _)
      · exact hc
  | release x =>
      have hc := (told_callRelease w .client x).aside.fills
      simp only [performDirect]
      split <;> rename_i he <;> rw [he] at hc <;> exact hc
  | read x => exact (told_callRead w .client x).aside.fills
  | contains | supports => exact .refl
  | invoke operation inputs ps =>
      have hc := (told_callInvoke w .client operation inputs ps).aside.fills
      simp only [performDirect]
      split <;> rename_i he <;> rw [he] at hc
      · exact hc.trans (fills_afterInvoke _ _)
      · exact hc
  | invokeInto operation inputs outputs ps =>
      have hc := (told_callInvokeInto w .client operation inputs outputs ps).aside.fills
      simp only [performDirect]
      split <;> rename_i he <;> rw [he] at hc <;> exact hc

end World

end ArrayLifetimes
