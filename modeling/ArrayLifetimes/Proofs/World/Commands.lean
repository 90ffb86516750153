/-
Commands are chains of moves.

Every command ends in a world that moves lead to from the one in which it began, whatever
it answers and whatever work it starts.  Arrays that it has got from the engine and that a
callback stands in the way of are listed as the action's own.
-/
import ArrayLifetimes.Proofs.World.Keeping

namespace ArrayLifetimes

/-- The arrays of the engine that wait for a callback to end. -/
def AfterCallback.natives : AfterCallback → List NativeArray
  | track _ n _ _ => [n]
  | trackAll _ _ ns _ => ns
  | answer _ => []

def Action.natives : Action → List NativeArray
  | callback _ next => next.natives
  | _ => []

def ResourceName.leaves : ResourceName → List (List Command)
  | hook _ work _ => [work]
  | _ => []

/-- The lists of commands that a command leaves on the agenda. -/
def Command.leaves : Command → List (List Command)
  | attach _ _ resource _ | keep resource _ | release resource | isReleased resource =>
    resource.leaves
  | afterCreate _ commands | afterInvoke _ commands => [commands]
  | _ => []

namespace World

variable {P : List Command → Prop} {ns : List NativeArray}

theorem Move.single {p q : World × List NativeArray} (h : Move P p q) : Moves P p q :=
  Relation.ReflTransGen.single h

theorem moves_note (w : World) (ns : List NativeArray) (e : Event) :
    Moves P (w, ns) (w.note e, ns) := (Move.noted w ns (.event e) rfl).single

/-- Arrays that nobody will adopt. -/
theorem moves_lost (w : World) (made ns : List NativeArray) : Moves P (w, made ++ ns) (w, ns) := by
  induction made with
  | nil => exact .refl
  | cons n made ih => exact .head (.lost w n (made ++ ns)) ih

/-! ### Reading -/

theorem live_of_liveArray {w : World} {a : ArrayId} {r : ArrayRecord}
    (h : w.liveArray a = .ok r) : w.Live r.handle := by
  unfold liveArray at h
  split at h
  · rename_i q hq
    split at h
    · cases h
    · rename_i hr
      cases h
      exact ⟨a, r, hq, rfl, by simpa using hr⟩
  · cases h

theorem live_of_liveHandles {w : World} {as : List ArrayId} {hs : List Handle}
    (h : w.liveHandles as = .ok hs) : ∀ x ∈ hs, w.Live x := by
  induction as generalizing hs with
  | nil =>
      cases h
      simp
  | cons a as ih =>
      simp only [liveHandles, List.mapM_cons, bind_eq_ok, pure, Except.pure,
        Except.ok.injEq] at h
      obtain ⟨y, ⟨r, hr, rfl⟩, ys, hys, rfl⟩ := h
      intro x hx
      rcases List.mem_cons.mp hx with rfl | hx
      · exact live_of_liveArray hr
      · exact ih hys x hx

theorem moves_arrayBytes (w : World) (ns : List NativeArray) (a : ArrayId) :
    Moves P (w, ns) ((w.arrayBytes a).1, ns) := by
  unfold arrayBytes
  split
  · exact .refl
  · rename_i r hr
    exact (Move.read w ns .managers r.handle fun _ => live_of_liveArray hr).single

theorem moves_arrayElements (w : World) (ns : List NativeArray) (a : ArrayId)
    (t : Option DataType) : Moves P (w, ns) ((w.arrayElements a t).1, ns) := by
  unfold arrayElements
  split
  · exact .refl
  · simp only
    split
    · exact .refl
    · exact moves_arrayBytes w ns a

theorem moves_shownArray (w : World) (ns : List NativeArray) (a : ArrayId)
    (check : Option Check) : Moves P (w, ns) ((w.shownArray a check).1, ns) := by
  have h := moves_arrayElements (P := P) w ns a none
  unfold shownArray
  split <;> rename_i he <;> rw [he] at h <;> exact h

theorem moves_shownArrays (w : World) (ns : List NativeArray) (as : List ArrayId) :
    Moves P (w, ns) ((w.shownArrays as).1, ns) := by
  induction as generalizing w with
  | nil => exact .refl
  | cons a rest ih =>
      have h := moves_arrayElements (P := P) w ns a none
      unfold shownArrays
      split
      · rename_i v xs _ he
        rw [he] at h
        have hv := ih v
        split <;> rename_i ht <;> rw [ht] at hv <;> exact h.trans hv
      · rename_i he
        rw [he] at h
        exact h
      · rename_i v xs _ he
        rw [he] at h
        exact h.trans (ih v)

theorem moves_readEach (w : World) (ns : List NativeArray) (as : List ArrayId) :
    Moves P (w, ns) ((w.readEach as).1, ns) := by
  induction as generalizing w with
  | nil => exact .refl
  | cons a rest ih => exact (moves_arrayElements w ns a none).trans (ih _)

theorem moves_ask (w : World) (ns : List NativeArray) (running : List ManagerId) (q : Query) :
    Moves P (w, ns) ((w.ask running q).1, ns) := by
  cases q with
  | registryContains n =>
      simp only [ask]
      split <;> exact .refl
  | read n t =>
      simp only [ask]
      split
      · exact .refl
      · exact moves_arrayElements w ns _ t
  | bytes n =>
      simp only [ask]
      split
      · exact .refl
      · exact moves_arrayBytes w ns _
  | _ => exact .refl

/-! ### New arrays -/

theorem moves_track (w : World) (ns : List NativeArray) (m : ManagerId) (n : NativeArray) :
    Moves P (w, n :: ns) ((w.track m n).1, ns) := by
  have ha := (Move.adopt (P := P) w n ns).single
  unfold track
  simp only
  split
  · rename_i r hr
    refine ha.trans (.trans ?_ (moves_note _ ns _))
    exact (Move.hold _ ns m r _ hr (has_adopt w n)).single
  · have hr := (Move.releaseArray (P := P) (w.adopt n).1 ns (w.adopt n).2).single
    split <;> rename_i he <;> rw [he] at hr
    · exact ha.trans hr
    · exact (ha.trans hr).trans (moves_note _ ns _)
    · exact ha.trans hr

theorem moves_discard (w : World) (made ns : List NativeArray) :
    Moves P (w, made ++ ns) ((w.discard made).1, ns) := by
  induction made generalizing w with
  | nil => exact .refl
  | cons n rest ih =>
      have ha := (Move.adopt (P := P) w n (rest ++ ns)).single
      have hr := (Move.releaseArray (P := P) (w.adopt n).1 (rest ++ ns) (w.adopt n).2).single
      unfold discard
      simp only
      split <;> rename_i he <;> rw [he] at hr
      · exact (ha.trans hr).trans (ih _)
      · exact ((ha.trans hr).trans (moves_note _ _ _)).trans (ih _)
      · exact (ha.trans hr).trans (moves_lost _ rest ns)

theorem moves_trackAll (w : World) (m : ManagerId) (made ns : List NativeArray) :
    Moves P (w, made ++ ns) ((w.trackAll m made).1, ns) := by
  induction made generalizing w with
  | nil => exact .refl
  | cons n rest ih =>
      have ht := moves_track (P := P) w (rest ++ ns) m n
      unfold trackAll
      split
      · rename_i v a he
        rw [he] at ht
        have hv := ih v
        split <;> rename_i hall <;> rw [hall] at hv <;> exact ht.trans hv
      · rename_i v p he
        rw [he] at ht
        exact ht.trans (moves_lost v rest ns)
      · rename_i v f _ he
        rw [he] at ht
        have hv := moves_discard (P := P) v rest ns
        split <;> rename_i hd <;> rw [hd] at hv <;> exact ht.trans hv

theorem has_of_track {w v : World} {m : ManagerId} {n : NativeArray} {a : ArrayId}
    (h : w.track m n = (v, .ok a)) : v.Has (.array a) := by
  unfold track at h
  simp only at h
  split at h
  · simp only [Prod.mk.injEq, Except.ok.injEq] at h
    obtain ⟨rfl, rfl⟩ := h
    exact has_adopt w n
  · split at h <;> cases h

theorem has_of_trackAll {w v : World} {m : ManagerId} {made : List NativeArray}
    {as : List ArrayId} (h : w.trackAll m made = (v, .ok as)) : ∀ a ∈ as, v.Has (.array a) := by
  induction made generalizing w v as with
  | nil =>
      cases h
      simp
  | cons n rest ih =>
      unfold trackAll at h
      split at h
      · rename_i u a ht
        split at h
        · rename_i u' bs hall
          cases h
          have hs := (moves_trackAll (P := fun _ => True) u m rest []).steady
          rw [hall] at hs
          intro b hb
          rcases List.mem_cons.mp hb with rfl | hb
          · exact hs.has _ (has_of_track ht)
          · exact ih hall b hb
        · cases h
      · cases h
      · split at h <;> cases h

/-! ### Names

What a client gives a name to exists, so its names stay within the world. -/

theorem moves_nameManager {w : World} (hw : w.WellOwned) (ns : List NativeArray) (n : Name)
    {m : ManagerId} (hm : w.Has (.manager m)) : Moves P (w, ns) (w.nameManager n m, ns) := by
  refine (Move.named w ns (w.nameManager n m).client
    ⟨?_, hw.client.arrays, hw.client.resources, hw.client.guards⟩).single
  intro k hk
  rcases Keyed.mem_values_insert hk with rfl | hk
  · exact hm
  · exact hw.client.managers k hk

theorem moves_nameArray {w : World} (hw : w.WellOwned) (ns : List NativeArray) (n : Name)
    {a : ArrayId} (ha : w.Has (.array a)) : Moves P (w, ns) (w.nameArray n a, ns) := by
  refine (Move.named w ns (w.nameArray n a).client
    ⟨hw.client.managers, ?_, hw.client.resources, hw.client.guards⟩).single
  intro b hb
  rcases Keyed.mem_values_insert hb with rfl | hb
  · exact ha
  · exact hw.client.arrays b hb

theorem moves_nameResource {w : World} (hw : w.WellOwned) (ns : List NativeArray) (n : Name)
    {x : Resource} (hx : w.Has x) : Moves P (w, ns) (w.nameResource n x, ns) := by
  refine (Move.named w ns (w.nameResource n x).client
    ⟨hw.client.managers, hw.client.arrays, ?_, hw.client.guards⟩).single
  intro y hy
  rcases Keyed.mem_values_insert hy with rfl | hy
  · exact hx
  · exact hw.client.resources y hy

theorem moves_nameDisplaced {w : World} (hw : w.WellOwned) (ns : List NativeArray)
    (n : Option Name) {x : Option Resource} (hx : ∀ y, x = some y → w.Has y) :
    Moves P (w, ns) (w.nameDisplaced n x, ns) := by
  unfold nameDisplaced
  split
  · exact moves_nameResource hw ns _ (hx _ rfl)
  · exact .refl

theorem moves_setGuards {w : World} (hw : w.WellOwned) (ns : List NativeArray)
    {guards : Keyed Name ManagerId} (hg : ∀ g ∈ guards.values, w.Has (.manager g)) :
    Moves P (w, ns) (w.setGuards guards, ns) :=
  (Move.named w ns (w.setGuards guards).client
    ⟨hw.client.managers, hw.client.arrays, hw.client.resources, hg⟩).single

theorem moves_nameOutputs {w : World} (hw : w.WellOwned) (ns : List NativeArray) (n : Name)
    {as : List ArrayId} (has : ∀ a ∈ as, w.Has (.array a)) :
    Moves P (w, ns) (w.nameOutputs n as, ns) := by
  unfold nameOutputs
  replace has : ∀ p ∈ as.zipIdx, w.Has (.array p.1) :=
    fun p hp => has p.1 (List.fst_mem_of_mem_zipIdx hp)
  generalize as.zipIdx = l at has ⊢
  induction l generalizing w with
  | nil => exact .refl
  | cons p l ih =>
      have hp := moves_nameArray (P := P) hw ns (if p.2 = 0 then n else n ++ "." ++ toString p.2)
        (has p (List.mem_cons_self ..))
      have hrest : ∀ q ∈ l, Has _ (.array q.1) :=
        fun q hq => hp.steady.has _ (has q (List.mem_cons_of_mem _ hq))
      exact hp.trans (ih (hp.wellOwned hw) hrest)

theorem mem_values_of_named {κ : Type} [DecidableEq κ] {α : Type} {t : Keyed κ α} {k : κ}
    {n : Name} {a : α} (h : named (t.get? k) n = .ok a) : a ∈ t.values := by
  unfold named at h
  split at h
  · rename_i b hb
    cases h
    exact Keyed.mem_values_of_get? hb
  · cases h

theorem has_of_managerNamed {w : World} (hw : w.WellOwned) {n : Name} {m : ManagerId}
    (h : w.managerNamed n = .ok m) : w.Has (.manager m) :=
  hw.client.managers m (mem_values_of_named h)

theorem has_of_arrayNamed {w : World} (hw : w.WellOwned) {n : Name} {a : ArrayId}
    (h : w.arrayNamed n = .ok a) : w.Has (.array a) :=
  hw.client.arrays a (mem_values_of_named h)

theorem has_of_guardNamed {w : World} (hw : w.WellOwned) {n : Name} {g : ManagerId}
    (h : w.guardNamed n = .ok g) : w.Has (.manager g) :=
  hw.client.guards g (mem_values_of_named h)

/-- A resource that is mentioned exists, from now on if it is a release hook. -/
theorem moves_resourceNamed {w v : World} (hw : w.WellOwned) (ns : List NativeArray)
    {r : ResourceName} {x : Resource} (h : w.resourceNamed r = .ok (v, x))
    (hr : ∀ cs ∈ r.leaves, P cs) : Moves P (w, ns) (v, ns) ∧ v.Has x := by
  cases r with
  | array n =>
      simp only [resourceNamed, bind_eq_ok, pure, Except.pure, Except.ok.injEq,
        Prod.mk.injEq] at h
      obtain ⟨a, ha, rfl, rfl⟩ := h
      exact ⟨.refl, has_of_arrayNamed hw ha⟩
  | manager n =>
      simp only [resourceNamed, bind_eq_ok, pure, Except.pure, Except.ok.injEq,
        Prod.mk.injEq] at h
      obtain ⟨m, hm, rfl, rfl⟩ := h
      exact ⟨.refl, has_of_managerNamed hw hm⟩
  | saved n =>
      simp only [resourceNamed, bind_eq_ok, pure, Except.pure, Except.ok.injEq,
        Prod.mk.injEq] at h
      obtain ⟨y, hy, rfl, rfl⟩ := h
      exact ⟨.refl, hw.client.resources y (mem_values_of_named hy)⟩
  | hook label work ending =>
      simp only [resourceNamed, Except.ok.injEq, Prod.mk.injEq] at h
      obtain ⟨rfl, rfl⟩ := h
      have hwork := hr work (List.mem_singleton_self _)
      refine ⟨(Move.hook w ns label ⟨work, ending⟩ hwork).single, ?_⟩
      simp [Has, addHook]

/-! ### The engine's answers -/

theorem moves_proceed {w : World} (hw : w.WellOwned) (ns : List NativeArray)
    (next : AfterCallback) : Moves P (w, next.natives ++ ns) ((w.proceed next).1, ns) := by
  cases next with
  | track m n name check =>
      have ht := moves_track (P := P) w ns m n
      simp only [proceed, AfterCallback.natives]
      split
      · rename_i v a he
        have ha := has_of_track he
        rw [he] at ht
        have hn := moves_nameArray (P := P) (ht.wellOwned hw) ns name ha
        exact (ht.trans hn).trans (moves_shownArray _ ns a check)
      · rename_i he
        rw [he] at ht
        exact ht
  | trackAll m operation made name =>
      have hnote := moves_note (P := P) w (made ++ ns) (.invoked m operation made.length)
      have ht := moves_trackAll (P := P) (w.note (.invoked m operation made.length)) m made ns
      simp only [proceed, AfterCallback.natives]
      split
      · rename_i v as he
        have has := has_of_trackAll he
        rw [he] at ht
        have hv := ht.wellOwned (hnote.wellOwned hw)
        have hn := moves_nameOutputs (P := P) hv ns name has
        exact ((hnote.trans ht).trans hn).trans (moves_shownArrays _ ns as)
      · rename_i he
        rw [he] at ht
        exact hnote.trans ht
  | answer r => exact .refl

theorem moves_afterCreate {w : World} (hw : w.WellOwned) (ns : List NativeArray)
    (next : AfterCallback) :
    Moves P (w, next.natives ++ ns)
      ((w.afterCreate next).1, (w.afterCreate next).2.natives ++ ns) := by
  unfold afterCreate
  split
  · refine (Move.armed w _ { w.engine with afterCreate := none } rfl rfl rfl ?_ ?_).single
    · intro c hc
      cases hc
    · intro c hc
      exact Or.inl hc
  · exact moves_proceed hw ns next

theorem moves_afterInvoke {w : World} (hw : w.WellOwned) (ns : List NativeArray)
    (next : AfterCallback) :
    Moves P (w, next.natives ++ ns)
      ((w.afterInvoke next).1, (w.afterInvoke next).2.natives ++ ns) := by
  unfold afterInvoke
  split
  · refine (Move.armed w _ { w.engine with afterInvoke := none } rfl rfl rfl ?_ ?_).single
    · intro c hc
      exact Or.inl hc
    · intro c hc
      cases hc
  · exact moves_proceed hw ns next

theorem moves_performDirect {w : World} (hw : w.WellOwned) (ns : List NativeArray)
    (call : DirectCall) :
    Moves P (w, ns) ((w.performDirect call).1, (w.performDirect call).2.natives ++ ns) := by
  cases call with
  | create r =>
      simp only [performDirect]
      split
      · rename_i v n he
        have hc := (Move.create (P := P) w v ns .client r n he).single
        have hl : Moves P (w, ns) (v, ns) := hc.trans (moves_lost v [n] ns)
        exact hl.trans (moves_afterCreate (hl.wellOwned hw) ns (.answer _))
      · rename_i v f he
        exact (Move.notCreated w v ns .client r f he).single
  | release x =>
      have hr := (Move.release (P := P) w ns x).single
      simp only [performDirect]
      split <;> rename_i he <;> rw [he] at hr <;> exact hr
  | read x => exact (Move.read w ns .client x (fun h => by cases h)).single
  | contains x => exact .refl
  | supports operation => exact .refl
  | invoke operation inputs ps =>
      simp only [performDirect]
      split
      · rename_i v made he
        have hc := (Move.invoke (P := P) w v ns .client operation inputs ps made
          (fun h => by cases h) he).single
        have hl : Moves P (w, ns) (v, ns) := hc.trans (moves_lost v made ns)
        exact hl.trans (moves_afterInvoke (hl.wellOwned hw) ns (.answer _))
      · rename_i v f he
        exact (Move.notInvoked w v ns .client operation inputs ps f
          (fun h => by cases h) he).single
  | invokeInto operation inputs outputs ps =>
      have hr := (Move.invokeInto (P := P) w ns .client operation inputs outputs ps
        (fun h => by cases h)).single
      simp only [performDirect]
      split <;> rename_i he <;> rw [he] at hr <;> exact hr

theorem moves_performAllocate {w : World} (hw : w.WellOwned) (ns : List NativeArray)
    {manager name : Name} {a : Allocation} {check : Option Check} {p : World × Action}
    (h : w.performAllocate manager name a check = .ok p) :
    Moves P (w, ns) (p.1, p.2.natives ++ ns) := by
  simp only [performAllocate, bind_eq_ok] at h
  obtain ⟨m, -, d, -, r, -, h⟩ := h
  split at h
  · rename_i v f he
    cases h
    exact (Move.notCreated w v ns .managers r f he).single
  · rename_i v n he
    cases h
    have hc := (Move.create (P := P) w v ns .managers r n he).single
    exact hc.trans (moves_afterCreate (hc.wellOwned hw) ns (.track m n name check))

theorem moves_performInvoke {w : World} (hw : w.WellOwned) (ns : List NativeArray)
    {manager name : Name} {operation : String} {inputs : List Name} {ps : Params}
    {p : World × Action} (h : w.performInvoke manager operation inputs ps name = .ok p) :
    Moves P (w, ns) (p.1, p.2.natives ++ ns) := by
  simp only [performInvoke, prepareInvoke, bind_eq_ok, mapError_eq_ok] at h
  obtain ⟨m, -, as, -, hs, ⟨-, -, -, -, hlive⟩, h⟩ := h
  have hx := live_of_liveHandles hlive
  split at h
  · rename_i v f he
    cases h
    exact (Move.notInvoked w v ns .managers operation hs ps f (fun _ => hx) he).single
  · rename_i v made he
    cases h
    have hc := (Move.invoke (P := P) w v ns .managers operation hs ps made (fun _ => hx) he).single
    exact hc.trans (moves_afterInvoke (hc.wellOwned hw) ns (.trackAll m operation made name))

theorem moves_performInvokeInto {w : World} (ns : List NativeArray) {manager : Name}
    {operation : String} {inputs outputs : List Name} {ps : Params} {p : World × Action}
    (h : w.performInvokeInto manager operation inputs outputs ps = .ok p) :
    Moves P (w, ns) (p.1, p.2.natives ++ ns) := by
  simp only [performInvokeInto, prepareInvokeInto, bind_eq_ok, mapError_eq_ok, pure, Except.pure,
    Except.ok.injEq] at h
  obtain ⟨-, -, as, -, bs, -, -, ⟨-, -, xs, hxs, ys, hys, rfl⟩, h⟩ := h
  have hr := (Move.invokeInto (P := P) w ns .managers operation xs ys ps ?_).single
  · split at h <;> rename_i he <;> rw [he] at hr <;> cases h
    · exact hr
    · exact hr.trans (moves_readEach _ ns bs)
  · intro _ x hx
    rcases List.mem_append.mp hx with hx | hx
    · exact live_of_liveHandles hxs x hx
    · exact live_of_liveHandles hys x hx

/-! ### All commands -/

theorem has_of_newSub {w v : World} {p c : ManagerId} {d : Option Device}
    (h : w.newSub p d = .ok (v, c)) : v.Has (.manager c) := by
  obtain ⟨r, -, rfl, rfl⟩ := newSub_eq_ok h
  show w.managers.size < ((w.managers.push _).modify _ _).size
  simp

/-- A child is made and named. -/
theorem moves_named_sub {w v : World} (hw : w.WellOwned) (ns : List NativeArray) (n : Name)
    {p c : ManagerId} {d : Option Device} (h : w.newSub p d = .ok (v, c)) :
    Moves P (w, ns) (v.nameManager n c, ns) := by
  have hs := (Move.sub (P := P) w v ns p d c h).single
  exact hs.trans (moves_nameManager (hs.wellOwned hw) ns n (has_of_newSub h))

theorem moves_dropRoots (w : World) (ns : List NativeArray) (registered : Bool)
    (shutdowns : Nat) : Moves P (w, ns) ({ w with registered, shutdowns }.dropRoots, ns) := by
  unfold dropRoots
  split
  · exact (Move.rooted w ns registered shutdowns [] (List.nil_subset _)).single
  · exact (Move.rooted w ns registered shutdowns w.roots (List.Subset.refl _)).single

/-- The engine is told of faults to have. -/
theorem moves_modifyEngine (w : World) (ns : List NativeArray) {f : Engine → Engine}
    (hk : (f w.engine).kind = w.engine.kind) (hh : (f w.engine).host = w.engine.host)
    (hc : (f w.engine).calls = w.engine.calls)
    (hac : (f w.engine).afterCreate = w.engine.afterCreate)
    (hai : (f w.engine).afterInvoke = w.engine.afterInvoke) :
    Moves P (w, ns) (w.modifyEngine f, ns) :=
  (Move.armed w ns (f w.engine) hk hh hc (fun _ h => Or.inl (hac ▸ h))
    (fun _ h => Or.inl (hai ▸ h))).single

theorem moves_attempt {w : World} (hw : w.WellOwned) (ns : List NativeArray)
    {running : List ManagerId} {c : Command} {p : World × Action}
    (h : w.attempt running c = .ok p) (hc : ∀ cs ∈ c.leaves, P cs) :
    Moves P (w, ns) (p.1, p.2.natives ++ ns) := by
  cases c <;> simp only [attempt, performBase, performSub, performClose, performShutdown,
    performReleaseManager, performAttach, performAttachArray, attachArray, performDetach,
    performDetachArray, detachArray, performDetachSub, performKeep, performRelease,
    performIsReleased, performCloseArray, performGuarded, performGuardDrop, performGuardClose,
    performGuardInto, performScope, performFailRelease, performPanicRelease, bind_eq_ok,
    mapError_eq_ok, pure, Except.pure, Except.ok.injEq] at h
  case base name device =>
    obtain ⟨-, -, rfl⟩ := h
    have hb := (Move.base (P := P) w ns (device.getD w.config.defaultDevice)).single
    refine hb.trans (moves_nameManager (hb.wellOwned hw) ns name ?_)
    show w.managers.size < (w.managers.push _).size
    simp
  case sub name _ =>
    obtain ⟨_, -, ⟨v, child⟩, hs, rfl⟩ := h
    exact moves_named_sub hw ns name hs
  case close | releaseManager | closeArray =>
    obtain ⟨_, -, rfl⟩ := h
    exact .refl
  case shutdown =>
    obtain ⟨-, -, rfl⟩ := h
    have hr := (Move.rooted (P := P) w ns w.registered (w.shutdowns + 1) w.roots
      (List.Subset.refl _)).single
    exact hr.trans (moves_note _ ns _)
  case forget name =>
    subst h
    refine (Move.named w ns (w.performForget name).1.client
      ⟨?_, hw.client.arrays, hw.client.resources, hw.client.guards⟩).single
    intro m hm
    exact hw.client.managers m (Keyed.mem_values_erase hm)
  case dropRegistry =>
    subst h
    exact moves_dropRoots w ns false w.shutdowns
  case attach m key resource displaced =>
    obtain ⟨_, -, _, -, ⟨u, x⟩, hx, ⟨v, old⟩, ha, rfl⟩ := h
    obtain ⟨hu, hxu⟩ := moves_resourceNamed (P := P) hw ns hx hc
    have huw := hu.wellOwned hw
    have hv := (Move.attach (P := P) u v ns _ _ x old hxu ha).single
    refine (hu.trans hv).trans (moves_nameDisplaced (hv.wellOwned huw) ns displaced ?_)
    rintro y rfl
    obtain ⟨r, -, hr, hold, -⟩ := attach_eq_ok ha
    have hy := huw.owned _ r (openManager_eq_ok.mp hr).1 y
      (List.mem_append_right _ (Keyed.mem_values_of_get? hold.symm))
    exact hv.steady.has y hy
  case attachArray =>
    obtain ⟨m, -, a, ha, v, ⟨⟨v', old⟩, hv, rfl⟩, rfl⟩ := h
    exact (Move.attach w _ ns m _ _ old (has_of_arrayNamed hw ha) hv).single
  case detach name =>
    obtain ⟨m, -, key, -, rfl⟩ := h
    have hd := (Move.detach (P := P) w ns m key).single
    refine hd.trans (moves_nameDisplaced (hd.wellOwned hw) ns name ?_)
    intro y hy
    refine hd.steady.has y ?_
    rcases detach_cases w m key with hn | ⟨r, x, hr, hx, hs⟩
    · rw [hn] at hy
      cases hy
    · rw [hs] at hy
      obtain rfl := Option.some.inj hy
      exact hw.owned m r (openManager_eq_ok.mp hr).1 x
        (List.mem_append_right _ (Keyed.mem_values_of_get? hx))
  case detachArray =>
    obtain ⟨m, -, a, -, rfl⟩ := h
    exact (Move.detach w ns m (.array a)).single
  case detachSub =>
    obtain ⟨m, -, child, -, rfl⟩ := h
    exact (Move.detachSub w ns m child).single
  case keep name =>
    obtain ⟨⟨v, x⟩, hx, rfl⟩ := h
    obtain ⟨hv, hxv⟩ := moves_resourceNamed (P := P) hw ns hx hc
    exact hv.trans (moves_nameResource (hv.wellOwned hw) ns name hxv)
  case release | isReleased =>
    obtain ⟨⟨v, x⟩, hx, rfl⟩ := h
    exact (moves_resourceNamed (P := P) hw ns hx hc).1
  case guarded name _ =>
    obtain ⟨m, -, ⟨v, child⟩, hs, h⟩ := h
    have hn := moves_named_sub (P := P) hw ns name hs
    have hv := hn.wellOwned hw
    have hchild : v.Has (.manager child) := has_of_newSub hs
    have hg : ∀ g ∈ (v.client.guards.insert name child).values,
        (v.nameManager name child).Has (.manager g) := by
      intro g hg
      rcases Keyed.mem_values_insert hg with rfl | hg
      · exact hchild
      · exact hv.client.guards g hg
    split at h <;> cases h <;> exact hn.trans (moves_setGuards hv ns hg)
  case guardDrop | guardClose | guardInto =>
    obtain ⟨_, -, rfl⟩ := h
    exact moves_setGuards hw ns fun g hg => hw.client.guards g (Keyed.mem_values_erase hg)
  case scope name _ _ _ _ =>
    obtain ⟨m, -, h⟩ := h
    split at h <;> cases h
    · exact .refl
    · rename_i v child hs
      exact moves_named_sub hw ns name hs
  case allocate => exact moves_performAllocate hw ns h
  case invoke => exact moves_performInvoke hw ns h
  case invokeInto => exact moves_performInvokeInto ns h
  case inThread =>
    subst h
    exact .refl
  case spawnClose | concurrentClose =>
    obtain ⟨_, -, rfl⟩ := h
    exact .refl
  case failRelease =>
    obtain ⟨⟨_, r⟩, -, h⟩ := h
    split at h <;> cases h
    · exact .refl
    · dsimp only [Action.answer, Action.natives, List.nil_append]
      refine moves_modifyEngine w ns ?_ ?_ ?_ ?_ ?_ <;> rfl
  case panicRelease =>
    obtain ⟨⟨_, r⟩, -, rfl⟩ := h
    dsimp only [Action.answer, Action.natives, List.nil_append]
    refine moves_modifyEngine w ns ?_ ?_ ?_ ?_ ?_ <;> rfl
  case failCreate =>
    subst h
    dsimp only [Action.answer, Action.natives, List.nil_append]
    refine moves_modifyEngine w ns ?_ ?_ ?_ ?_ ?_ <;> rfl
  case afterCreate label commands =>
    subst h
    refine (Move.armed w ns { w.engine with afterCreate := some ⟨label, commands⟩ }
      rfl rfl rfl ?_ (fun c hc => Or.inl hc)).single
    rintro c ⟨⟩
    exact Or.inr (hc commands (List.mem_singleton_self _))
  case afterInvoke label commands =>
    subst h
    refine (Move.armed w ns { w.engine with afterInvoke := some ⟨label, commands⟩ }
      rfl rfl rfl (fun c hc => Or.inl hc) ?_).single
    rintro c ⟨⟩
    exact Or.inr (hc commands (List.mem_singleton_self _))
  case direct =>
    subst h
    exact moves_performDirect hw ns _
  case ask =>
    subst h
    exact moves_ask w ns running _

/-- Whatever comes of a command, moves have led to it. -/
theorem moves_perform {w : World} (hw : w.WellOwned) (ns : List NativeArray)
    (running : List ManagerId) {c : Command} (hc : ∀ cs ∈ c.leaves, P cs) :
    Moves P (w, ns)
      ((w.perform running c).1, (w.perform running c).2.natives ++ ns) := by
  unfold perform
  split
  · rename_i h
    exact moves_attempt hw ns h hc
  · exact .refl

end World

end ArrayLifetimes
