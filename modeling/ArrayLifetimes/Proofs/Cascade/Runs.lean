/-
Cascades, from their begin to their end.

A close of a manager goes on by steps of its thread until it hands an outcome to the stack
that waits for it.  `Runs` is such a chain of steps, with the leaves whose release is begun on
the way.  The theorem is about any tree that stands in the world: the close comes to its end,
it comes to the leaves in post-order, its effect is that the tree is cleared, and it reports
the failures of the leaves, each as it would fail on its own.

The proof follows the tree.  For a manager, the cascade is a loop over its children and then
its resources; every item leaves the others as they were.
-/
import ArrayLifetimes.Machine.Step
import ArrayLifetimes.Proofs.Cascade.Stands
import ArrayLifetimes.Proofs.World.Commands

namespace ArrayLifetimes

/-- The leaf whose release a thread is about to begin, if it has not begun before. -/
def World.attempted (w : World) : Task → List Resource
  | .release (.array a) _ => [.array a].filter fun x => !w.isReleased x
  | .release (.hook h) _ => [.hook h].filter fun x => !w.isReleased x
  | _ => []

/-- The task is not the end of a release that a stack of at most the given size waits for. -/
def Task.Busy (size : Nat) : Task → Prop
  | .settle _ below => size < sizeOf below
  | _ => True

theorem Task.Busy.mono {size larger : Nat} {task : Task} (h : task.Busy larger)
    (hle : size ≤ larger) : task.Busy size := by
  cases task with
  | settle o below => exact Nat.lt_of_le_of_lt hle h
  | _ => trivial

/-- Steps of one thread above a stack of the given size, with the releases that they begin. -/
inductive Runs (order : VisitOrder) (id : ThreadId) (size : Nat) :
    World → Task → List Resource → World → Task → Prop
  | refl (w : World) (task : Task) : Runs order id size w task [] w task
  | step {w u v : World} {task next last : Task} {xs : List Resource} (busy : task.Busy size)
      (h : ∀ running, (⟨id, task⟩ : Thread).step order w running = .next u ⟨id, next⟩ [])
      (rest : Runs order id size u next xs v last) :
      Runs order id size w task (w.attempted task ++ xs) v last

section Runs

variable {order : VisitOrder} {id : ThreadId} {size : Nat} {w u v : World}
  {task next last : Task} {xs ys : List Resource}

theorem Runs.trans (h : Runs order id size w task xs u next)
    (h' : Runs order id size u next ys v last) : Runs order id size w task (xs ++ ys) v last := by
  induction h with
  | refl w task => exact h'
  | step busy hs _ ih =>
      rw [List.append_assoc]
      exact .step busy hs (ih h')

theorem Runs.mono {larger : Nat} (h : Runs order id larger w task xs v last)
    (hle : size ≤ larger) : Runs order id size w task xs v last := by
  induction h with
  | refl w task => exact .refl w task
  | step busy hs _ ih => exact .step (busy.mono hle) hs ih

theorem Runs.single (busy : task.Busy size)
    (h : ∀ running, (⟨id, task⟩ : Thread).step order w running = .next u ⟨id, next⟩ []) :
    Runs order id size w task (w.attempted task) u next := by
  have hrun := Runs.step busy h (.refl u next)
  rwa [List.append_nil] at hrun

end Runs

/-! ### What is reported -/

/-- The failures that an outcome counts as, for what is held under the key. -/
def Outcome.failures (o : Outcome) (key : Label) : ReleaseFailures :=
  match o.error? with
  | none => []
  | some e => ReleaseFailures.record [] key e

namespace Outcome

theorem failures_ofFailures (fs : ReleaseFailures) (key : Label) :
    (ofFailures fs).failures key = fs := by
  cases fs <;> rfl

end Outcome

theorem ReleaseFailures.record_eq (fs : ReleaseFailures) (key : Label) (e : ManagerError) :
    fs.record key e = fs ++ ReleaseFailures.record [] key e := by
  cases e <;> rfl

namespace World

theorem recordItem_failures (w : World) (m : ManagerId) (fs : ReleaseFailures) (o : Outcome)
    (item : Item) : (w.recordItem m fs o item).2 = fs ++ o.failures item.key := by
  cases item with
  | child c =>
      simp only [recordItem, Outcome.failures]
      cases o.error? with
      | none => exact (List.append_nil fs).symm
      | some e => exact ReleaseFailures.record_eq fs _ e
  | resource key =>
      simp only [recordItem, Outcome.failures]
      cases o.error? with
      | none => exact (List.append_nil fs).symm
      | some e => exact ReleaseFailures.record_eq fs _ e

theorem recordItem_noted (w : World) (m : ManagerId) (fs : ReleaseFailures) (o : Outcome)
    (item : Item) : (w.recordItem m fs o item).1 = w ∨
      ∃ e, (w.recordItem m fs o item).1 = w.note e := by
  cases item with
  | child c =>
      refine Or.inl ?_
      simp only [recordItem]
      split <;> rfl
  | resource key =>
      simp only [recordItem]
      split
      · split
        · exact Or.inr ⟨_, rfl⟩
        · exact Or.inl rfl
      · exact Or.inr ⟨_, rfl⟩

theorem bare_recordItem (w : World) (m : ManagerId) (fs : ReleaseFailures) (o : Outcome)
    (item : Item) : (w.recordItem m fs o item).1.bare = w.bare := by
  rcases w.recordItem_noted m fs o item with h | ⟨e, h⟩ <;> rw [h]
  rfl

theorem Asks.recordItem {w v : World} {xs : List Resource} (h : w.Asks xs v) (m : ManagerId)
    (fs : ReleaseFailures) (o : Outcome) (item : Item) :
    w.Asks xs (v.recordItem m fs o item).1 := by
  rcases v.recordItem_noted m fs o item with hv | ⟨e, hv⟩ <;> rw [hv]
  · exact h
  · exact ⟨h.core, h.engine⟩

/-- A leaf fails on its own, not with a list of failures. -/
theorem failures_outcomeOf (w : World) (e : Label × Resource) :
    (w.outcomeOf e.2).failures e.1 = [e].filterMap w.failure? := by
  have ofEngine : ∀ answer : Except EngineFault Unit,
      (Outcome.ofEngine answer).failures e.1 = (((Outcome.ofEngine answer).error?).map fun error =>
        ReleaseFailure.mk e.1 error.code error.phrase).toList := by
    intro answer
    rcases answer with (error | p) | ⟨⟩
    · rfl
    · cases p <;> rfl
    · rfl
  have hlist : [e].filterMap w.failure? = (w.failure? e).toList := by
    cases h : w.failure? e <;> simp [h]
  rw [hlist, failure?]
  cases hx : e.2 with
  | manager m => rfl
  | array a =>
      rw [outcomeOf_array]
      split
      · rfl
      · split
        · rfl
        · exact ofEngine _
  | hook g =>
      simp only [outcomeOf]
      split
      · rename_i label work _
        cases hending : work.ending with
        | succeed => rfl
        | fail error => rfl
        | panic p => cases p <;> rfl
      · rfl

end World

/-! ### One release -/

/-- A release comes to its end, whatever waits for it.  `zs` are the leaves in the order in which
it comes to them. -/
structure Released (order : VisitOrder) (id : ThreadId) (w : World) (t : Holding)
    (zs : List (Label × Resource)) (v : World) (o : Outcome) : Prop where
  walk : PostOrder t zs
  run : ∀ below, Runs order id (sizeOf below) w (.release t.resource below)
    ((zs.map Prod.snd).filter fun x => !w.isReleased x) v (.settle o below)
  cleared : w.Cleared (w.opens t) (w.pending t) v
  asks : w.Asks ((zs.map Prod.snd).filter fun x => !w.isReleased x) v
  failures : w.Settled (w.pending t) → o.failures t.key = zs.filterMap w.failure?
  manager : ∀ m, t.id? = some m → ∃ fs, o = .ofFailures fs

/-! ### Leaves -/

section Leaf

variable (order : VisitOrder) (id : ThreadId) {w : World} (key : Label)

theorem released_array {a : ArrayId} (ha : w.Has (.array a)) :
    Released order id w (.leaf key (.array a)) [(key, .array a)] (w.releaseArray a).1
      (w.outcomeOf (.array a)) := by
  have hcleared : w.Cleared [] ([.array a].filter fun x => !w.isReleased x) (w.releaseArray a).1 ∧
      w.Asks ([.array a].filter fun x => !w.isReleased x) (w.releaseArray a).1 := by
    obtain ⟨r, hr⟩ := World.exists_of_has_array ha
    rcases w.releaseArray_cases a with ⟨hv, -, hreleased⟩ | ⟨q, hq, hpending, heard⟩
    · have hrel : w.isReleased (.array a) = true := by
        simpa [World.isReleased, hr] using hreleased r hr
      rw [hv]
      simpa [hrel] using ⟨World.Cleared.refl w, World.Asks.refl w⟩
    · have hrel : w.isReleased (.array a) = false := by
        simpa [World.isReleased, hq] using hpending
      have hasks : w.Asks [.array a] (w.releaseArray a).1 := by
        rw [← List.append_nil [Resource.array a]]
        refine ⟨?_, ?_⟩
        · rw [heard.coreCalls, List.append_nil, World.requests_array hq]
          rfl
        · rw [heard.calls, List.append_nil, World.requests_array hq]
          rfl
      exact ⟨by simpa [hrel] using World.cleared_releaseArray ha hrel, by simpa [hrel] using hasks⟩
  exact ⟨.leaf key _, fun _ => Runs.single trivial fun _ => rfl, hcleared.1, hcleared.2,
    fun _ => w.failures_outcomeOf (key, .array a), (fun m hm => by cases hm)⟩

/-- A release hook whose work has been done does nothing. -/
theorem released_spent {h : HookId} {label : String} (hr : w.hook? h = some ⟨label, none⟩) :
    Released order id w (.leaf key (.hook h)) [(key, .hook h)] w (w.outcomeOf (.hook h)) := by
  have hrel : w.isReleased (.hook h) = true := by
    simp [World.isReleased, hr]
  have hstep : ∀ below running,
      (⟨id, .release (.hook h) below⟩ : Thread).step order w running =
        .next w ⟨id, .settle .ok below⟩ [] := by
    intro below running
    simp only [Thread.step, Thread.release, hr]
  refine ⟨.leaf key _, ?_, ?_, ?_, fun _ => w.failures_outcomeOf (key, .hook h),
    (fun m hm => by cases hm)⟩
  · intro below
    rw [World.outcomeOf_of_released hrel]
    exact Runs.single trivial (hstep below)
  · have hpending : w.pending (.leaf key (.hook h)) = [] := by
      simp [World.pending, hrel]
    rw [hpending]
    exact World.Cleared.refl w
  · simpa [hrel] using World.Asks.refl w

/-- A release hook without commands ends at once: its work is taken out, and the empty list of
commands has run. -/
theorem released_quiet {h : HookId} {label : String} {ending : HookEnd}
    (hr : w.hook? h = some ⟨label, some ⟨[], ending⟩⟩) :
    Released order id w (.leaf key (.hook h)) [(key, .hook h)]
      ((w.takeHook h).record (.ran label [])) (w.outcomeOf (.hook h)) := by
  have hrel : w.isReleased (.hook h) = false := by
    simp [World.isReleased, hr]
  have houtcome : w.outcomeOf (.hook h) = ending.outcome := by
    simp only [World.outcomeOf, hr]
  have hstep : ∀ below running,
      (⟨id, .release (.hook h) below⟩ : Thread).step order w running =
        .next (w.takeHook h) ⟨id, .script [] [] false (.hook label ending below)⟩ [] := by
    intro below running
    simp only [Thread.step, Thread.release, hr]
  refine ⟨.leaf key _, ?_, ?_, ?_, fun _ => w.failures_outcomeOf (key, .hook h),
    (fun m hm => by cases hm)⟩
  · intro below
    have htaken : Runs order id (sizeOf below) w (.release (.hook h) below)
        (w.attempted (.release (.hook h) below)) (w.takeHook h)
        (.script [] [] false (.hook label ending below)) := Runs.single trivial (hstep below)
    have hscript : Runs order id (sizeOf below) (w.takeHook h)
        (.script [] [] false (.hook label ending below)) [] (w.takeHook h)
        (.finish [] none (.hook label ending below)) := Runs.single trivial fun _ => rfl
    have hfinish : Runs order id (sizeOf below) (w.takeHook h)
        (.finish [] none (.hook label ending below)) []
        ((w.takeHook h).record (.ran label [])) (.settle ending.outcome below) :=
      Runs.single trivial fun _ => rfl
    have hrun := htaken.trans (hscript.trans hfinish)
    rw [List.append_nil, List.append_nil] at hrun
    rw [houtcome]
    exact hrun
  · have hpending : w.pending (.leaf key (.hook h)) = [.hook h] := by
      simp [World.pending, hrel]
    rw [hpending]
    exact (World.cleared_takeHook w h).of_bare rfl
  · have hfilter : (([(key, Resource.hook h)].map Prod.snd).filter fun x => !w.isReleased x) =
        [.hook h] := by simp [hrel]
    rw [hfilter]
    exact ⟨rfl, rfl⟩

theorem exists_released_hook {h : HookId} {r : Hook} (hr : w.hook? h = some r)
    (quiet : ∀ work, r.work = some work → work.commands = []) :
    ∃ zs v o, Released order id w (.leaf key (.hook h)) zs v o := by
  obtain ⟨label, work⟩ := r
  cases work with
  | none => exact ⟨_, _, _, released_spent order id key hr⟩
  | some work =>
      obtain ⟨commands, ending⟩ := work
      have hcommands : commands = [] := quiet _ rfl
      subst hcommands
      exact ⟨_, _, _, released_quiet order id key hr⟩

end Leaf

/-! ### The loop of a cascade -/

/-- The trees of what a cascade has still to visit, in its order. -/
inductive Estate.Lists : Estate → List Holding → Prop
  | done : Lists ⟨[], []⟩ []
  | resource (t : Holding) {resources : List (Label × Resource)} {ts : List Holding}
      (h : Lists ⟨[], resources⟩ ts) : Lists ⟨[], (t.key, t.resource) :: resources⟩ (t :: ts)
  | child (t : Holding) {c : ManagerId} (ht : t.id? = some c) {children : List ManagerId}
      {resources : List (Label × Resource)} {ts : List Holding}
      (h : Lists ⟨children, resources⟩ ts) : Lists ⟨c :: children, resources⟩ (t :: ts)

/-- The loop of a cascade comes to its end. -/
structure Swept (order : VisitOrder) (id : ThreadId) (w : World) (m : ManagerId) (e : Estate)
    (ts : List Holding) (zs : List (Label × Resource)) (v : World) (fs : ReleaseFailures) :
    Prop where
  walk : PostOrders ts zs
  run : ∀ failures below, Runs order id (sizeOf below) w (.sweep m e failures below)
    ((zs.map Prod.snd).filter fun x => !w.isReleased x) v
    (.sweep m ⟨[], []⟩ (failures ++ fs) below)
  cleared : w.Cleared (ts.flatMap w.opens) (ts.flatMap w.pending) v
  asks : w.Asks ((zs.map Prod.snd).filter fun x => !w.isReleased x) v
  failures : w.Settled (ts.flatMap w.pending) → fs = zs.filterMap w.failure?

section Sweep

variable {order : VisitOrder} {id : ThreadId} {w : World}

/-- A cascade visits one item and goes on. -/
theorem Released.visit {t : Holding} {zs : List (Label × Resource)} {v : World} {o : Outcome}
    (h : Released order id w t zs v o) (m : ManagerId) {item : Item}
    (hkey : o.failures item.key = o.failures t.key) :
    ∃ u, w.Cleared (w.opens t) (w.pending t) u ∧
      w.Asks ((zs.map Prod.snd).filter fun x => !w.isReleased x) u ∧ ∀ rest failures below,
      Runs order id (sizeOf below) w
        (.release t.resource (.cascade m item rest failures below))
        ((zs.map Prod.snd).filter fun x => !w.isReleased x) u
        (.sweep m rest (failures ++ o.failures t.key) below) := by
  refine ⟨_, h.cleared.of_bare (v.bare_recordItem m [] o item), h.asks.recordItem m [] o item, ?_⟩
  intro rest failures below
  have hsize : sizeOf below < sizeOf (Stack.cascade m item rest failures below) := by
    simp only [Stack.cascade.sizeOf_spec]
    omega
  -- What is noted of an item does not depend on the failures before it.
  have hnoted : (v.recordItem m failures o item).1 = (v.recordItem m [] o item).1 := by
    cases item <;> simp only [World.recordItem] <;> split <;> rfl
  have hstep : ∀ running,
      (⟨id, .settle o (.cascade m item rest failures below)⟩ : Thread).step order v running =
        .next (v.recordItem m failures o item).1
          ⟨id, .sweep m rest (v.recordItem m failures o item).2 below⟩ [] := fun _ => rfl
  rw [World.recordItem_failures, hkey, hnoted] at hstep
  have hrun := ((h.run _).mono (Nat.le_of_lt hsize)).trans (Runs.single hsize hstep)
  rwa [show v.attempted (.settle o (.cascade m item rest failures below)) = [] from rfl,
    List.append_nil] at hrun

/-- What one item does is followed by what the others do. -/
theorem Swept.cons (item : Item) {m : ManagerId} {e rest : Estate} {t : Holding}
    {ts : List Holding} {xs : List (Label × Resource)} {v : World} {o : Outcome}
    (hstep : ∀ failures below running,
      (⟨id, .sweep m e failures below⟩ : Thread).step order w running =
        .next w ⟨id, .release t.resource (.cascade m item rest failures below)⟩ [])
    (h : Released order id w t xs v o) (hkey : o.failures item.key = o.failures t.key)
    (hw : w.Apart) (hts : ∀ u ∈ ts, w.Stands u)
    (hids : ((t :: ts).flatMap Holding.ids).Nodup)
    (hleaves : (((t :: ts).flatMap Holding.leaves).map Prod.snd).Nodup)
    (hrest : ∀ u : World, u.Apart → (∀ s ∈ ts, u.Stands s) →
      ∃ ys v gs, Swept order id u m rest ts ys v gs) :
    ∃ ys v gs, Swept order id w m e (t :: ts) ys v gs := by
  obtain ⟨u, hu, hasks, hrun⟩ := h.visit m hkey
  have apart := World.not_mem_pending_beside (w := w) hleaves
  have alike := hu.alike_beside hleaves hts hids
  obtain ⟨ys, v', gs, hswept⟩ := hrest u (hu.apart hw) fun s hs => (alike s hs).stands
  have same : ∀ x ∈ ys, ∃ s ∈ ts, x ∈ s.leaves := fun x hx =>
    List.mem_flatMap.mp (hswept.walk.perm.subset hx)
  have hattempts : ((ys.map Prod.snd).filter fun x => !u.isReleased x) =
      (ys.map Prod.snd).filter fun x => !w.isReleased x := by
    refine List.filter_congr fun x hx => ?_
    obtain ⟨y, hy, rfl⟩ := List.mem_map.mp hx
    obtain ⟨s, hs, hys⟩ := same y hy
    rw [(alike s hs).released y hys]
  have hruns := hswept.run
  have hcleared := hswept.cleared
  have hlater := hswept.asks
  rw [hattempts] at hruns hlater
  rw [List.flatMap_congr fun s hs => (alike s hs).opens,
    List.flatMap_congr fun s hs => (alike s hs).pending] at hcleared
  refine ⟨xs ++ ys, v', o.failures t.key ++ gs, .cons h.walk hswept.walk, ?_, ?_, ?_, ?_⟩
  · intro failures below
    rw [List.map_append, List.filter_append, ← List.append_assoc]
    exact .step trivial (hstep failures below)
      ((hrun rest failures below).trans (hruns (failures ++ o.failures t.key) below))
  · rw [List.flatMap_cons, List.flatMap_cons]
    refine hu.trans hcleared hw ?_
    intro y hy hyp
    obtain ⟨s, hs, hys⟩ := List.mem_flatMap.mp hy
    obtain ⟨z, hz, rfl⟩ := List.mem_map.mp (List.mem_filter.mp hys).1
    exact apart s hs z hz hyp
  · rw [List.map_append, List.filter_append]
    exact hasks.trans hlater (hu.requests _)
  · intro hs
    rw [List.flatMap_cons] at hs
    have hpending := (h.walk.perm.map Prod.snd).filter fun x => !w.isReleased x
    have hafter := hs.after hu hasks hpending
    rw [← List.flatMap_congr fun s hs => (alike s hs).pending] at hafter
    rw [List.filterMap_append, ← h.failures (hs.mono (List.sublist_append_left ..).subperm),
      hswept.failures hafter]
    refine congrArg _ (List.filterMap_congr fun y hy => ?_)
    obtain ⟨s, hst, hys⟩ := same y hy
    refine hu.failure? hw hasks hpending hs (apart s hst y hys) fun hyr => ?_
    refine List.mem_flatMap.mpr ⟨s, hst, List.mem_filter.mpr ⟨List.mem_map_of_mem hys, ?_⟩⟩
    rw [hyr, Bool.not_false]

/-- **The loop comes to all items**, if each of them can be released. -/
theorem exists_swept {m : ManagerId} {e : Estate} {ts : List Holding}
    (he : e.Lists ts) (hitems : ∀ t ∈ ts, ∀ u : World, u.Apart → u.Stands t →
      ∃ zs v o, Released order id u t zs v o)
    (hids : (ts.flatMap Holding.ids).Nodup)
    (hleaves : ((ts.flatMap Holding.leaves).map Prod.snd).Nodup) (w : World) (hw : w.Apart)
    (hts : ∀ t ∈ ts, w.Stands t) : ∃ ys v gs, Swept order id w m e ts ys v gs := by
  induction he generalizing w with
  | done =>
      refine ⟨[], w, [], .nil, ?_, .refl w, .refl w, fun _ => rfl⟩
      intro failures below
      rw [List.append_nil]
      exact .refl _ _
  | @resource t resources ts h ih =>
      have hrest := ih (fun s hs => hitems s (List.mem_cons_of_mem _ hs))
        (by rw [List.flatMap_cons] at hids; exact hids.of_append_right)
        (by rw [List.flatMap_cons, List.map_append] at hleaves; exact hleaves.of_append_right)
      obtain ⟨xs, v, o, hreleased⟩ :=
        hitems t (List.mem_cons_self ..) w hw (hts t (List.mem_cons_self ..))
      exact Swept.cons (.resource t.key) (fun _ _ _ => rfl) hreleased rfl hw
        (fun s hs => hts s (List.mem_cons_of_mem _ hs)) hids hleaves hrest
  | @child t c hc children resources ts h ih =>
      have hrest := ih (fun s hs => hitems s (List.mem_cons_of_mem _ hs))
        (by rw [List.flatMap_cons] at hids; exact hids.of_append_right)
        (by rw [List.flatMap_cons, List.map_append] at hleaves; exact hleaves.of_append_right)
      obtain ⟨xs, v, o, hreleased⟩ :=
        hitems t (List.mem_cons_self ..) w hw (hts t (List.mem_cons_self ..))
      obtain ⟨fs, rfl⟩ := hreleased.manager c hc
      refine Swept.cons (.child c) (fun _ _ _ => ?_) hreleased ?_ hw
        (fun s hs => hts s (List.mem_cons_of_mem _ hs)) hids hleaves hrest
      · rw [Holding.resource_of_id? hc]
        rfl
      · rw [Outcome.failures_ofFailures, Outcome.failures_ofFailures]

end Sweep

/-! ### Managers -/

theorem Estate.lists_of_forall₂ {cs : List ManagerId} {es : List (Label × Resource)}
    {children resources : List Holding}
    (hc : List.Forall₂ (fun c t => Holding.id? t = some c) cs children)
    (hr : List.Forall₂ (fun x t => x = (Holding.key t, Holding.resource t)) es resources) :
    Estate.Lists ⟨cs, es⟩ (children ++ resources) := by
  induction hc with
  | cons h _ ih => exact .child _ h ih
  | nil =>
      induction hr with
      | nil => exact .done
      | cons h _ ih =>
          subst h
          exact .resource _ ih

/-- The cascade of an open manager visits its children and resources, in some order. -/
theorem exists_lists (order : VisitOrder) (m : ManagerId) {r : Manager}
    {kept resources : List Holding} (hc : r.children.map some = kept.map Holding.id?)
    (hx : r.resources.entries = resources.map fun t => (t.key, t.resource)) :
    ∃ visited attached : List Holding, visited.Perm kept ∧ attached.Perm resources ∧
      (order.arrange m ⟨r.children, r.resources.entries⟩).Lists (visited ++ attached) := by
  have hkept : List.Forall₂ (fun c t => Holding.id? t = some c) r.children kept := by
    have heq := List.forall₂_eq_eq_eq.symm ▸ hc
    rw [List.forall₂_map_left_iff, List.forall₂_map_right_iff] at heq
    exact heq.imp fun _ _ => Eq.symm
  have hres : List.Forall₂ (fun x t => x = (Holding.key t, Holding.resource t))
      r.resources.entries resources := by
    have heq := List.forall₂_eq_eq_eq.symm ▸ hx
    rwa [List.forall₂_map_right_iff] at heq
  obtain ⟨visited, hv, hvp⟩ := List.perm_comp_forall₂ (order.children_perm m r.children) hkept
  obtain ⟨attached, ha, hap⟩ :=
    List.perm_comp_forall₂ (order.resources_perm m r.resources.entries) hres
  exact ⟨visited, attached, hvp, hap, Estate.lists_of_forall₂ hv ha⟩

section Manager

variable (order : VisitOrder) (id : ThreadId) {w : World} {key : Label} {m : ManagerId}
  {children resources : List Holding}

/-- What is released has no more part in a cascade. -/
theorem World.nothing_of_released {zs : List (Label × Resource)}
    (h : ∀ e ∈ zs, w.isReleased e.2 = true) :
    ((zs.map Prod.snd).filter fun x => !w.isReleased x) = [] ∧ zs.filterMap w.failure? = [] := by
  refine ⟨List.filter_eq_nil_iff.mpr fun x hx => ?_,
    List.filterMap_eq_nil_iff.mpr fun e he => World.failure?_of_released (h e he)⟩
  obtain ⟨e, he, rfl⟩ := List.mem_map.mp hx
  rw [h e he]
  nofun

theorem released_closed (ht : w.Stands (.manager key m children resources))
    (hm : w.isReleased (.manager m) = true) :
    Released order id w (.manager key m children resources)
      (Holding.manager key m children resources).leaves w .ok := by
  obtain ⟨r, hr, hl⟩ := World.lifecycle?_eq_some.mp (World.isReleased_manager.mp hm)
  have hstep : ∀ below running,
      (⟨id, .release (.manager m) below⟩ : Thread).step order w running =
        .next w ⟨id, .settle .ok below⟩ [] := by
    intro below running
    simp only [Thread.step, Thread.release, hr, hl]
  obtain ⟨hattempts, hfailures⟩ := World.nothing_of_released (ht.released hm).2
  refine ⟨postOrder_leaves _, ?_, ?_, ?_, fun _ => hfailures.symm, fun _ _ => ⟨[], rfl⟩⟩
  · intro below
    rw [hattempts]
    exact Runs.single trivial (hstep below)
  · rw [World.opens_eq_nil ht hm, World.pending_eq_nil ht hm]
    exact .refl w
  · rw [hattempts]
    exact .refl w

/-- Everything that an open manager of the tree holds is an item of its cascade, or closed. -/
theorem exists_items (ht : w.Stands (.manager key m children resources))
    {r : Manager} {kept : List Holding} (hk : kept.Sublist children)
    (hc : r.children.map some = kept.map Holding.id?)
    (gone : ∀ c ∈ children, c ∈ kept ∨ w.isReleased c.resource = true)
    (hx : r.resources.entries = resources.map fun t => (t.key, t.resource)) :
    ∃ missing visited attached : List Holding, (missing ++ visited).Perm children ∧
      attached.Perm resources ∧ (∀ c ∈ missing, w.isReleased c.resource = true) ∧
      (order.arrange m ⟨r.children, r.resources.entries⟩).Lists (visited ++ attached) := by
  obtain ⟨visited, attached, hv, ha, hlists⟩ := exists_lists order m hc hx
  obtain ⟨missing, hmissing⟩ := hk.exists_perm_append
  refine ⟨missing, visited, attached, ?_, ha,
    World.released_of_missing ht.nodup_children_ids hmissing hc gone, hlists⟩
  exact (hv.append_left missing).trans (List.perm_append_comm.trans hmissing.symm)

/-- Lists over what a manager holds need not mention what has nothing to list. -/
theorem perm_flatMap_of_missing {α : Type} {f : Holding → List α} {ts missing items : List Holding}
    (hperm : ts.Perm (missing ++ items)) (hf : ∀ c ∈ missing, f c = []) :
    (items.flatMap f).Perm (ts.flatMap f) := by
  have hsplit : (missing ++ items).flatMap f = items.flatMap f := by
    rw [List.flatMap_append, List.flatMap_eq_nil_iff.mpr hf, List.nil_append]
  rw [← hsplit]
  exact (hperm.flatMap_right f).symm

theorem step_release_opened {r : Manager} (hr : w.openManager m = .ok r) (below : Stack .outcome)
    (running : List ManagerId) :
    (⟨id, .release (.manager m) below⟩ : Thread).step order w running =
      .next (w.beginClose m r id).1
        ⟨id, .sweep m (order.arrange m ⟨r.children, r.resources.entries⟩) [] below⟩ [] := by
  obtain ⟨hw, ho⟩ := World.openManager_eq_ok.mp hr
  simp only [Thread.step, Thread.release, hw, ho]
  rfl

/-- The leaves that the cascade of a manager releases are those of its items. -/
theorem perm_pending (ht : w.Stands (.manager key m children resources))
    {missing items : List Holding} (hperm : (children ++ resources).Perm (missing ++ items))
    (hmissed : ∀ c ∈ missing, w.isReleased c.resource = true) :
    (items.flatMap w.pending).Perm (w.pending (.manager key m children resources)) := by
  rw [World.pending_manager]
  refine perm_flatMap_of_missing hperm fun c hc => ?_
  exact World.pending_eq_nil (ht.of_mem (hperm.mem_iff.mpr (List.mem_append_left _ hc)))
    (hmissed c hc)

/-- What the loop has cleared and the manager itself are cleared by the close. -/
theorem Swept.cleared_close (ht : w.Stands (.manager key m children resources)) {r : Manager}
    (hr : w.openManager m = .ok r) {missing items : List Holding}
    (hperm : (children ++ resources).Perm (missing ++ items))
    (hmissed : ∀ c ∈ missing, w.isReleased c.resource = true) {e : Estate}
    {ys : List (Label × Resource)} {v : World} {gs : ReleaseFailures}
    (h : Swept order id (w.beginClose m r id).1 m e items ys v gs) :
    w.Cleared (w.opens (.manager key m children resources))
      (w.pending (.manager key m children resources)) (v.endCascade m gs).1 := by
  obtain ⟨hw, ho⟩ := World.openManager_eq_ok.mp hr
  have stands : ∀ c ∈ missing, w.Stands c := fun c hc =>
    ht.of_mem (hperm.mem_iff.mpr (List.mem_append_left _ hc))
  have hcleared := h.cleared
  rw [List.flatMap_congr fun t _ => World.opens_beginClose id hr t,
    List.flatMap_congr fun t _ => World.pending_beginClose id hr t] at hcleared
  have hm : m ∉ items.flatMap w.opens := by
    intro hmem
    obtain ⟨t, hts, hmt⟩ := List.mem_flatMap.mp hmem
    exact ht.not_mem_ids (hperm.mem_iff.mpr (List.mem_append_right _ hts))
      (List.mem_filter.mp hmt).1
  have hopen : w.isReleased (.manager m) = false := by
    simp [World.isReleased, hw, ho, Manager.state, Lifecycle.state]
  refine (World.Cleared.close hr hcleared hm gs).perm ?_ (perm_pending ht hperm hmissed)
  rw [World.opens_manager, List.filter_singleton, hopen, Bool.not_false, cond_true,
    List.singleton_append]
  exact (perm_flatMap_of_missing hperm fun c hc =>
    World.opens_eq_nil (stands c hc) (hmissed c hc)).cons m

/-- When the loop has come to its end, so does the close. -/
theorem Swept.close (ht : w.Stands (.manager key m children resources)) {r : Manager}
    (hr : w.openManager m = .ok r) {missing visited attached : List Holding}
    (hv : (missing ++ visited).Perm children) (ha : attached.Perm resources)
    (hmissed : ∀ c ∈ missing, w.isReleased c.resource = true)
    {ys : List (Label × Resource)} {v : World} {gs : ReleaseFailures}
    (h : Swept order id (w.beginClose m r id).1 m
      (order.arrange m ⟨r.children, r.resources.entries⟩) (visited ++ attached) ys v gs) :
    ∃ zs v o, Released order id w (.manager key m children resources) zs v o := by
  have hperm : (children ++ resources).Perm (missing ++ (visited ++ attached)) := by
    rw [← List.append_assoc]
    exact hv.symm.append ha.symm
  obtain ⟨under, own, rfl, hunder, hown⟩ := h.walk.of_append
  -- The walk also names the leaves below closed children; their releases are not attempted.
  have hmissing : ∀ e ∈ missing.flatMap Holding.leaves, w.isReleased e.2 = true := by
    intro e he
    obtain ⟨c, hc, he⟩ := List.mem_flatMap.mp he
    have hmem : c ∈ children ++ resources := hperm.mem_iff.mpr (List.mem_append_left _ hc)
    exact ((ht.of_mem hmem).released (hmissed c hc)).2 e he
  obtain ⟨hnone, hnofail⟩ := World.nothing_of_released hmissing
  have hattempts : ((missing.flatMap Holding.leaves ++ under ++ own).map Prod.snd).filter
      (fun x => !w.isReleased x) =
        ((under ++ own).map Prod.snd).filter fun x => !(w.beginClose m r id).1.isReleased x := by
    simp only [World.isReleased_beginClose id hr]
    rw [List.append_assoc, List.map_append, List.filter_append, hnone, List.nil_append]
  have hfailures : (missing.flatMap Holding.leaves ++ under ++ own).filterMap w.failure? =
      (under ++ own).filterMap (w.beginClose m r id).1.failure? := by
    rw [List.append_assoc, List.filterMap_append, hnofail, List.nil_append]
    exact List.filterMap_congr fun e _ => (World.failure?_beginClose w m r id e).symm
  have hlast : ∀ below running,
      (⟨id, .sweep m ⟨[], []⟩ ([] ++ gs) below⟩ : Thread).step order v running =
        .next (v.endCascade m gs).1 ⟨id, .settle (.ofFailures gs) below⟩ [] := fun _ _ => rfl
  refine ⟨missing.flatMap Holding.leaves ++ under ++ own, (v.endCascade m gs).1, .ofFailures gs,
    .manager key m hv ha ((postOrders_leaves missing).append hunder) hown, ?_,
    h.cleared_close order id ht hr hperm hmissed, ?_, ?_, fun _ _ => ⟨gs, rfl⟩⟩
  · intro below
    rw [hattempts]
    have hrun := (h.run [] below).trans (Runs.single trivial (hlast below))
    rw [show v.attempted (.sweep m ⟨[], []⟩ ([] ++ gs) below) = [] from rfl,
      List.append_nil] at hrun
    exact .step trivial (step_release_opened order id hr below) hrun
  · rw [hattempts]
    have hhas := World.has_manager_of (World.openManager_eq_ok.mp hr).1
    have hended := World.ended_endCascade (h.cleared.has (World.has_beginClose w m r id _ hhas)) gs
    exact ⟨hended.coreCalls.trans h.asks.core,
      (congrArg Engine.calls hended.engine).trans h.asks.engine⟩
  · intro hs
    have hpending := perm_pending ht hperm hmissed
    rw [← List.flatMap_congr fun t _ => World.pending_beginClose id hr t] at hpending
    have hitems := hs.mono hpending.subperm
    rw [Outcome.failures_ofFailures, h.failures hitems, hfailures]

/-- The cascade of an open manager runs if what it holds can be released. -/
theorem exists_released_opened (ht : w.Stands (.manager key m children resources)) (hw : w.Apart)
    {r : Manager} {kept : List Holding} (hr : w.openManager m = .ok r)
    (hk : kept.Sublist children) (hc : r.children.map some = kept.map Holding.id?)
    (gone : ∀ c ∈ children, c ∈ kept ∨ w.isReleased c.resource = true)
    (hx : r.resources.entries = resources.map fun t => (t.key, t.resource))
    (ih : ∀ t ∈ children ++ resources, ∀ u : World, u.Apart → u.Stands t →
      ∃ zs v o, Released order id u t zs v o) :
    ∃ zs v o, Released order id w (.manager key m children resources) zs v o := by
  obtain ⟨missing, visited, attached, hv, ha, hmissed, hlists⟩ := exists_items order ht hk hc gone hx
  have hperm : (children ++ resources).Perm (missing ++ (visited ++ attached)) := by
    rw [← List.append_assoc]
    exact hv.symm.append ha.symm
  have hitem : ∀ t ∈ visited ++ attached, t ∈ children ++ resources :=
    fun t hts => hperm.mem_iff.mpr (List.mem_append_right _ hts)
  have hstands : ∀ t ∈ visited ++ attached, (w.beginClose m r id).1.Stands t := fun t hts =>
    (ht.of_mem (hitem t hts)).beginClose id hr (ht.not_mem_ids (hitem t hts))
  have hidsItems : ((visited ++ attached).flatMap Holding.ids).Nodup := by
    have hall := (hperm.flatMap_right Holding.ids).nodup_iff.mp ht.nodup_ids
    rw [List.flatMap_append] at hall
    exact hall.of_append_right
  have hleavesItems : (((visited ++ attached).flatMap Holding.leaves).map Prod.snd).Nodup := by
    have hall := ((hperm.flatMap_right Holding.leaves).map Prod.snd).nodup_iff.mp ht.nodup_leaves
    rw [List.flatMap_append, List.map_append] at hall
    exact hall.of_append_right
  obtain ⟨ys, v, gs, hswept⟩ := exists_swept (m := m) hlists (fun t hts => ih t (hitem t hts))
    hidsItems hleavesItems (w.beginClose m r id).1 (fun a b p q => hw a b p q) hstands
  exact hswept.close order id ht hr hv ha hmissed

end Manager

/-- **Whatever stands can be released**, in any order of visits. -/
theorem World.Stands.exists_released (order : VisitOrder) (id : ThreadId) {w : World} {t : Holding}
    (ht : w.Stands t) (hw : w.Apart) : ∃ zs v o, Released order id w t zs v o := by
  induction t generalizing w with
  | leaf key x =>
      cases ht.fits _ (Holding.mem_parts_self _) with
      | array _ a ha => exact ⟨_, _, _, released_array order id key ha⟩
      | hook _ g r hr quiet => exact exists_released_hook order id key hr quiet
  | manager key m children resources ih =>
      cases ht.fits _ (Holding.mem_parts_self _) with
      | opened _ _ r hr hk hc gone hx =>
          exact exists_released_opened order id ht hw hr hk hc gone hx fun t htm u hu hst =>
            ih t htm hst hu
      | closed _ _ hm below => exact ⟨_, _, _, released_closed order id ht hm⟩

end ArrayLifetimes
