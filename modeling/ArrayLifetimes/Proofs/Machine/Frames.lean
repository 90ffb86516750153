/-
What is on the stack of a thread.

An invariant of a machine relates its world to the work that has been started.  It does so
by a few lists that are read off the stacks: the cascades that run, the threads that
wait for each other, what cascades have yet to release, and the arrays of the engine that
nobody has adopted.  A step changes the top of a stack only, so what it does to these lists
is seen there.
-/
import ArrayLifetimes.Proofs.World.Commands

namespace ArrayLifetimes

/-- Everything in an estate, children first. -/
def Estate.items (e : Estate) : List Resource := e.children.map .manager ++ e.resources.map Prod.snd

/-- An estate is visited in some order. -/
theorem VisitOrder.items_arrange (order : VisitOrder) (m : ManagerId) (e : Estate) :
    (order.arrange m e).items.Perm e.items :=
  ((order.children_perm m e.children).map _).append ((order.resources_perm m e.resources).map _)

namespace Stack

/-- The cascades on a stack, the innermost first, with the threads on which they run. -/
def cascades {want : Want} : Stack want → ThreadId → List (ManagerId × ThreadId)
  | .top, _ | .closer _, _ => []
  | .cascade m _ _ _ below, id => (m, id) :: below.cascades id
  | .release _ below, id | .shutdown _ _ _ below, id => below.cascades id
  | .closers _ _ _ caller below, _ => below.cascades caller
  | .script _ _ _ below, id | .hook _ _ below, id | .callback _ _ below, id => below.cascades id
  | .body _ _ _ below, id => below.cascades id
  | .joined caller below, _ => below.cascades caller

/-- The threads that wait until the work above them is done. -/
def callers {want : Want} : Stack want → List ThreadId
  | .top | .closer _ => []
  | .cascade _ _ _ _ below => below.callers
  | .release _ below | .shutdown _ _ _ below => below.callers
  | .closers _ _ _ caller below => caller :: below.callers
  | .script _ _ _ below | .hook _ _ below | .callback _ _ below => below.callers
  | .body _ _ _ below => below.callers
  | .joined caller below => caller :: below.callers

/-- What the cascades on a stack have yet to release, with the manager that owned it. -/
def owed {want : Want} : Stack want → List (ManagerId × Resource)
  | .top | .closer _ => []
  | .cascade m _ rest _ below => rest.items.map (m, ·) ++ below.owed
  | .release _ below | .shutdown _ _ _ below | .closers _ _ _ _ below => below.owed
  | .script _ _ _ below | .hook _ _ below | .callback _ _ below => below.owed
  | .body _ _ _ below | .joined _ below => below.owed

/-- The arrays of the engine that wait for callbacks to end. -/
def natives {want : Want} : Stack want → List NativeArray
  | .top | .closer _ => []
  | .cascade _ _ _ _ below => below.natives
  | .release _ below | .shutdown _ _ _ below | .closers _ _ _ _ below => below.natives
  | .callback _ next below => next.natives ++ below.natives
  | .script _ _ _ below | .hook _ _ below => below.natives
  | .body _ _ _ below | .joined _ below => below.natives

/-- A stack and all stacks below. -/
def parts {want : Want} : Stack want → List (Sigma Stack)
  | .top => [⟨_, .top⟩]
  | .closer m => [⟨_, .closer m⟩]
  | .cascade m item rest failures below => ⟨_, .cascade m item rest failures below⟩ :: below.parts
  | .release next below => ⟨_, .release next below⟩ :: below.parts
  | .shutdown root rest failures below => ⟨_, .shutdown root rest failures below⟩ :: below.parts
  | .closers m left replies caller below => ⟨_, .closers m left replies caller below⟩ :: below.parts
  | .script rest replies propagate below =>
    ⟨_, .script rest replies propagate below⟩ :: below.parts
  | .hook label ending below => ⟨_, .hook label ending below⟩ :: below.parts
  | .callback label next below => ⟨_, .callback label next below⟩ :: below.parts
  | .body p m ending below => ⟨_, .body p m ending below⟩ :: below.parts
  | .joined caller below => ⟨_, .joined caller below⟩ :: below.parts

/-- What a cascade loses when the release of a resource that it asked for is done. -/
def claim : Stack .outcome → Resource → List (ManagerId × Resource)
  | .cascade m _ _ _ _, x => [(m, x)]
  | _, _ => []

theorem self_mem_parts {want : Want} (σ : Stack want) : ⟨want, σ⟩ ∈ σ.parts := by
  cases σ <;> exact List.mem_cons_self ..

end Stack

namespace Task

def cascades : Task → ThreadId → List (ManagerId × ThreadId)
  | .sweep m _ _ below, id => (m, id) :: below.cascades id
  | .closers _ _ _ caller below, _ => below.cascades caller
  | .release _ below, id | .settle _ below, id => below.cascades id
  | .shutdown _ _ below, id | .perform _ below, id | .reply _ below, id => below.cascades id
  | .script _ _ _ below, id | .finish _ _ below, id => below.cascades id

def callers : Task → List ThreadId
  | .closers _ _ _ caller below => caller :: below.callers
  | .release _ below | .settle _ below | .sweep _ _ _ below => below.callers
  | .shutdown _ _ below | .perform _ below | .reply _ below => below.callers
  | .script _ _ _ below | .finish _ _ below => below.callers

def owed : Task → List (ManagerId × Resource)
  | .release x below => below.claim x ++ below.owed
  | .sweep m rest _ below => rest.items.map (m, ·) ++ below.owed
  | .settle _ below => below.owed
  | .shutdown _ _ below | .closers _ _ _ _ below | .perform _ below | .reply _ below => below.owed
  | .script _ _ _ below | .finish _ _ below => below.owed

def natives : Task → List NativeArray
  | .release _ below | .settle _ below | .sweep _ _ _ below => below.natives
  | .shutdown _ _ below | .closers _ _ _ _ below | .perform _ below => below.natives
  | .reply _ below => below.natives
  | .script _ _ _ below | .finish _ _ below => below.natives

def parts : Task → List (Sigma Stack)
  | .release _ below | .settle _ below | .sweep _ _ _ below => below.parts
  | .shutdown _ _ below | .closers _ _ _ _ below | .perform _ below => below.parts
  | .reply _ below => below.parts
  | .script _ _ _ below | .finish _ _ below => below.parts

/-- The stack whose top the task takes away. -/
def pops : Task → Option (Sigma Stack)
  | .settle _ below => some ⟨_, below⟩
  | .reply _ below => some ⟨_, below⟩
  | .finish _ _ below => some ⟨_, below⟩
  | _ => none

end Task

namespace Thread

/-- The cascades that run on a thread, the innermost first. -/
def cascades (t : Thread) : List (ManagerId × ThreadId) := t.task.cascades t.id

/-- A thread and those that wait for it. -/
def ids (t : Thread) : List ThreadId := t.id :: t.task.callers

def owed (t : Thread) : List (ManagerId × Resource) := t.task.owed

def natives (t : Thread) : List NativeArray := t.task.natives

end Thread

/-! ### Cascades and what they owe

A cascade runs on the thread itself or on one that waits for it, and only a cascade that
runs owes something. -/

theorem Stack.mem_callers_of_cascades {want : Want} {σ : Stack want} {id k : ThreadId}
    {m : ManagerId} (h : (m, k) ∈ σ.cascades id) : k = id ∨ k ∈ σ.callers := by
  induction σ generalizing id with
  | top | closer => cases h
  | cascade n item rest failures below ih =>
      rcases List.mem_cons.mp h with h | h
      · exact Or.inl (Prod.mk.inj h).2
      · exact ih h
  | closers n left replies caller below ih | joined caller below ih =>
      refine Or.inr (List.mem_cons.mpr ?_)
      exact ih h
  | _ => 
      rename_i ih
      exact ih h

theorem Thread.mem_ids_of_cascades {t : Thread} {m : ManagerId} {k : ThreadId}
    (h : (m, k) ∈ t.cascades) : k ∈ t.ids := by
  obtain ⟨id, task⟩ := t
  refine List.mem_cons.mpr ?_
  cases task with
  | sweep n rest failures below =>
      rcases List.mem_cons.mp h with h | h
      · exact Or.inl (Prod.mk.inj h).2
      · exact Stack.mem_callers_of_cascades h
  | closers n left replies caller below =>
      exact Or.inr (List.mem_cons.mpr (Stack.mem_callers_of_cascades h))
  | _ => exact Stack.mem_callers_of_cascades h

/-- Which cascades are on a stack does not depend on the thread. -/
theorem Stack.cascades_fst {want : Want} (σ : Stack want) (j k : ThreadId) :
    (σ.cascades j).map Prod.fst = (σ.cascades k).map Prod.fst := by
  induction σ with
  | top | closer => rfl
  | cascade n item rest failures below ih => exact congrArg (n :: ·) ih
  | closers n left replies caller below ih | joined caller below ih => rfl
  | _ =>
      rename_i ih
      exact ih

theorem Stack.not_mem_cascades {want : Want} {σ : Stack want} {m : ManagerId} {j : ThreadId}
    (h : ∀ l, (m, l) ∉ σ.cascades j) (k l : ThreadId) : (m, l) ∉ σ.cascades k := by
  intro hl
  have hmem : m ∈ (σ.cascades j).map Prod.fst := by
    rw [σ.cascades_fst j k]
    exact List.mem_map_of_mem hl
  obtain ⟨⟨n, l'⟩, hn, rfl⟩ := List.mem_map.mp hmem
  exact h l' hn

theorem Stack.cascade_of_owed {want : Want} {σ : Stack want} {m : ManagerId} {x : Resource}
    (h : (m, x) ∈ σ.owed) (id : ThreadId) : ∃ k, (m, k) ∈ σ.cascades id := by
  induction σ generalizing id with
  | top | closer => cases h
  | cascade n item rest failures below ih =>
      rcases List.mem_append.mp h with h | h
      · obtain ⟨y, -, hy⟩ := List.mem_map.mp h
        obtain rfl := (Prod.mk.inj hy).1
        exact ⟨id, List.mem_cons_self ..⟩
      · obtain ⟨k, hk⟩ := ih h id
        exact ⟨k, List.mem_cons_of_mem _ hk⟩
  | closers n left replies caller below ih | joined caller below ih => exact ih h caller
  | _ =>
      rename_i ih
      exact ih h id

theorem Thread.cascade_of_owed {t : Thread} {m : ManagerId} {x : Resource}
    (h : (m, x) ∈ t.owed) : ∃ k, (m, k) ∈ t.cascades := by
  obtain ⟨id, task⟩ := t
  cases task with
  | release y below =>
      rcases List.mem_append.mp h with h | h
      · cases below with
        | cascade n item rest failures below =>
            obtain rfl := (Prod.mk.inj (List.mem_singleton.mp h)).1
            exact ⟨id, List.mem_cons_self ..⟩
        | _ => cases h
      · exact Stack.cascade_of_owed h id
  | sweep n rest failures below =>
      rcases List.mem_append.mp h with h | h
      · obtain ⟨y, -, hy⟩ := List.mem_map.mp h
        obtain rfl := (Prod.mk.inj hy).1
        exact ⟨id, List.mem_cons_self ..⟩
      · obtain ⟨k, hk⟩ := Stack.cascade_of_owed h id
        exact ⟨k, List.mem_cons_of_mem _ hk⟩
  | closers n left replies caller below => exact Stack.cascade_of_owed h caller
  | _ => exact Stack.cascade_of_owed h id

end ArrayLifetimes
