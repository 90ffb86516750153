/-
The order in which a cascade releases.

In which order the children and the resources of a manager are visited is not fixed.  But
whatever the orders are, the close of a manager attempts the release of every leaf below it,
each once, and what is below a child comes before what the manager itself has.  The state
that is left does not depend on the orders, and it does not depend on which of the releases
fail.
-/
import ArrayLifetimes.Proofs.Cascade.Closes

namespace ArrayLifetimes

namespace Machine

/-- A close visits a tree: it returns with the outcome `o` in the world `v` after it has begun to
release the leaves `zs`, in post-order, and there is no other way for it to go. -/
structure Visits (order : VisitOrder) (i : Nat) (id : ThreadId) (bottom : Stack .outcome)
    (s : Machine) (t : Holding) (zs : List (Label × Resource)) (v : World) (o : Outcome) :
    Prop where
  walk : PostOrder t zs
  tries : Tries order i bottom s (zs.map Prod.snd) ⟨v, s.threads.set i ⟨id, .settle o bottom⟩⟩
  only : ∀ ys u, Tries order i bottom s ys u → u.Returned i bottom →
    ys = zs.map Prod.snd ∧ u = ⟨v, s.threads.set i ⟨id, .settle o bottom⟩⟩
  /-- What the managers ask of the engine are the releases of the arrays, in the same order. -/
  requests : v.coreCalls = s.world.requests (zs.map Prod.snd) ++ s.world.coreCalls
  /-- Each leaf comes once. -/
  once : (zs.map Prod.snd).Nodup
  all : ∀ e, e ∈ zs ↔ e ∈ t.leaves
  /-- All that is below a child comes before each resource of the manager itself. -/
  before : ∀ key m children resources, .manager key m children resources ∈ t.parts →
    ∀ c ∈ children, ∀ r ∈ resources, ∀ x ∈ c.leaves, ∀ y ∈ r.leaves, [x, y].Sublist zs

/-- **Release order of a cascade.**  A tree of managers stands whose leaves are not released.  For
every order of visits the close of its root is a walk in post-order over all leaves, and the
state that it leaves is the same. -/
theorem cascade_order {past : VisitOrder} {kind : EngineKind} {s : Machine}
    (hs : Reachable past kind s) {t : Holding} (ht : s.world.Stands t)
    (unreleased : ∀ e ∈ t.leaves, s.world.isReleased e.2 = false) {m : ManagerId}
    (hm : t.id? = some m) {i : Nat} {id : ThreadId} {bottom : Stack .outcome}
    (hi : s.threads[i]? = some ⟨id, .release (.manager m) bottom⟩) :
    ∃ final : World, ∀ order, ∃ zs v o, Visits order i id bottom s t zs v o ∧ v.bare = final := by
  have hw := hs.apart
  obtain ⟨_, final, _, hfinal⟩ := ht.exists_released past id hw
  refine ⟨final.bare, ?_⟩
  intro order
  obtain ⟨zs, v, o, h⟩ := ht.exists_released order id hw
  have hall : ((zs.map Prod.snd).filter fun x => !s.world.isReleased x) = zs.map Prod.snd := by
    refine List.filter_eq_self.mpr fun x hx => ?_
    obtain ⟨e, he, rfl⟩ := List.mem_map.mp hx
    rw [unreleased e (h.walk.perm.subset he), Bool.not_false]
  have hrun := h.run bottom
  have hrequests := h.asks.core
  rw [Holding.resource_of_id? hm, hall] at hrun
  rw [hall] at hrequests
  have htries := tries_of_runs hrun hi
  have hreturned : (⟨v, s.threads.set i ⟨id, .settle o bottom⟩⟩ : Machine).Returned i bottom :=
    returned_set hi v o
  refine ⟨zs, v, o, ⟨h.walk, htries, ?_, hrequests, ?_, ?_, ?_⟩, h.cleared.bare_eq hfinal.cleared
    (.refl _) (.refl _)⟩
  · intro ys u hu hret
    obtain ⟨hys, htu⟩ := htries.unique hu hreturned hret
    exact ⟨hys.symm, htu.symm⟩
  · exact (h.walk.perm.map Prod.snd).nodup_iff.mpr ht.leaves
  · intro e
    exact h.walk.perm.mem_iff
  · intro key n children resources hn c hc r hr x hx y hy
    exact h.walk.before hn hc hr hx hy

theorem cascade_order_of_failing :
    ∃ final : World, ∀ order, ∃ zs v o,
      Visits order 0 ⟨0⟩ (.release .done .top) failingSession failingTree zs v o ∧
        v.bare = final :=
  cascade_order reachable_failingSession stands_failingSession (by decide) rfl rfl

end Machine

end ArrayLifetimes
