/-
What a manager holds, as a tree.

The leaves of the tree are arrays and release hooks.  A manager in it has its children and
what is attached to it, which may be managers again.  The tree says nothing of a world: it
is what a cascade is going to walk over.

A cascade walks over a manager's children and over its resources in any order, but over the
children first.  `PostOrder` says which sequences of leaves come of that.
-/
import ArrayLifetimes.World.Manager
import Mathlib.Data.List.Basic
import Mathlib.Data.List.Nodup
import Mathlib.Data.List.Pairwise
import Mathlib.Data.List.Perm.Basic

namespace ArrayLifetimes

/-- What is held under a key.  A child of a manager is held without one, so the key that it has
here means nothing. -/
inductive Holding where
  | leaf (key : Label) (resource : Resource)
  | manager (key : Label) (id : ManagerId) (children resources : List Holding)

namespace Holding

def key : Holding → Label
  | leaf key _ => key
  | manager key _ _ _ => key

def resource : Holding → Resource
  | leaf _ x => x
  | manager _ m _ _ => .manager m

/-- The manager at the root of the tree. -/
def id? : Holding → Option ManagerId
  | leaf _ _ => none
  | manager _ m _ _ => some m

/-- The leaf, with its key, if the tree is just that. -/
def leaf? : Holding → Option (Label × Resource)
  | leaf key x => some (key, x)
  | manager _ _ _ _ => none

mutual

/-- Everything in the tree, as trees: the tree itself comes first. -/
def parts : Holding → List Holding
  | leaf key x => [leaf key x]
  | manager key m children resources =>
    manager key m children resources :: (partsAll children ++ partsAll resources)

def partsAll : List Holding → List Holding
  | [] => []
  | t :: ts => parts t ++ partsAll ts

end

/-- The managers in the tree. -/
def ids (t : Holding) : List ManagerId := t.parts.filterMap id?

/-- The leaves of the tree, each with the key that it has in the manager it is attached to. -/
def leaves (t : Holding) : List (Label × Resource) := t.parts.filterMap leaf?

theorem partsAll_eq (ts : List Holding) : partsAll ts = ts.flatMap parts := by
  induction ts with
  | nil => rfl
  | cons t ts ih => rw [partsAll, ih, List.flatMap_cons]

section Parts

variable (key : Label) (x : Resource) (m : ManagerId) (children resources : List Holding)

@[simp] theorem parts_leaf : (leaf key x).parts = [leaf key x] := rfl

@[simp] theorem parts_manager : (manager key m children resources).parts =
    manager key m children resources :: (children ++ resources).flatMap parts := by
  rw [parts, partsAll_eq, partsAll_eq, List.flatMap_append]

@[simp] theorem ids_manager :
    (manager key m children resources).ids = m :: (children ++ resources).flatMap ids := by
  simp only [ids, parts_manager, List.filterMap_cons, id?, List.filterMap_flatMap]
  rfl

@[simp] theorem leaves_leaf : (leaf key x).leaves = [(key, x)] := rfl

@[simp] theorem leaves_manager :
    (manager key m children resources).leaves = (children ++ resources).flatMap leaves := by
  simp only [leaves, parts_manager, List.filterMap_cons, leaf?, List.filterMap_flatMap]
  rfl

end Parts

/-- Induction over the tree: a fact about a manager may use it of its children and resources. -/
@[induction_eliminator]
theorem induct {P : Holding → Prop} (leaf : ∀ key x, P (.leaf key x))
    (manager : ∀ key m children resources, (∀ t ∈ children ++ resources, P t) →
      P (.manager key m children resources)) : ∀ t, P t
  | .leaf key x => leaf key x
  | .manager key m children resources =>
    manager key m children resources fun t ht =>
      have : sizeOf t < sizeOf (Holding.manager key m children resources) := by
        have hsize := Holding.manager.sizeOf_spec key m children resources
        rcases List.mem_append.mp ht with ht | ht
        · have := List.sizeOf_lt_of_mem ht
          omega
        · have := List.sizeOf_lt_of_mem ht
          omega
      induct leaf manager t
termination_by t => sizeOf t
decreasing_by exact this

/-! ### Parts of parts -/

theorem mem_parts_self (t : Holding) : t ∈ t.parts := by
  cases t with
  | leaf key x => simp
  | manager key m children resources => simp

/-- A child or resource, and all that is below it, is part of the tree. -/
theorem parts_sublist_of_mem {t : Holding} {key : Label} {m : ManagerId}
    {children resources : List Holding} (ht : t ∈ children ++ resources) :
    t.parts.Sublist (manager key m children resources).parts := by
  rw [parts_manager, List.flatMap_def]
  exact (List.sublist_flatten_of_mem (List.mem_map_of_mem ht)).cons _

theorem parts_sublist {s t : Holding} (h : s ∈ t.parts) : s.parts.Sublist t.parts := by
  induction t with
  | leaf key x =>
      rw [parts_leaf, List.mem_singleton] at h
      rw [h]
  | manager key m children resources ih =>
      rw [parts_manager, List.mem_cons, List.mem_flatMap] at h
      rcases h with rfl | ⟨t, ht, hs⟩
      · exact List.Sublist.refl _
      · exact (ih t ht hs).trans (parts_sublist_of_mem ht)

theorem ids_sublist {s t : Holding} (h : s ∈ t.parts) : s.ids.Sublist t.ids :=
  (parts_sublist h).filterMap _

theorem leaves_sublist {s t : Holding} (h : s ∈ t.parts) : s.leaves.Sublist t.leaves :=
  (parts_sublist h).filterMap _

theorem mem_ids {t : Holding} {m : ManagerId} :
    m ∈ t.ids ↔ ∃ key children resources, manager key m children resources ∈ t.parts := by
  rw [ids, List.mem_filterMap]
  constructor
  · rintro ⟨s, hs, hm⟩
    cases s with
    | leaf key x => cases hm
    | manager key n children resources =>
        cases hm
        exact ⟨key, children, resources, hs⟩
  · rintro ⟨key, children, resources, h⟩
    exact ⟨_, h, rfl⟩

theorem mem_ids_of_id? {t : Holding} {m : ManagerId} (h : t.id? = some m) : m ∈ t.ids :=
  List.mem_filterMap.mpr ⟨t, t.mem_parts_self, h⟩

theorem resource_of_id? {t : Holding} {m : ManagerId} (h : t.id? = some m) :
    t.resource = .manager m := by
  cases t with
  | leaf key x => cases h
  | manager key n children resources =>
      cases h
      rfl

/-- A manager that is at one place in the tree only has one holding there. -/
theorem eq_of_id? {t p q : Holding} (h : t.ids.Nodup) (hp : p ∈ t.parts) (hq : q ∈ t.parts)
    {m : ManagerId} (hpm : p.id? = some m) (hqm : q.id? = some m) : p = q := by
  let apart : Holding → Holding → Prop := fun p q => ∀ m, p.id? = some m → q.id? ≠ some m
  have : Std.Symm apart := ⟨fun _ _ h m hq hp => h m hp hq⟩
  have hpairs : t.parts.Pairwise apart := by
    refine (List.pairwise_filterMap.mp h).imp ?_
    rintro p q hpq m hp hq
    exact hpq m hp m hq rfl
  by_contra hne
  exact hpairs.forall hp hq hne m hpm hqm

theorem mem_leaves {t : Holding} {key : Label} {x : Resource} :
    (key, x) ∈ t.leaves ↔ leaf key x ∈ t.parts := by
  rw [leaves, List.mem_filterMap]
  constructor
  · rintro ⟨s, hs, hx⟩
    cases s with
    | leaf key x =>
        cases hx
        exact hs
    | manager key m children resources => cases hx
  · intro h
    exact ⟨_, h, rfl⟩

end Holding

/-! ### Walks -/

mutual

/-- The leaves of a tree in an order in which a cascade may come to them: all that is below the
children of a manager, one child after the other, then its resources. -/
inductive PostOrder : Holding → List (Label × Resource) → Prop
  | leaf (key : Label) (x : Resource) : PostOrder (.leaf key x) [(key, x)]
  | manager (key : Label) (m : ManagerId) {children resources visited attached : List Holding}
      {below own : List (Label × Resource)} (hc : visited.Perm children)
      (hr : attached.Perm resources) (hb : PostOrders visited below)
      (ho : PostOrders attached own) :
      PostOrder (.manager key m children resources) (below ++ own)

/-- One tree after the other. -/
inductive PostOrders : List Holding → List (Label × Resource) → Prop
  | nil : PostOrders [] []
  | cons {t : Holding} {ts : List Holding} {xs ys : List (Label × Resource)}
      (head : PostOrder t xs) (tail : PostOrders ts ys) : PostOrders (t :: ts) (xs ++ ys)

end

theorem PostOrders.append {ts us : List Holding} {xs ys : List (Label × Resource)}
    (ht : PostOrders ts xs) (hu : PostOrders us ys) : PostOrders (ts ++ us) (xs ++ ys) := by
  induction ts generalizing xs with
  | nil =>
      cases ht
      exact hu
  | cons t ts ih =>
      cases ht with
      | cons head tail =>
          rw [List.append_assoc]
          exact .cons head (ih tail)

theorem PostOrders.of_append {ts us : List Holding} {zs : List (Label × Resource)}
    (h : PostOrders (ts ++ us) zs) :
    ∃ xs ys, zs = xs ++ ys ∧ PostOrders ts xs ∧ PostOrders us ys := by
  induction ts generalizing zs with
  | nil => exact ⟨[], zs, rfl, .nil, h⟩
  | cons t ts ih =>
      cases h with
      | cons head tail =>
          obtain ⟨xs, ys, rfl, hxs, hys⟩ := ih tail
          exact ⟨_ ++ xs, ys, (List.append_assoc ..).symm, .cons head hxs, hys⟩

/-- The walk over one of the trees is part of the walk over all. -/
theorem PostOrders.exists_sublist {ts : List Holding} {xs : List (Label × Resource)}
    (h : PostOrders ts xs) {t : Holding} (ht : t ∈ ts) :
    ∃ ys, PostOrder t ys ∧ ys.Sublist xs := by
  induction ts generalizing xs with
  | nil => cases ht
  | cons u ts ih =>
      cases h with
      | cons head tail =>
          rcases List.mem_cons.mp ht with rfl | ht
          · exact ⟨_, head, List.sublist_append_left ..⟩
          · obtain ⟨ys, hys, hsub⟩ := ih tail ht
            exact ⟨ys, hys, hsub.trans (List.sublist_append_right ..)⟩

theorem PostOrders.perm_of_forall {ts : List Holding} {xs : List (Label × Resource)}
    (h : PostOrders ts xs)
    (ht : ∀ t ∈ ts, ∀ ys, PostOrder t ys → ys.Perm t.leaves) :
    xs.Perm (ts.flatMap Holding.leaves) := by
  induction ts generalizing xs with
  | nil =>
      cases h
      exact .refl _
  | cons t ts ih =>
      cases h with
      | cons head tail =>
          exact (ht t (List.mem_cons_self ..) _ head).append
            (ih tail fun u hu => ht u (List.mem_cons_of_mem _ hu))

/-- **A walk comes to every leaf once.** -/
theorem PostOrder.perm {t : Holding} {xs : List (Label × Resource)} (h : PostOrder t xs) :
    xs.Perm t.leaves := by
  induction t generalizing xs with
  | leaf key x =>
      cases h
      exact .refl _
  | manager key m children resources ih =>
      cases h with
      | manager _ _ hc hr hb ho =>
          rw [Holding.leaves_manager, List.flatMap_append]
          have below := hb.perm_of_forall fun t ht ys =>
            ih t (List.mem_append_left _ (hc.subset ht))
          have own := ho.perm_of_forall fun t ht ys =>
            ih t (List.mem_append_right _ (hr.subset ht))
          exact (below.trans (hc.flatMap_right _)).append (own.trans (hr.flatMap_right _))

theorem PostOrders.perm {ts : List Holding} {xs : List (Label × Resource)}
    (h : PostOrders ts xs) : xs.Perm (ts.flatMap Holding.leaves) :=
  h.perm_of_forall fun _ _ _ => PostOrder.perm

theorem postOrders_of_forall {ts : List Holding} (h : ∀ t ∈ ts, PostOrder t t.leaves) :
    PostOrders ts (ts.flatMap Holding.leaves) := by
  induction ts with
  | nil => exact .nil
  | cons t ts ih =>
      exact .cons (h t (List.mem_cons_self ..)) (ih fun u hu => h u (List.mem_cons_of_mem _ hu))

/-- One of the walks visits everything in the order in which the tree lists it. -/
theorem postOrder_leaves (t : Holding) : PostOrder t t.leaves := by
  induction t with
  | leaf key x => exact .leaf key x
  | manager key m children resources ih =>
      rw [Holding.leaves_manager, List.flatMap_append]
      exact .manager key m (.refl _) (.refl _)
        (postOrders_of_forall fun t ht => ih t (List.mem_append_left _ ht))
        (postOrders_of_forall fun t ht => ih t (List.mem_append_right _ ht))

theorem postOrders_leaves (ts : List Holding) : PostOrders ts (ts.flatMap Holding.leaves) :=
  postOrders_of_forall fun t _ => postOrder_leaves t

/-- **What is below a child of a manager comes before the resources of the manager.** -/
theorem PostOrder.before {t : Holding} {xs : List (Label × Resource)} (h : PostOrder t xs)
    {key : Label} {m : ManagerId} {children resources : List Holding}
    (hm : .manager key m children resources ∈ t.parts) {c r : Holding} (hc : c ∈ children)
    (hr : r ∈ resources) {x y : Label × Resource} (hx : x ∈ c.leaves) (hy : y ∈ r.leaves) :
    [x, y].Sublist xs := by
  induction t generalizing xs with
  | leaf k z =>
      rw [Holding.parts_leaf, List.mem_singleton] at hm
      cases hm
  | manager k n cs rs ih =>
      cases h with
      | manager _ _ hcs hrs hb ho =>
          rw [Holding.parts_manager, List.mem_cons, List.mem_flatMap] at hm
          rcases hm with hm | ⟨u, hu, hm⟩
          · cases hm
            have hxb := hb.perm.mem_iff.mpr (List.mem_flatMap.mpr ⟨c, hcs.mem_iff.mpr hc, hx⟩)
            have hyo := ho.perm.mem_iff.mpr (List.mem_flatMap.mpr ⟨r, hrs.mem_iff.mpr hr, hy⟩)
            exact (List.singleton_sublist.mpr hxb).append (List.singleton_sublist.mpr hyo)
          · rcases List.mem_append.mp hu with hu' | hu'
            · obtain ⟨ys, hys, hsub⟩ := hb.exists_sublist (hcs.mem_iff.mpr hu')
              exact (ih u hu hys hm).trans (hsub.trans (List.sublist_append_left ..))
            · obtain ⟨ys, hys, hsub⟩ := ho.exists_sublist (hrs.mem_iff.mpr hu')
              exact (ih u hu hys hm).trans (hsub.trans (List.sublist_append_right ..))

end ArrayLifetimes
