/-
What a snapshot shows.

A snapshot is taken by recursion over the lists of children.  Nothing in a list of children says
that this ends, or that it comes to no manager twice.  It is the forest that says so: a child is
younger than its parent, is a child of nobody else, and is not a root.

`Shows` is what there is to say about one tree: every node is true of its manager, and has one node
below it for each child.  It mentions neither how the tree was made nor a bound on its depth, and
leaves open in which order keys and identities come: that is a `Listing`.  `Mirrors` says it of
all trees of the registry, with what follows for the managers in them and for the total.  At most
one snapshot does that in a given order.
-/
import ArrayLifetimes.Proofs.World.Household
import ArrayLifetimes.Session.Order

namespace ArrayLifetimes

/-- What comes before what in a list of identities and in a list of keys. -/
structure Listing where
  manager : ManagerId → ManagerId → Prop
  key : Label → Label → Prop
  manager_asymm : ∀ {m n}, manager m n → ¬ manager n m
  key_asymm : ∀ {k l}, key k l → ¬ key l k

theorem Label.le_trans (k l m : Label) (h : k.le l = true) (h' : l.le m = true) :
    k.le m = true := by
  cases k <;> cases l <;> cases m <;>
    simp only [Label.le, decide_eq_true_eq, Bool.false_eq_true] at h h' ⊢
  · exact String.le_trans h h'
  · exact Nat.le_trans h h'
  · exact Nat.le_trans h h'

theorem Label.le_total (k l : Label) : (k.le l || l.le k) = true := by
  cases k <;> cases l <;> simp only [Label.le, Bool.or_eq_true, decide_eq_true_eq, true_or, or_true]
  · exact String.le_total _ _
  · exact Nat.le_total _ _
  · exact Nat.le_total _ _

theorem Label.le_antisymm {k l : Label} (h : k.le l = true) (h' : l.le k = true) : k = l := by
  cases k <;> cases l <;> simp only [Label.le, decide_eq_true_eq, Bool.false_eq_true] at h h'
  · rw [String.le_antisymm h h']
  · exact congrArg _ (congrArg ManagerId.mk (Nat.le_antisymm h h'))
  · exact congrArg _ (congrArg ArrayId.mk (Nat.le_antisymm h h'))

namespace Listing

/-- The order of a world: by the numbers of identities. -/
def byAge : Listing where
  manager m n := m.index < n.index
  key k l := k.le l = true ∧ k ≠ l
  manager_asymm := Nat.lt_asymm
  key_asymm := fun ⟨h, hne⟩ ⟨h', _⟩ => hne (Label.le_antisymm h h')

/-- The order of texts. -/
def byText (naming : Naming) : Listing where
  manager m n := naming.manager m < naming.manager n
  key k l := k.render naming < l.render naming
  manager_asymm := String.lt_asymm
  key_asymm := String.lt_asymm

end Listing

/-! ### Sorting -/

section Sorting

variable {α : Type}

theorem nodup_of_pairwise {r : α → α → Prop} (asymm : ∀ {a b}, r a b → ¬ r b a) {xs : List α}
    (h : xs.Pairwise r) : xs.Nodup := by
  apply h.imp
  rintro a b hab rfl
  exact asymm hab hab

/-- There is one way to list things in a strict order. -/
theorem eq_of_perm_of_pairwise {r : α → α → Prop} (asymm : ∀ {a b}, r a b → ¬ r b a)
    {xs ys zs : List α} (hx : xs.Pairwise r) (hy : ys.Pairwise r) (hxz : xs.Perm zs)
    (hyz : ys.Perm zs) : xs = ys :=
  List.Perm.eq_of_pairwise (fun _ _ _ _ h h' => absurd h' (asymm h)) hx hy (hxz.trans hyz.symm)

/-- What a key tells apart is strictly sorted by it. -/
theorem pairwise_mergeSort_key {κ : Type} [LE κ] [LT κ] [DecidableLE κ] [Std.IsLinearOrder κ]
    [Std.LawfulOrderLT κ] {key : α → κ} {xs : List α} (hn : (xs.map key).Nodup) :
    (xs.mergeSort fun a b => decide (key a ≤ key b)).Pairwise fun a b => key a < key b := by
  have hsorted : (xs.mergeSort fun a b => decide (key a ≤ key b)).Pairwise fun a b =>
      decide (key a ≤ key b) = true := by
    refine List.pairwise_mergeSort ?_ ?_ xs
    · intro a b c h h'
      simp only [decide_eq_true_eq] at h h' ⊢
      exact Std.le_trans h h'
    · intro a b
      simpa only [Bool.or_eq_true, decide_eq_true_eq] using Std.le_total
  have hkeys : ((xs.mergeSort fun a b => decide (key a ≤ key b)).map key).Nodup :=
    ((List.mergeSort_perm xs _).map key).nodup_iff.mpr hn
  refine (hsorted.and (List.pairwise_map.mp hkeys)).imp ?_
  rintro a b ⟨hle, hne⟩
  exact Std.lt_of_le_of_ne (of_decide_eq_true hle) hne

theorem sortedIds_perm (ids : List ManagerId) : (sortedIds ids).Perm ids := List.mergeSort_perm _ _

theorem pairwise_sortedIds {ids : List ManagerId} (hn : ids.Nodup) :
    (sortedIds ids).Pairwise Listing.byAge.manager := by
  have hinj : Function.Injective ManagerId.index := fun ⟨_⟩ ⟨_⟩ h => congrArg ManagerId.mk h
  exact pairwise_mergeSort_key (hn.map hinj)

theorem pairwise_sortedKeys {r : Manager} (hn : r.resources.keys.Nodup) :
    r.sortedKeys.Pairwise Listing.byAge.key :=
  (List.pairwise_mergeSort Label.le_trans Label.le_total _).and
    ((List.mergeSort_perm _ _).nodup_iff.mpr hn)

end Sorting

namespace World

/-- The number of resources that a manager has. -/
def resourceCount (w : World) (m : ManagerId) : Nat :=
  ((w.manager? m).map fun r => r.resources.size).getD 0

/-- No manager has a key twice. -/
def KeysOnce (w : World) : Prop := ∀ m r, w.manager? m = some r → r.resources.keys.Nodup

/-- No two managers are written alike, and no two keys of one manager. -/
structure Spelled (w : World) (naming : Naming) : Prop where
  managers : Function.Injective naming.manager
  keys : ∀ m r, w.manager? m = some r → ∀ k ∈ r.resources.keys, ∀ l ∈ r.resources.keys,
    k.render naming = l.render naming → k = l

end World

namespace ManagerSnapshot

/-! ### Trees -/

mutual

/-- The managers in the tree. -/
def ids : ManagerSnapshot → List ManagerId
  | node m _ _ _ trees => m :: listIds trees

def listIds : List ManagerSnapshot → List ManagerId
  | [] => []
  | s :: rest => ids s ++ listIds rest

end

theorem listIds_eq (trees : List ManagerSnapshot) : listIds trees = trees.flatMap ids := by
  induction trees with
  | nil => rfl
  | cons s rest ih => rw [listIds, ih, List.flatMap_cons]

theorem totals_eq (trees : List ManagerSnapshot) : totals trees = (trees.map total).sum := by
  induction trees with
  | nil => rfl
  | cons s rest ih => rw [totals, ih, List.map_cons, List.sum_cons]

theorem listArranged_eq (naming : Naming) (trees : List ManagerSnapshot) :
    listArranged naming trees = trees.map (arranged naming) := by
  induction trees with
  | nil => rfl
  | cons s rest ih => rw [listArranged, ih, List.map_cons]

section Node

variable (m : ManagerId) (d : Device) (st : ManagerState) (keys : List Label)
  (trees : List ManagerSnapshot)

@[simp] theorem id_node : (node m d st keys trees).id = m := rfl

@[simp] theorem ids_node : (node m d st keys trees).ids = m :: trees.flatMap ids := by
  rw [ids, listIds_eq]

@[simp] theorem total_node :
    (node m d st keys trees).total = keys.length + (trees.map total).sum := by
  rw [total, totals_eq]

end Node

@[simp] theorem id_arranged (naming : Naming) (s : ManagerSnapshot) :
    (s.arranged naming).id = s.id := by
  cases s
  rfl

/-- Every node of the tree has what its manager has, and one node below it for each child. -/
inductive Shows (l : Listing) (w : World) : ManagerSnapshot → Prop
  | node {m : ManagerId} {r : Manager} {keys : List Label} {trees : List ManagerSnapshot}
      (found : w.manager? m = some r)
      (keysOf : keys.Perm r.resources.keys)
      (keysSorted : keys.Pairwise l.key)
      (childrenOf : (trees.map ManagerSnapshot.id).Perm r.children)
      (childrenSorted : (trees.map ManagerSnapshot.id).Pairwise l.manager)
      (below : ∀ s ∈ trees, Shows l w s) : Shows l w (.node m r.device r.state keys trees)

variable {l : Listing} {w : World} {s t : ManagerSnapshot}

/-- **The managers in the tree** are the one at the top and all that are below it. -/
theorem Shows.mem_ids_iff (h : s.Shows l w) {n : ManagerId} : n ∈ s.ids ↔ w.Below s.id n := by
  induction h with
  | @node m r keys trees found _ _ childrenOf _ below ih =>
      rw [ids_node, List.mem_cons, List.mem_flatMap, id_node]
      constructor
      · rintro (rfl | ⟨s, hs, hn⟩)
        · exact .refl
        · have hc : s.id ∈ r.children := childrenOf.subset (List.mem_map_of_mem hs)
          exact .head ⟨r, found, hc⟩ ((ih s hs).mp hn)
      · intro h
        rcases h.cases_head with rfl | ⟨c, ⟨q, hq, hc⟩, hcn⟩
        · exact Or.inl rfl
        · obtain rfl := Option.some.inj (found.symm.trans hq)
          obtain ⟨s, hs, rfl⟩ := List.mem_map.mp (childrenOf.symm.subset hc)
          exact Or.inr ⟨s, hs, (ih s hs).mpr hcn⟩

theorem sum_flatMap {α β : Type} (f : α → List β) (count : β → Nat) (xs : List α) :
    ((xs.flatMap f).map count).sum = (xs.map fun x => ((f x).map count).sum).sum := by
  rw [List.map_flatMap, List.flatMap_def, List.sum_flatten, List.map_map]
  rfl

/-- **The total** counts the resources of each manager in the tree. -/
theorem Shows.total_eq (h : s.Shows l w) : s.total = (s.ids.map w.resourceCount).sum := by
  induction h with
  | @node m r keys trees found keysOf _ _ _ _ ih =>
      have hcount : keys.length = w.resourceCount m := by
        rw [World.resourceCount, found, keysOf.length_eq]
        exact List.length_map ..
      have htrees : trees.map total = trees.map fun s => (s.ids.map w.resourceCount).sum :=
        List.map_congr_left ih
      rw [total_node, ids_node, List.map_cons, List.sum_cons, sum_flatMap, htrees, hcount]

/-- Trees that are known by what is at their tops. -/
theorem eq_of_map_id_eq {trees others : List ManagerSnapshot}
    (hinj : ∀ s ∈ trees, ∀ t ∈ others, s.id = t.id → s = t)
    (h : trees.map ManagerSnapshot.id = others.map ManagerSnapshot.id) : trees = others := by
  induction trees generalizing others with
  | nil => exact (List.map_eq_nil_iff.mp h.symm).symm
  | cons s rest ih =>
      cases others with
      | nil => cases h
      | cons t others =>
          obtain ⟨hid, hrest⟩ := List.cons.inj h
          have hst := hinj s List.mem_cons_self t List.mem_cons_self hid
          have hih := ih (fun s hs t ht => hinj s (.tail _ hs) t (.tail _ ht)) hrest
          rw [hst, hih]

/-- **There is one way to show a manager** in a given order. -/
theorem Shows.unique (h : s.Shows l w) (h' : t.Shows l w) (hid : s.id = t.id) : s = t := by
  induction h generalizing t with
  | @node m r keys trees found keysOf keysSorted childrenOf childrenSorted _ ih =>
      cases h' with
      | @node m' r' keys' trees' found' keysOf' keysSorted' childrenOf' childrenSorted' below' =>
          obtain rfl : m = m' := hid
          obtain rfl : r = r' := Option.some.inj (found.symm.trans found')
          have hkeys : keys = keys' :=
            eq_of_perm_of_pairwise l.key_asymm keysSorted keysSorted' keysOf keysOf'
          have hids := eq_of_perm_of_pairwise l.manager_asymm childrenSorted childrenSorted'
            childrenOf childrenOf'
          have htrees : trees = trees' :=
            eq_of_map_id_eq (fun s hs t ht hst => ih s hs (below' t ht) hst) hids
          rw [hkeys, htrees]

end ManagerSnapshot

/-- The managers in a snapshot. -/
def RegistrySnapshot.ids (s : RegistrySnapshot) : List ManagerId :=
  s.roots.flatMap ManagerSnapshot.ids

namespace World

variable {w : World} {made : Owner → ManagerId → Prop} {parted : ManagerId → ManagerId → Prop}
  {l : Listing} {m n p q a b c : ManagerId} {s t : ManagerSnapshot}

/-! ### What the forest says of trees -/

theorem WellOwned.has_child (hw : w.WellOwned) (h : w.Child p c) : w.Has (.manager c) := by
  obtain ⟨r, hr, hc⟩ := h
  exact hw.owned p r hr _ (List.mem_append_left _ (List.mem_map_of_mem hc))

theorem Planted.index_lt_of_child (hp : w.Planted made parted) (hw : w.WellOwned)
    (h : w.Child p c) : p.index < c.index := hp.older p c (hp.child hw h)

theorem Planted.parent_unique (hp : w.Planted made parted) (hw : w.WellOwned) (h : w.Child p c)
    (h' : w.Child q c) : p = q :=
  Owner.parent.inj (hp.owner_unique (hp.child hw h) (hp.child hw h'))

theorem Planted.index_le_of_below (hp : w.Planted made parted) (hw : w.WellOwned)
    (h : w.Below a b) : a.index ≤ b.index := by
  induction h with
  | refl => exact Nat.le_refl _
  | tail _ h ih => exact Nat.le_trans ih (Nat.le_of_lt (hp.index_lt_of_child hw h))

/-- Of two managers above a third one, one is above the other. -/
theorem Planted.below_or_below (hp : w.Planted made parted) (hw : w.WellOwned)
    (ha : w.Below a m) (hb : w.Below b m) : w.Below a b ∨ w.Below b a := by
  have hunique : Relator.RightUnique (Function.swap w.Child) :=
    fun _ _ _ h h' => hp.parent_unique hw h h'
  rcases Relation.ReflTransGen.total_of_right_unique hunique ha.swap hb.swap with h | h
  · exact Or.inr (Relation.reflTransGen_swap.mp h)
  · exact Or.inl (Relation.reflTransGen_swap.mp h)

/-- A child of a manager is not below another one. -/
theorem Planted.not_below_child (hp : w.Planted made parted) (hw : w.WellOwned)
    (ha : w.Child p a) (hb : w.Child p b) (hne : a ≠ b) : ¬ w.Below a b := by
  intro hab
  rcases hab.cases_tail with rfl | ⟨q, haq, hqb⟩
  · exact hne rfl
  · obtain rfl := hp.parent_unique hw hqb hb
    exact Nat.not_le.mpr (hp.index_lt_of_child hw ha) (hp.index_le_of_below hw haq)

/-- A root is below nothing else. -/
theorem Planted.not_below_root (hp : w.Planted made parted) (hw : w.WellOwned)
    (hb : b ∈ w.roots) (hne : a ≠ b) : ¬ w.Below a b := by
  intro hab
  rcases hab.cases_tail with rfl | ⟨q, -, hqb⟩
  · exact hne rfl
  · exact hp.not_mem_roots (hp.child hw hqb) hb

/-- Managers of which neither is below the other have nothing below them in common. -/
theorem Planted.not_below_both (hp : w.Planted made parted) (hw : w.WellOwned)
    (hab : ¬ w.Below a b) (hba : ¬ w.Below b a) (ha : w.Below a m) : ¬ w.Below b m := by
  intro hb
  rcases hp.below_or_below hw ha hb with h | h
  · exact hab h
  · exact hba h

/-- No manager is in two trees of which neither top is below the other. -/
theorem Planted.nodup_flatMap_ids (hp : w.Planted made parted) (hw : w.WellOwned)
    {trees : List ManagerSnapshot} (shown : ∀ s ∈ trees, s.Shows l w)
    (once : ∀ s ∈ trees, s.ids.Nodup) (hn : (trees.map ManagerSnapshot.id).Nodup)
    (apart : ∀ s ∈ trees, ∀ t ∈ trees, s.id ≠ t.id → ¬ w.Below s.id t.id) :
    (trees.flatMap ManagerSnapshot.ids).Nodup := by
  refine List.nodup_flatMap.mpr ⟨once, ?_⟩
  refine (List.pairwise_map.mp hn).imp_of_mem fun {s t} hs ht hne n hns hnt => ?_
  exact hp.not_below_both hw (apart s hs t ht hne) (apart t ht s hs hne.symm)
    ((shown s hs).mem_ids_iff.mp hns) ((shown t ht).mem_ids_iff.mp hnt)

/-- **No manager is in a tree twice.** -/
theorem Planted.nodup_ids (hp : w.Planted made parted) (hw : w.WellOwned) (h : s.Shows l w) :
    s.ids.Nodup := by
  induction h with
  | @node m r keys trees found _ _ childrenOf childrenSorted below ih =>
      have hchild : ∀ s ∈ trees, w.Child m s.id :=
        fun s hs => ⟨r, found, childrenOf.subset (List.mem_map_of_mem hs)⟩
      rw [ManagerSnapshot.ids_node, List.nodup_cons]
      constructor
      · intro hm
        obtain ⟨s, hs, hm⟩ := List.mem_flatMap.mp hm
        have hle := hp.index_le_of_below hw ((below s hs).mem_ids_iff.mp hm)
        exact Nat.not_le.mpr (hp.index_lt_of_child hw (hchild s hs)) hle
      · exact hp.nodup_flatMap_ids hw below ih (nodup_of_pairwise l.manager_asymm childrenSorted)
          fun s hs t ht => hp.not_below_child hw (hchild s hs) (hchild t ht)

/-- **The recursion over children ends**: children are younger. -/
theorem Planted.wellFounded_child (hp : w.Planted made parted) (hw : w.WellOwned) :
    WellFounded fun c p => w.Child p c := by
  refine Subrelation.wf ?_ (measure fun m : ManagerId => w.managers.size - m.index).wf
  intro c p h
  have hlt := hp.index_lt_of_child hw h
  have hhas : c.index < w.managers.size := hw.has_child h
  show w.managers.size - c.index < w.managers.size - p.index
  omega

/-! ### Snapshots -/

theorem snapshotAt_of_none (h : w.manager? m = none) (levels : Nat) :
    w.snapshotAt levels m = .node m .cpu .closed [] [] := by
  rw [snapshotAt, h]

theorem snapshotAt_succ {r : Manager} (h : w.manager? m = some r) (levels : Nat) :
    w.snapshotAt (levels + 1) m =
      .node m r.device r.state r.sortedKeys ((sortedIds r.children).map (w.snapshotAt levels)) := by
  rw [snapshotAt, h]

@[simp] theorem id_snapshotOf (w : World) (m : ManagerId) : (w.snapshotOf m).id = m := by
  rw [snapshotOf, snapshotAt]
  split <;> rfl

theorem map_id_snapshotOf (w : World) (ms : List ManagerId) :
    (ms.map w.snapshotOf).map ManagerSnapshot.id = ms := by
  rw [List.map_map]
  exact (List.map_congr_left fun m _ => id_snapshotOf w m).trans (List.map_id _)

/-- As many levels as there are younger managers are enough. -/
theorem Planted.snapshotAt_eq (hp : w.Planted made parted) (hw : w.WellOwned) {i j : Nat}
    (hi : w.managers.size ≤ m.index + i) (hj : w.managers.size ≤ m.index + j) :
    w.snapshotAt i m = w.snapshotAt j m := by
  induction i generalizing j m with
  | zero =>
      have hnone : w.manager? m = none := Array.getElem?_eq_none hi
      rw [snapshotAt_of_none hnone, snapshotAt_of_none hnone]
  | succ i ih =>
      cases hr : w.manager? m with
      | none => rw [snapshotAt_of_none hr, snapshotAt_of_none hr]
      | some r =>
          have hlt : m.index < w.managers.size := has_manager_of hr
          obtain ⟨j, rfl⟩ : ∃ k, j = k + 1 := ⟨j - 1, by omega⟩
          rw [snapshotAt_succ hr, snapshotAt_succ hr]
          refine congrArg (ManagerSnapshot.node m r.device r.state r.sortedKeys) ?_
          refine List.map_congr_left fun c hc => ?_
          have hmc := hp.index_lt_of_child hw ⟨r, hr, (sortedIds_perm r.children).subset hc⟩
          exact ih (by omega) (by omega)

/-- **The recursion of a snapshot**, without a bound. -/
theorem Planted.snapshotOf_eq (hp : w.Planted made parted) (hw : w.WellOwned) {r : Manager}
    (hr : w.manager? m = some r) : w.snapshotOf m =
      .node m r.device r.state r.sortedKeys ((sortedIds r.children).map w.snapshotOf) := by
  have hmore : w.snapshotOf m = w.snapshotAt (w.managers.size + 1) m :=
    hp.snapshotAt_eq hw (by omega) (by omega)
  exact hmore.trans (snapshotAt_succ hr _)

/-- **A snapshot shows the tree of its manager.** -/
theorem Planted.shows_snapshotOf (hp : w.Planted made parted) (hw : w.WellOwned)
    (hk : w.KeysOnce) (hm : w.Has (.manager m)) : (w.snapshotOf m).Shows .byAge w := by
  induction m using (hp.wellFounded_child hw).induction with
  | _ m ih =>
      obtain ⟨r, hr⟩ := exists_of_has_manager hm
      have hids := map_id_snapshotOf w (sortedIds r.children)
      rw [hp.snapshotOf_eq hw hr]
      refine .node hr (List.mergeSort_perm _ _) (pairwise_sortedKeys (hk m r hr)) ?_ ?_ ?_
      · rw [hids]
        exact sortedIds_perm _
      · rw [hids]
        exact pairwise_sortedIds (hp.nodup m _ (kin?_of_manager? hr))
      · intro s hs
        obtain ⟨c, hc, rfl⟩ := List.mem_map.mp hs
        have hchild : w.Child m c := ⟨r, hr, (sortedIds_perm r.children).subset hc⟩
        exact ih c hchild (hw.has_child hchild)

/-! ### Snapshots in reports -/

theorem byText_perm (naming : Naming) (trees : List ManagerSnapshot) :
    ((ManagerSnapshot.byText naming trees).map ManagerSnapshot.id).Perm
      (trees.map ManagerSnapshot.id) := (List.mergeSort_perm _ _).map _

theorem map_id_listArranged (naming : Naming) (trees : List ManagerSnapshot) :
    (ManagerSnapshot.listArranged naming trees).map ManagerSnapshot.id =
      trees.map ManagerSnapshot.id := by
  rw [ManagerSnapshot.listArranged_eq, List.map_map]
  exact List.map_congr_left fun s _ => ManagerSnapshot.id_arranged naming s

theorem pairwise_byText {naming : Naming} (hn : Function.Injective naming.manager)
    {trees : List ManagerSnapshot} (h : (trees.map ManagerSnapshot.id).Nodup) :
    ((ManagerSnapshot.byText naming trees).map ManagerSnapshot.id).Pairwise
      (Listing.byText naming).manager := by
  refine List.pairwise_map.mpr (pairwise_mergeSort_key ?_)
  have htexts := h.map hn
  rwa [List.map_map] at htexts

theorem Spelled.pairwise_keys {naming : Naming} (hn : w.Spelled naming) {r : Manager}
    (hr : w.manager? m = some r) {keys : List Label} (hp : keys.Perm r.resources.keys)
    (h : keys.Nodup) :
    (keys.mergeSort fun k k' => decide (k.render naming ≤ k'.render naming)).Pairwise
      (Listing.byText naming).key :=
  pairwise_mergeSort_key (h.map_on fun k hk k' hk' =>
    hn.keys m r hr k (hp.subset hk) k' (hp.subset hk'))

/-- **A tree in a report** shows the same, in the order of texts. -/
theorem Spelled.shows_arranged {naming : Naming} (hn : w.Spelled naming) (h : s.Shows l w) :
    (s.arranged naming).Shows (.byText naming) w := by
  induction h with
  | @node m r keys trees found keysOf keysSorted childrenOf childrenSorted _ ih =>
      rw [ManagerSnapshot.arranged]
      refine .node found ((List.mergeSort_perm _ _).trans keysOf)
        (hn.pairwise_keys found keysOf (nodup_of_pairwise l.key_asymm keysSorted)) ?_ ?_ ?_
      · refine (byText_perm _ _).trans ?_
        rw [map_id_listArranged]
        exact childrenOf
      · refine pairwise_byText hn.managers ?_
        rw [map_id_listArranged]
        exact nodup_of_pairwise l.manager_asymm childrenSorted
      · intro s hs
        replace hs := (List.mergeSort_perm _ _).subset hs
        rw [ManagerSnapshot.listArranged_eq] at hs
        obtain ⟨t, ht, rfl⟩ := List.mem_map.mp hs
        exact ih t ht

/-! ### All trees of the registry -/

/-- **What a snapshot of the registry shows.**  There is a tree for each root and nothing else;
each manager that is a root or below one is in there once; and the total counts the resources of
these managers. -/
structure Mirrors (w : World) (l : Listing) (s : RegistrySnapshot) : Prop where
  rootsOf : (s.roots.map ManagerSnapshot.id).Perm w.roots
  rootsSorted : (s.roots.map ManagerSnapshot.id).Pairwise l.manager
  shown : ∀ t ∈ s.roots, t.Shows l w
  once : s.ids.Nodup
  mem_ids_iff : ∀ m, m ∈ s.ids ↔ ∃ root ∈ w.roots, w.Below root m
  total_eq : s.total = (s.ids.map w.resourceCount).sum

section Mirrors

variable {r : RegistrySnapshot}

/-- The trees say all of it. -/
theorem Planted.mirrors (hp : w.Planted made parted) (hw : w.WellOwned)
    (rootsOf : (r.roots.map ManagerSnapshot.id).Perm w.roots)
    (rootsSorted : (r.roots.map ManagerSnapshot.id).Pairwise l.manager)
    (shown : ∀ t ∈ r.roots, t.Shows l w) : w.Mirrors l r where
  rootsOf := rootsOf
  rootsSorted := rootsSorted
  shown := shown
  once := by
    refine hp.nodup_flatMap_ids hw shown (fun t ht => hp.nodup_ids hw (shown t ht))
      (nodup_of_pairwise l.manager_asymm rootsSorted) fun s _ t ht => ?_
    exact hp.not_below_root hw (rootsOf.subset (List.mem_map_of_mem ht))
  mem_ids_iff n := by
    rw [RegistrySnapshot.ids, List.mem_flatMap]
    constructor
    · rintro ⟨t, ht, hn⟩
      exact ⟨t.id, rootsOf.subset (List.mem_map_of_mem ht), (shown t ht).mem_ids_iff.mp hn⟩
    · rintro ⟨root, hroot, hn⟩
      obtain ⟨t, ht, rfl⟩ := List.mem_map.mp (rootsOf.symm.subset hroot)
      exact ⟨t, ht, (shown t ht).mem_ids_iff.mpr hn⟩
  total_eq := by
    rw [RegistrySnapshot.total, ManagerSnapshot.totals_eq, RegistrySnapshot.ids,
      ManagerSnapshot.sum_flatMap]
    exact congrArg List.sum (List.map_congr_left fun t ht => (shown t ht).total_eq)

theorem Mirrors.unique {q : RegistrySnapshot} (h : w.Mirrors l r) (h' : w.Mirrors l q) :
    r = q := by
  have hids := eq_of_perm_of_pairwise l.manager_asymm h.rootsSorted h'.rootsSorted h.rootsOf
    h'.rootsOf
  have hroots : r.roots = q.roots := ManagerSnapshot.eq_of_map_id_eq
    (fun s hs t ht hid => (h.shown s hs).unique (h'.shown t ht) hid) hids
  cases r
  cases q
  exact congrArg _ hroots

end Mirrors

/-- A root is there. -/
theorem Planted.has_of_mem_roots (hp : w.Planted made parted) (hm : m ∈ w.roots) :
    w.Has (.manager m) := by
  by_cases hr : w.HasRegistry
  · exact ((hp.mem_roots hr m).mp hm).has
  · rw [hp.dropped hr] at hm
    cases hm

/-- **A snapshot of the registry mirrors the world.** -/
theorem Planted.mirrors_snapshot (hp : w.Planted made parted) (hw : w.WellOwned)
    (hk : w.KeysOnce) : w.Mirrors .byAge w.snapshot := by
  have hids := map_id_snapshotOf w w.sortedRoots
  refine hp.mirrors hw ?_ ?_ ?_
  · exact hids ▸ sortedIds_perm w.roots
  · exact hids ▸ pairwise_sortedIds hp.nodup_roots
  · intro t ht
    obtain ⟨m, hm, rfl⟩ := List.mem_map.mp ht
    exact hp.shows_snapshotOf hw hk (hp.has_of_mem_roots ((sortedIds_perm w.roots).subset hm))

/-- **In a report it still does.** -/
theorem Planted.mirrors_arranged (hp : w.Planted made parted) (hw : w.WellOwned)
    {naming : Naming} (hn : w.Spelled naming) {r : RegistrySnapshot} (h : w.Mirrors l r) :
    w.Mirrors (.byText naming) (r.arranged naming) := by
  have hids := map_id_listArranged naming r.roots
  refine hp.mirrors hw ?_ ?_ ?_
  · exact (byText_perm _ _).trans (hids ▸ h.rootsOf)
  · exact pairwise_byText hn.managers (hids ▸ nodup_of_pairwise l.manager_asymm h.rootsSorted)
  · intro t ht
    replace ht := (List.mergeSort_perm _ _).subset ht
    rw [ManagerSnapshot.listArranged_eq] at ht
    obtain ⟨s, hs, rfl⟩ := List.mem_map.mp ht
    exact hn.shows_arranged (h.shown s hs)

end World

end ArrayLifetimes
