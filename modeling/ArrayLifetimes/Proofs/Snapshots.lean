/-
Snapshots are exact.

In every reachable state, in the middle of a close too, a snapshot of the registry has a tree for
each root, with a node for each manager that is a root or below one, and for no other.  What a node
shows is true of its manager, in order, and the total counts the resources of these managers.  There
is no other snapshot of which that holds.

A manager that is closing is still there, without the children and the resources that it had.

The forest says most of it.  What it does not say is that a manager has no key twice; every step
keeps this.
-/
import ArrayLifetimes.Proofs.Engine.Books
import ArrayLifetimes.Proofs.ForestExact
import ArrayLifetimes.Proofs.Machine.Replay
import ArrayLifetimes.Proofs.World.Pictures

namespace ArrayLifetimes

namespace World

variable {w v : World} {m : ManagerId}

/-! ### No key comes twice -/

theorem KeysOnce.of_eq (hk : w.KeysOnce) (hm : v.managers = w.managers) : v.KeysOnce := by
  intro n r hr
  refine hk n r ?_
  simpa only [manager?, hm] using hr

theorem KeysOnce.aside (hk : w.KeysOnce) (h : w.Aside v) : v.KeysOnce := hk.of_eq h.managers

theorem KeysOnce.addManager (hk : w.KeysOnce) {r : Manager} (hr : r.resources = {}) :
    (w.addManager r).1.KeysOnce := by
  intro n q hq
  rw [manager?_addManager] at hq
  split at hq
  · obtain rfl := Option.some.inj hq
    rw [hr]
    exact List.nodup_nil
  · exact hk n q hq

theorem KeysOnce.modifyManager (hk : w.KeysOnce) (k : ManagerId) {f : Manager → Manager}
    (hf : ∀ r : Manager, r.resources.keys.Nodup → (f r).resources.keys.Nodup) :
    (w.modifyManager k f).KeysOnce := by
  intro n q hq
  rw [manager?_modifyManager] at hq
  split at hq
  · obtain ⟨r, hr, rfl⟩ := Option.map_eq_some_iff.mp hq
    exact hf r (hk n r hr)
  · exact hk n q hq

theorem KeysOnce.newSub {p c : ManagerId} {d : Option Device} (hk : w.KeysOnce)
    (h : w.newSub p d = .ok (v, c)) : v.KeysOnce := by
  obtain ⟨r, -, -, rfl⟩ := newSub_eq_ok h
  refine KeysOnce.aside ?_ (told_note _ _).aside
  exact (hk.addManager rfl).modifyManager p fun _ hn => hn

theorem KeysOnce.attach {key : Label} {x : Resource} {old : Option Resource} (hk : w.KeysOnce)
    (h : w.attach m key x = .ok (v, old)) : v.KeysOnce := by
  obtain ⟨r, u, -, -, hu, rfl⟩ := attach_eq_ok h
  have hku : u.KeysOnce := by
    rcases hu with rfl | rfl
    · exact hk
    · exact hk.aside (told_note w _).aside
  exact hku.modifyManager m fun _ => Keyed.nodup_keys_insert

theorem KeysOnce.detach (hk : w.KeysOnce) (m : ManagerId) (key : Label) :
    (w.detach m key).1.KeysOnce := by
  rcases detach_cases w m key with h | ⟨r, x, -, -, h⟩ <;> rw [h]
  · exact hk
  · refine KeysOnce.aside (hk.modifyManager m fun q hn => ?_) (told_note _ _).aside
    rw [Keyed.keys_erase]
    exact hn.filter _

theorem KeysOnce.detachSub (hk : w.KeysOnce) (p c : ManagerId) :
    (w.detachSub p c).1.KeysOnce := by
  rcases detachSub_cases w p c with h | ⟨r, -, -, h⟩ <;> rw [h]
  · exact hk
  · exact hk.modifyManager p fun _ hn => hn

theorem KeysOnce.dropRoots (hk : w.KeysOnce) (registered : Bool) (shutdowns : Nat) :
    { w with registered, shutdowns }.dropRoots.KeysOnce := by
  unfold World.dropRoots
  split <;> exact hk.of_eq rfl

theorem KeysOnce.fill (hk : w.KeysOnce) (h : w.Fill v) : v.KeysOnce := by
  cases h with
  | aside h => exact hk.aside h
  | @hold n m r h =>
      exact (hk.aside (aside_adopt w n)).modifyManager m fun _ => Keyed.nodup_keys_insert

theorem KeysOnce.fills (hk : w.KeysOnce) (h : w.Fills v) : v.KeysOnce := by
  induction h with
  | refl => exact hk
  | tail _ h ih => exact ih.fill h

theorem KeysOnce.deed {made : Option (Owner × ManagerId)}
    {parted : Option (ManagerId × ManagerId)} {attached : Option Resource} (hk : w.KeysOnce)
    (h : w.Deed made parted attached v) : v.KeysOnce := by
  cases h with
  | fills h => exact hk.fills h
  | base d hr h =>
      have hbase : (w.newBase d).1.KeysOnce :=
        (hk.addManager (r := { device := d, owner := .registry }) rfl).of_eq rfl
      exact hbase.aside h
  | sub hu h => exact (hk.newSub hu).aside h
  | attach hu hkey ha h => exact ((hk.aside hu).attach ha).aside h
  | detach m key h => exact (hk.detach m key).aside h
  | detachSub p c h => exact (hk.detachSub p c).aside h
  | shutdown hr h => exact KeysOnce.aside (w := w.beginShutdown) (hk.of_eq rfl) h
  | dropRegistry h => exact (hk.dropRoots false w.shutdowns).aside h

/-- Every step keeps it. -/
theorem KeysOnce.feat {t : Thread} (hk : w.KeysOnce)
    (hc : ∀ m k, (m, k) ∈ t.cascades → w.lifecycle? m = some (.closing k)) (h : t.Feat w v) :
    v.KeysOnce := by
  cases h with
  | deed h => exact hk.deed h
  | releasesArray a below task =>
      rcases releaseArray_eq_or_told w a with h | ⟨engine, journal, h⟩ <;> rw [h]
      · exact hk
      · exact hk.of_eq rfl
  | releasesHook g below task => exact hk.of_eq rfl
  | begins m r below task isOpen =>
      refine (hk.modifyManager m fun r _ => ?_).aside (told_note _ _).aside
      exact List.nodup_nil
  | ends m failures below task =>
      intro n q hq
      obtain ⟨r, hr, -⟩ := lifecycle?_eq_some.mp (hc m t.id (Machine.mem_cascades_of_sweep task))
      obtain ⟨p, hp, -, hres, -⟩ :=
        (ended_endCascade (has_manager_of hr) failures).manager n q hq
      rw [hres]
      exact hk n p hp
  | endsShutdown idle => exact hk.dropRoots w.registered (w.shutdowns - 1)

/-! ### The recursion -/

/-- A snapshot is taken by recursion over the lists of children, and the recursion ends. -/
structure SnapshotsEnd (w : World) : Prop where
  wellFounded : WellFounded fun c p => w.Child p c
  snapshotOf_eq : ∀ m r, w.manager? m = some r → w.snapshotOf m =
    .node m r.device r.state r.sortedKeys ((sortedIds r.children).map w.snapshotOf)
  snapshot_eq : w.snapshot.roots = w.sortedRoots.map w.snapshotOf

end World

namespace Machine

variable {order : VisitOrder} {kind : EngineKind} {s t : Machine}

theorem Sound.keysOnce_next (hs : s.Sound) (hk : s.world.KeysOnce) (h : Next order s t) :
    t.world.KeysOnce := by
  cases h with
  | command c h => exact hk
  | step i h =>
      obtain ⟨before, t, after, v, u, started, -, hst, rfl⟩ := stepAt_eq_some h
      exact hk.feat (fun m k hk => hs.closing_of_mem hst.mem hk)
        (Thread.feat_of_step order s.running hs.owned hst.step)

theorem Reachable.keysOnce (h : Reachable order kind s) : s.world.KeysOnce := by
  obtain ⟨config, draws, h⟩ := h
  induction h with
  | refl =>
      rintro m r hr
      simp [fresh, World.start, World.manager?] at hr
  | tail h hn ih => exact ((sound_fresh kind config draws).leads h).keysOnce_next ih hn

/-- A question about the registry is answered at once, whoever asks, and changes nothing. -/
theorem stepAt_of_ask_snapshot {i : Nat} {id : ThreadId} {below : Stack .reply}
    (hi : s.threads[i]? = some ⟨id, .perform (.ask .snapshot) below⟩)
    (hr : s.world.registered = true) :
    s.stepAt order i = some ⟨s.world,
      s.threads.set i ⟨id, .reply (.answer (.snapshot s.world.snapshot)) below⟩⟩ := by
  have hp : s.world.perform s.running (.ask .snapshot) =
      (s.world, .reply (.answer (.snapshot s.world.snapshot))) := by
    simp only [World.perform, World.attempt, World.ask, World.askRegistry, hr, if_true]
  simp only [stepAt, hi, Thread.step, Thread.perform, hp, List.append_nil]

/-- **Snapshots are exact.**  In every reachable state, a snapshot of the registry ends; it mirrors
the registry and is the only one that does, with identities and keys in the order of the world, and
in that of their texts if these tell them apart; and whoever asks for it gets it in one step, which
changes nothing else. -/
theorem snapshots_exact (hs : Reachable order kind s) :
    s.world.SnapshotsEnd ∧
    (∀ r, s.world.Mirrors .byAge r ↔ r = s.world.snapshot) ∧
    (∀ naming, s.world.Spelled naming →
      ∀ r, s.world.Mirrors (.byText naming) r ↔ r = s.world.snapshot.arranged naming) ∧
    ∀ i id below, s.threads[i]? = some ⟨id, .perform (.ask .snapshot) below⟩ →
      s.world.registered = true → s.stepAt order i = some ⟨s.world,
        s.threads.set i ⟨id, .reply (.answer (.snapshot s.world.snapshot)) below⟩⟩ := by
  obtain ⟨made, parted, hp⟩ := hs.exists_planted
  have hw := hs.sound.owned
  have hmirrors := hp.mirrors_snapshot hw hs.keysOnce
  refine ⟨⟨hp.wellFounded_child hw, fun m r hr => hp.snapshotOf_eq hw hr, rfl⟩, ?_, ?_, ?_⟩
  · intro r
    constructor
    · exact fun hr => hr.unique hmirrors
    · rintro rfl
      exact hmirrors
  · intro naming hn r
    have harranged := hp.mirrors_arranged hw hn hmirrors
    constructor
    · exact fun hr => hr.unique harranged
    · rintro rfl
      exact harranged
  · exact fun i id below hi hr => stepAt_of_ask_snapshot hi hr

/-- A release hook asks for a snapshot while its manager is being closed.  A sibling of the manager
has a child, an array and another hook. -/
def askingInHook : Machine :=
  replay .byAge
    [(.base "g" none, 1), (.sub "g" "m" none, 1), (.sub "g" "n" none, 1), (.sub "n" "o" none, 1),
      (.allocate "n" "x" (.zeros ⟨[1]⟩ none) none, 1),
      (.attach "n" (.text "k") (.hook "i" [] .succeed) none, 1),
      (.attach "m" (.text "k") (.hook "h" [.ask .snapshot] .succeed) none, 1), (.close "m", 5)]
    (fresh (.foreign .numbering) {} fun _ => .zero)

/-- Identities are written as so many strokes. -/
def strokes : Naming where
  manager m := String.ofList (List.replicate m.index '|')
  array a := String.ofList (List.replicate a.index '|')

/-- The manager that is being closed is in the snapshot. -/
theorem snapshots_exact_in_hook :
    askingInHook.world.stateOf ⟨1⟩ = .closing ∧ ⟨1⟩ ∈ askingInHook.world.snapshot.ids ∧
    askingInHook.world.Mirrors .byAge askingInHook.world.snapshot ∧
    askingInHook.world.Mirrors (.byText strokes) (askingInHook.world.snapshot.arranged strokes) ∧
    ∃ below, askingInHook.stepAt .byAge 0 = some ⟨askingInHook.world,
      [⟨⟨0⟩, .reply (.answer (.snapshot askingInHook.world.snapshot)) below⟩]⟩ := by
  have hs : Reachable .byAge (.foreign .numbering) askingInHook := reachable_replay .byAge _ _ _ _
  have hkeys : ∀ r ∈ askingInHook.world.managers.toList, ∀ k ∈ r.resources.keys,
      ∀ l ∈ r.resources.keys, k.render strokes = l.render strokes → k = l := by decide
  have hspelled : askingInHook.world.Spelled strokes := by
    refine ⟨?_, fun m r hr => hkeys r (Array.mem_of_getElem? hr).val⟩
    rintro ⟨i⟩ ⟨j⟩ h
    simpa [strokes] using congrArg String.length h
  obtain ⟨-, hage, htext, hstep⟩ := snapshots_exact hs
  have hmirrors := (hage _).mpr rfl
  have hroot : ⟨0⟩ ∈ askingInHook.world.roots := by decide
  have hchild : askingInHook.world.Child ⟨0⟩ ⟨1⟩ := ⟨_, rfl, by decide⟩
  exact ⟨rfl, (hmirrors.mem_ids_iff _).mpr ⟨⟨0⟩, hroot, .single hchild⟩, hmirrors,
    (htext strokes hspelled _).mpr rfl, _, hstep 0 ⟨0⟩ _ rfl rfl⟩

end Machine

end ArrayLifetimes
