/-
Resources that no work in progress can reach.

A set of resources is secluded when only members own members, no member is a root, and nothing in
progress is due to release a member.  Then nothing happens to the members as long as no
client asks for the release of one in person, and none is attached anew: a cascade gets
hold of what its manager owns, a shutdown of the roots, and no other work of anything.

A member must not be in the middle of its own close, because nothing stops the end of that.
-/
import ArrayLifetimes.Proofs.Machine.Feats
import ArrayLifetimes.Proofs.NoLeak
import ArrayLifetimes.Proofs.World.Seclusion

namespace ArrayLifetimes

namespace Thread

variable {w v : World} {t : Thread}

/-- **No manager comes to own what there was**, but what the step attaches. -/
theorem Feat.confined (h : t.Feat w v)
    (hc : ∀ m k, (m, k) ∈ t.cascades → w.lifecycle? m = some (.closing k)) :
    w.Confined v fun x => t.attached? w = some x := by
  cases h with
  | deed h => exact h.confined
  | releasesArray a below task => exact World.confined_releaseArray w a
  | releasesHook g below task => exact World.confined_takeHook w g
  | begins m r below task isOpen => exact World.confined_beginClose w m r t.id
  | ends m failures below task =>
      have hm := hc m t.id (Machine.mem_cascades_of_sweep task)
      obtain ⟨r, hr, -⟩ := World.lifecycle?_eq_some.mp hm
      exact World.confined_endCascade hr failures
  | endsShutdown idle => exact World.confined_dropRoots w w.registered (w.shutdowns - 1)

/-- **A step leaves a resource as it was**, if it is not due to be released and is not in the middle
of its close. -/
theorem Feat.sameAs (h : t.Feat w v)
    (hc : ∀ m k, (m, k) ∈ t.cascades → w.lifecycle? m = some (.closing k)) {x : Resource}
    (hx : w.Has x) (hdue : x ∉ t.due)
    (hl : ∀ m k, x = .manager m → w.lifecycle? m ≠ some (.closing k)) : w.SameAs v x := by
  have released : ∀ {y : Resource} {below : Stack .outcome}, t.task = .release y below → x ≠ y := by
    rintro y below task rfl
    exact hdue (by rw [due, task]; exact List.mem_cons_self ..)
  cases h with
  | deed h => exact h.sameAs hx
  | releasesArray a below task => exact World.sameAs_releaseArray w (released task)
  | releasesHook g below task => exact World.sameAs_takeHook w (released task)
  | begins m r below task isOpen => exact World.sameAs_beginClose isOpen t.id (released task)
  | ends m failures below task =>
      have hm := hc m t.id (Machine.mem_cascades_of_sweep task)
      obtain ⟨r, hr, -⟩ := World.lifecycle?_eq_some.mp hm
      exact World.sameAs_endCascade (World.has_manager_of hr) failures fun he => hl m t.id he hm
  | endsShutdown idle => exact World.sameAs_dropRoots w w.registered (w.shutdowns - 1) x

end Thread

namespace Machine

variable {order : VisitOrder} {s s' t : Machine} {i : Nat} {S : Resource → Prop}

/-- No member is in reach of any work in progress. -/
structure Secluded (S : Resource → Prop) (s : Machine) : Prop where
  has : ∀ x, S x → s.world.Has x
  still : ∀ m k, S (.manager m) → s.world.lifecycle? m ≠ some (.closing k)
  owners : ∀ m x, S x → s.world.Owns m x → S (.manager m)
  roots : ∀ m ∈ s.world.roots, ¬ S (.manager m)
  due : ∀ t ∈ s.threads, ∀ x ∈ t.due, ¬ S x

/-- In the step of the thread at a place no client asks for the release of a member in person, and
no member is attached. -/
def Spares (s : Machine) (i : Nat) (S : Resource → Prop) : Prop :=
  (∀ x ∈ s.aims i, ¬ S x) ∧ ∀ x ∈ s.attached? i, ¬ S x

instance (s : Machine) (i : Nat) (S : Resource → Prop) [DecidablePred S] :
    Decidable (s.Spares i S) :=
  inferInstanceAs (Decidable ((∀ x ∈ s.aims i, ¬ S x) ∧ ∀ x ∈ s.attached? i, ¬ S x))

theorem Spares.mono {T : Resource → Prop} (h : s.Spares i T) (hST : ∀ x, S x → T x) :
    s.Spares i S :=
  ⟨fun x hx hS => h.1 x hx (hST x hS), fun x hx hS => h.2 x hx (hST x hS)⟩

/-- **A step leaves secluded resources as they were**, and secluded. -/
theorem Secluded.step (h : s.Secluded S) (hs : s.Sound) (hi : s.stepAt order i = some s')
    (hspare : s.Spares i S) :
    s'.Secluded S ∧ ∀ x, S x → s.world.SameAs s'.world x := by
  obtain ⟨before, t, after, v, u, started, hlen, hst, rfl⟩ := stepAt_eq_some hi
  have ht : s.threads[i]? = some t := by
    rw [hst.threads, ← hlen]
    simp
  have hc : ∀ m k, (m, k) ∈ t.cascades → s.world.lifecycle? m = some (.closing k) :=
    fun m k hk => hs.closing_of_mem hst.mem hk
  have hfeat := Thread.feat_of_step order s.running hs.owned hst.step
  have hconf := hfeat.confined hc
  have hattached : ∀ x, t.attached? s.world = some x → ¬ S x := by
    intro x hx
    refine hspare.2 x (Option.mem_def.mpr ?_)
    simpa only [attached?, ht, Option.bind_some] using hx
  have hsame : ∀ x, S x → s.world.SameAs v x := fun x hx =>
    hfeat.sameAs hc (h.has x hx) (fun hd => h.due t hst.mem x hd hx)
      (fun m k hm => h.still m k (hm ▸ hx))
  refine ⟨⟨?_, ?_, ?_, ?_, ?_⟩, hsame⟩
  · exact fun x hx => hconf.has x (h.has x hx)
  · intro m k hm hl
    exact h.still m k hm ((hsame _ hm : v.lifecycle? m = _) ▸ hl)
  · intro m x hx ho
    rcases hconf.owns m x (h.has x hx) ho with ho | ha
    · exact h.owners m x hx ho
    · exact absurd hx (hattached x ha)
  · exact fun m hm hS => h.roots m (hconf.roots m (h.has _ hS) hm) hS
  · -- what becomes due is owned by what was due, or a root, or new, or aimed at
    have hdue : ∀ x, u.DueAfter started x → ¬ S x := by
      intro x hx hS
      cases Thread.leaves_of_step order hs.owned hst.step hx with
      | due hd => exact h.due t hst.mem x hd hS
      | @owned m r hm isOpen ho =>
          have hown : s.world.Owns m x := ⟨r, (World.openManager_eq_ok.mp isOpen).1, ho⟩
          exact h.due t hst.mem _ hm (h.owners m x hS hown)
      | aimed ha => exact hspare.1 x (by simpa only [aims, ht] using ha) hS
      | root hr hx => exact h.roots _ hr (hx ▸ hS)
      | @made o m hm hx =>
          obtain ⟨c, -, hc⟩ := Option.bind_eq_some_iff.mp hm
          exact World.not_has_of_created? hc (hx ▸ h.has x hS)
    intro c hmem x hx
    rcases hst.came hmem with hold | rfl | hnew
    · exact h.due c hold x hx
    · exact hdue x (Or.inl hx)
    · exact hdue x (Or.inr ⟨c, hnew, hx⟩)

/-- A new command has nothing due yet. -/
theorem Secluded.command (h : s.Secluded S) (c : Command) : (s.world.machine c).Secluded S := by
  refine ⟨h.has, h.still, h.owners, h.roots, fun t ht x hx => ?_⟩
  obtain rfl := List.mem_singleton.mp ht
  cases hx

/-- **A run leaves secluded resources as they were**, as long as each step spares them. -/
theorem Secluded.takes {ps : List (Machine × Nat)} (h : s.Secluded S) (hs : s.Sound)
    (ht : Takes order s ps t) (hspare : ∀ p ∈ ps, p.1.Spares p.2 S) :
    t.Secluded S ∧ ∀ x, S x → s.world.SameAs t.world x := by
  induction ht with
  | refl => exact ⟨h, fun x _ => .refl _ x⟩
  | step i ht hi ih =>
      obtain ⟨hsecluded, hsame⟩ := ih fun p hp => hspare p (List.mem_cons_of_mem _ hp)
      obtain ⟨hnext, hstep⟩ :=
        hsecluded.step (hs.leads ht.leads) hi (hspare _ (List.mem_cons_self ..))
      exact ⟨hnext, fun x hx => (hsame x hx).trans (hstep x hx)⟩
  | command c _ _ ih =>
      obtain ⟨hsecluded, hsame⟩ := ih hspare
      exact ⟨hsecluded.command c, hsame⟩

end Machine

end ArrayLifetimes
