/-
What has been detached stays as it is.

Detaching takes a resource away from its manager, or a child away from its parent.  Then nobody
releases it but a client who does so in person, provided that nothing else leads to it.  Other
things can: another key, work in progress that has taken the resource over before, and for a
manager also its parent, its place among the roots, and the end of a close that has begun.

A resource that is under one key only is secluded once it has been detached.  So is a household,
that is a manager that has been detached from its parent, with what is below it and what
they all track.  No child link leads into a household, because a manager is a child of the
one it was made for only, and no manager in it but those it tracks as resources is a root.
-/
import ArrayLifetimes.Proofs.ForestExact
import ArrayLifetimes.Proofs.Machine.Accounted
import ArrayLifetimes.Proofs.Machine.Replay
import ArrayLifetimes.Proofs.Machine.Seclusion
import ArrayLifetimes.Proofs.World.Contents
import ArrayLifetimes.Proofs.World.Household

namespace ArrayLifetimes

namespace World

variable {w : World} {m : ManagerId} {key : Label} {x : Resource}

/-- A command that detaches something answers, and does nothing else that counts. -/
theorem perform_of_detached? {command : Command} (h : w.detached? command = some (m, key, x))
    (running : List ManagerId) :
    (w.detach m key).2 = some x ∧ (w.detach m key).1.Aside (w.perform running command).1 ∧
      ∃ reply, (w.perform running command).2 = .reply reply := by
  cases command <;> try cases h
  case detach manager k name =>
    simp only [detached?, Option.bind_eq_bind, Option.bind_eq_some_iff, toOption_eq_some, pure,
      Option.some.injEq, Prod.mk.injEq] at h
    obtain ⟨m, hm, key, hk, x, hx, rfl, rfl, rfl⟩ := h
    have hp : w.attempt running (.detach manager k name) = w.performDetach manager k name := rfl
    simp only [perform, hp, performDetach, hm, hk]
    exact ⟨hx, aside_nameDisplaced _ name _, _, rfl⟩
  case detachArray manager array =>
    simp only [detached?, Option.bind_eq_bind, Option.bind_eq_some_iff, toOption_eq_some, pure,
      Option.some.injEq, Prod.mk.injEq] at h
    obtain ⟨m, hm, a, ha, x, hx, rfl, rfl, rfl⟩ := h
    have hp : w.attempt running (.detachArray manager array) = w.performDetachArray manager array :=
      rfl
    simp only [perform, hp, performDetachArray, World.detachArray, hm, ha]
    exact ⟨hx, .refl _, _, rfl⟩

end World

namespace Machine

variable {order : VisitOrder} {kind : EngineKind} {s s' t : Machine} {i : Nat}
  {ps : List (Machine × Nat)} {m p c : ManagerId} {key : Label} {x : Resource}

/-! ### One resource -/

/-- No work in progress is due to release the resource; and if it is a manager, it is neither a
child nor a root, and is not in the middle of its close. -/
structure Loose (s : Machine) (x : Resource) : Prop where
  due : ∀ t ∈ s.threads, x ∉ t.due
  single : ∀ n, x = .manager n → n ∉ s.world.roots ∧ ∀ p, ¬ s.world.Child p n
  still : ∀ n k, x = .manager n → s.world.lifecycle? n ≠ some (.closing k)

/-- The step of a thread that detaches something. -/
theorem stepAt_of_detached? (hi : s.stepAt order i = some s')
    (hd : s.detached? i = some (m, key, x)) :
    (s.world.detach m key).2 = some x ∧ (s.world.detach m key).1.Aside s'.world ∧
      ∀ t ∈ s'.threads, ∃ u ∈ s.threads, t.due = u.due := by
  obtain ⟨⟨id, task⟩, ht, hd⟩ := Option.bind_eq_some_iff.mp hd
  obtain ⟨command, hcommand, hd⟩ := Option.bind_eq_some_iff.mp hd
  cases task <;> try cases hcommand
  case perform below =>
    obtain ⟨hx, haside, reply, hreply⟩ := World.perform_of_detached? hd s.running
    obtain ⟨v, u, started, hstep, rfl⟩ := (stepAt_eq_some_iff ht).mp hi
    simp only [Thread.step, Thread.perform, hreply, Step.next.injEq] at hstep
    obtain ⟨rfl, rfl, rfl⟩ := hstep
    refine ⟨hx, haside, fun t hmem => ?_⟩
    rw [List.append_nil] at hmem
    rcases List.mem_or_eq_of_mem_set hmem with hold | rfl
    · exact ⟨t, hold, rfl⟩
    · exact ⟨_, List.mem_of_getElem? ht, rfl⟩

/-- **What is detached from its only key is secluded**, if nothing else leads to it. -/
theorem Sound.secluded_of_detached (hs : s.Sound) (hi : s.stepAt order i = some s')
    (hd : s.detached? i = some (m, key, x)) (hone : s.world.holders x = [(m, key)])
    (hl : s.Loose x) : s'.Secluded (· = x) ∧ s.world.SameAs s'.world x := by
  obtain ⟨hx, haside, hdue⟩ := stepAt_of_detached? hi hd
  have hconfined : s.world.Confined s'.world fun _ => False :=
    (World.confined_detach s.world m key).trans haside.confined
  have hhas : s.world.Has x := by
    have hmem : (m, key) ∈ s.world.holders x := hone ▸ List.mem_singleton_self _
    obtain ⟨r, hr, he⟩ := World.mem_holdings.mp (World.mem_holders.mp hmem)
    exact hs.owned.owned m r hr x (List.mem_append_right _ (List.mem_map_of_mem he))
  have hsame : s.world.SameAs s'.world x := (World.Deed.detach m key haside).sameAs hhas
  refine ⟨⟨?_, ?_, ?_, ?_, ?_⟩, hsame⟩
  · rintro _ rfl
    exact hconfined.has _ hhas
  · rintro n k rfl hn
    exact hl.still n k rfl ((hsame : s'.world.lifecycle? n = _) ▸ hn)
  · rintro n _ rfl ho
    obtain ⟨c, hc, hchild⟩ := World.owns_of_detach hone hx (World.owns_of_eq haside.managers ho)
    exact absurd hchild ((hl.single c hc).2 n)
  · rintro n hn rfl
    exact (hl.single n rfl).1 (hconfined.roots n hhas hn)
  · rintro t ht _ hmem rfl
    obtain ⟨u, hu, htu⟩ := hdue t ht
    exact hl.due u hu (htu ▸ hmem)

/-! ### A manager with what is below it -/

/-- Nothing outside holds on to the household of the manager: no other manager tracks any of it,
a manager that it tracks as a resource is neither a child nor a root, and no work in progress is due
to release any of it. -/
structure Severed (s : Machine) (c : ManagerId) : Prop where
  tracked : ∀ m key x, s.world.Household c x → (m, key, x) ∈ s.world.holdings → s.world.Below c m
  single : ∀ n, s.world.Household c (.manager n) → ¬ s.world.Below c n →
    n ∉ s.world.roots ∧ ∀ p, ¬ s.world.Child p n
  due : ∀ t ∈ s.threads, ∀ x ∈ t.due, ¬ s.world.Household c x

/-- A household is severed if its managers are listed and nothing else leads to what they own. -/
theorem severed_of_list {ms : List ManagerId} (hms : s.world.FamilyOf ms) (hc : c ∈ ms)
    (hbelow : ∀ m ∈ ms, s.world.Below c m)
    (htracked : ∀ e ∈ s.world.holdings, e.2.2 ∈ s.world.estates ms → e.1 ∈ ms)
    (hsingle : ∀ n, .manager n ∈ s.world.estates ms → n ∈ ms)
    (hdue : ∀ t ∈ s.threads, ∀ x ∈ t.due, x ∉ s.world.estates ms) : s.Severed c where
  tracked m _ _ hx hkey := hbelow m (htracked _ hkey (hx.mem hms hc))
  single n hn hnot := absurd (hbelow n (hsingle n (hn.mem hms hc))) hnot
  due t ht x hx hhouse := hdue t ht x hx (hhouse.mem hms hc)

/-- **A household is secluded** once its manager has been detached from the parent, if nothing
outside holds on to it. -/
theorem Reachable.secluded_of_parted (hs : Reachable order kind s)
    (hi : s.stepAt order i = some s') (hd : s.parted? i = some (p, c)) (hl : s'.Severed c) :
    s'.Secluded (s'.world.Household c) := by
  obtain ⟨config, draws, hleads⟩ := hs
  obtain ⟨ps, hps⟩ := exists_takes hleads
  have hsound := (sound_fresh kind config draws).leads hleads
  have hsound' := hsound.step hi
  have hp := (hps.step i hi).planted
  obtain ⟨t, ht, htd⟩ := Option.bind_eq_some_iff.mp hd
  obtain ⟨command, -, hcommand⟩ := Option.bind_eq_some_iff.mp htd
  -- the manager was made for the parent from which it has just been detached
  have hmade : Made ((s, i) :: ps) (.parent p) c :=
    made_cons.mpr (Or.inl (hps.planted.child hsound.owned (World.child_of_parted? hcommand)))
  have hparted : Parted ((s, i) :: ps) p c := parted_cons.mpr (Or.inr hd)
  have hbelow : ∀ n, s'.world.Below c n → n ∉ s'.world.roots ∧
      ∀ q, s'.world.Child q n → s'.world.Below c q :=
    fun n hn => hp.below hsound'.owned hmade hparted hn
  refine ⟨?_, fun m k hx => hx.2 m k rfl, ?_, ?_, hl.due⟩
  · intro x hx
    refine hx.has hsound'.owned ?_
    obtain ⟨k, hk, -⟩ := (hp.made_iff _ c).mp hmade
    exact World.has_manager_iff.mpr ⟨k, hk⟩
  · intro m x hx ho
    rcases World.owns_iff.mp ho with ⟨n, rfl, hchild⟩ | ⟨key, hkey⟩
    · by_cases hn : s'.world.Below c n
      · exact ((hbelow n hn).2 m hchild).household (ho.opened hsound'.owned)
      · exact absurd hchild ((hl.single n hx hn).2 m)
    · exact (hl.tracked m key x hx hkey).household (ho.opened hsound'.owned)
  · intro m hm hx
    by_cases hn : s'.world.Below c m
    · exact (hbelow m hn).1 hm
    · exact (hl.single m hx hn).1 hm

/-! ### Bytes -/

theorem keeps_stepAt (hs : s.Sound) (h : s.stepAt order i = some s') (y : Handle) :
    s.world.Keeps y s'.world := by
  obtain ⟨before, t, after, v, u, started, -, hst, rfl⟩ := stepAt_eq_some h
  cases hst.turn hs.owned with
  | begins m r rest below task isOpen items => exact .of_host rfl [_] rfl
  | ends m failures below task => exact World.keeps_endCascade s.world m failures
  | serves _ _ x below hserves => exact (hserves.moves []).keeps
  | goes _ _ _ hgoes => exact (hgoes.moves []).keeps

/-- **A run keeps every buffer** that nothing touches. -/
theorem Sound.keeps (hs : s.Sound) (h : Leads order s t) (y : Handle) :
    s.world.Keeps y t.world := by
  induction h with
  | refl => exact .of_host rfl [] rfl
  | tail hst hn ih =>
      cases hn with
      | step i h => exact ih.trans (keeps_stepAt (hs.leads hst) h y)
      | command c h => exact ih

/-- An array of the host engine reads back the same bytes after a run that leaves the array as it
was. -/
theorem Reachable.arrayBytes (hs : Reachable order .host s) (ht : Leads order s t) {a : ArrayId}
    (hsame : s.world.SameAs t.world (.array a))
    (hd : ∀ r, s.world.array? a = some r →
      t.world.disturbances r.handle = s.world.disturbances r.handle) :
    (t.world.arrayBytes a).2 = (s.world.arrayBytes a).2 := by
  replace hsame : t.world.array? a = s.world.array? a := hsame
  cases ha : s.world.array? a with
  | none => simp only [World.arrayBytes, World.liveArray, hsame, ha]
  | some r =>
      have hf : EngineKind.Fresh .host := trivial
      have hl := hs.accounted hf
      have hl' := (hs.leads ht).accounted hf
      exact (hs.sound.keeps ht r.handle).arrayBytes hl.kind hl'.kind hl.ledger hl'.ledger ha
        (hsame.trans ha) (World.unspoilt_of_disturbances (hd r ha))

/-! ### Detaching -/

/-- What becomes of what the step from one state to the next has detached, in every run from there
on. -/
structure DetachedStays (order : VisitOrder) (kind : EngineKind) (s : Machine) (i : Nat)
    (s' : Machine) : Prop where
  /-- A resource that was under one key only is not released, unless something else led to it
  already, or a client releases it in person or attaches it.  If it is an array of the host
  engine, it reads back the same bytes as long as nobody asks the engine itself to free it, and no
  operation has it among its outputs. -/
  resource : ∀ {m key x ps t}, s.detached? i = some (m, key, x) →
    s.world.holders x = [(m, key)] → s.Loose x →
    Takes order s' ps t → (∀ p ∈ ps, p.1.Spares p.2 (· = x)) →
    s.world.SameAs t.world x ∧ t.world.isReleased x = s.world.isReleased x ∧
    ∀ a, x = .array a → kind = .host →
      (∀ r, s.world.array? a = some r →
        t.world.disturbances r.handle = s.world.disturbances r.handle) →
      (t.world.arrayBytes a).2 = (s.world.arrayBytes a).2
  /-- A child that was detached stays open, and so do all managers below it, and what they track is
  not released, unless something outside held on to them, or a client releases some of it
  in person or attaches it. -/
  child : ∀ {p c ps t}, s.parted? i = some (p, c) → s'.Severed c →
    Takes order s' ps t → (∀ p ∈ ps, p.1.Spares p.2 (s'.world.Household c)) →
    (∀ m, s'.world.Below c m → s'.world.lifecycle? m = some .opened →
      t.world.lifecycle? m = some .opened) ∧
    ∀ x, s'.world.Household c x → t.world.isReleased x = s'.world.isReleased x

/-- **What has been detached stays as it is**, whatever is closed afterwards. -/
theorem detached_stays (hs : Reachable order kind s) (hi : s.stepAt order i = some s') :
    DetachedStays order kind s i s' := by
  have hsound := hs.sound
  have hsound' := hsound.step hi
  refine ⟨?_, ?_⟩
  · intro m key x ps t hd hone hloose ht hspare
    obtain ⟨hsecluded, hsame⟩ := hsound.secluded_of_detached hi hd hone hloose
    have hrun := hsame.trans ((hsecluded.takes hsound' ht hspare).2 x rfl)
    refine ⟨hrun, hrun.isReleased, ?_⟩
    rintro a rfl rfl hdisturbances
    exact hs.arrayBytes (ht.leads.head (.step i hi)) hrun hdisturbances
  · intro p c ps t hd hsevered ht hspare
    have hrun := ((hs.secluded_of_parted hi hd hsevered).takes hsound' ht hspare).2
    refine ⟨fun m hm hopen => ?_, fun x hx => (hrun x hx).isReleased⟩
    have hlifecycle : t.world.lifecycle? m = s'.world.lifecycle? m :=
      hrun _ (World.Below.household hm hopen)
    exact hlifecycle.trans hopen

/-! ### Sessions -/

theorem stepAt_of_isSome (order : VisitOrder) (h : (s.stepAt order 0).isSome = true) :
    s.stepAt order 0 = some (advance order 1 s) := by
  obtain ⟨t, ht⟩ := Option.isSome_iff_exists.mp h
  rw [ht, advance, ht]
  rfl

/-- A session with the host engine. -/
def session (cs : List (Command × Nat)) : Machine :=
  replay .byAge cs (fresh .host {} fun _ => .zero)

/-- A manager makes an array and a child, and a grandchild makes another array. -/
def family (rest : List (Command × Nat)) : Machine :=
  session ([(.base "p" none, 1), (.allocate "p" "a" (.zeros ⟨[2]⟩ none) none, 1),
    (.sub "p" "c" none, 1), (.sub "c" "d" none, 1),
    (.allocate "d" "b" (.zeros ⟨[1]⟩ none) none, 1)] ++ rest)

/-- All that is left is closed. -/
def closings : List (Command × Nat) := [(.close "p", 15), (.shutdown, 3)]

/-- The child has been detached, and has its own child below it. -/
def orphaned : Machine := advance .byAge 1 (family [(.detachSub "p" "c", 0)])

theorem familyOf_orphaned : orphaned.world.FamilyOf [⟨1⟩, ⟨2⟩] := by decide

theorem estates_orphaned : orphaned.world.estates [⟨1⟩, ⟨2⟩] =
    [.manager ⟨1⟩, .manager ⟨2⟩, .manager ⟨2⟩, .array ⟨1⟩] := by decide

theorem below_orphaned : ∀ m ∈ [(⟨1⟩ : ManagerId), ⟨2⟩], orphaned.world.Below ⟨1⟩ m := by
  simp only [List.forall_mem_cons, List.not_mem_nil, IsEmpty.forall_iff, implies_true, and_true]
  exact ⟨.refl, .single ⟨_, rfl, by decide⟩⟩

theorem severed_orphaned : orphaned.Severed ⟨1⟩ := by
  refine severed_of_list familyOf_orphaned (by decide) below_orphaned (by decide) ?_ (by decide)
  simp [estates_orphaned]

/-- A detached array and a detached child outlive the manager and the registry. -/
theorem detached_stays_family :
    (∃ s', (family [(.detachArray "p" "a", 0)]).stepAt .byAge 0 = some s' ∧
      (replay .byAge closings s').world.isReleased (.manager ⟨0⟩) = true ∧
      (replay .byAge closings s').world.isReleased (.array ⟨0⟩) = false) ∧
    (family [(.detachSub "p" "c", 0)]).stepAt .byAge 0 = some orphaned ∧
    (replay .byAge closings orphaned).world.isReleased (.manager ⟨0⟩) = true ∧
    (replay .byAge closings orphaned).world.lifecycle? ⟨1⟩ = some .opened ∧
    (replay .byAge closings orphaned).world.isReleased (.array ⟨1⟩) = false := by
  have hs : ∀ rest, Reachable .byAge .host (family rest) := fun _ => reachable_replay .byAge _ _ _ _
  constructor
  · have hi := stepAt_of_isSome .byAge (s := family [(.detachArray "p" "a", 0)]) (by decide)
    have hd : (family [(.detachArray "p" "a", 0)]).detached? 0 =
      some (⟨0⟩, .array ⟨0⟩, .array ⟨0⟩) := by decide
    have hloose : (family [(.detachArray "p" "a", 0)]).Loose (.array ⟨0⟩) :=
      ⟨by decide, by simp, by simp⟩
    obtain ⟨-, hstays, -⟩ := (detached_stays (hs _) hi).resource hd (by decide) hloose
      (takes_replay .byAge closings _) (by decide +kernel)
    exact ⟨_, hi, by decide +kernel, hstays.trans (by decide)⟩
  · have hi : (family [(.detachSub "p" "c", 0)]).stepAt .byAge 0 = some orphaned :=
      stepAt_of_isSome .byAge (by decide)
    have hd : (family [(.detachSub "p" "c", 0)]).parted? 0 = some (⟨0⟩, ⟨1⟩) := by decide
    have hspare : ∀ p ∈ replayed .byAge closings orphaned,
        p.1.Spares p.2 (· ∈ orphaned.world.estates [⟨1⟩, ⟨2⟩]) := by decide +kernel
    obtain ⟨hopen, hreleased⟩ := (detached_stays (hs _) hi).child hd severed_orphaned
      (takes_replay .byAge closings _)
      fun p hp => (hspare p hp).mono fun x hx => hx.mem familyOf_orphaned (by decide)
    have hb : orphaned.world.Household ⟨1⟩ (.array ⟨1⟩) :=
      ⟨⟨⟨2⟩, below_orphaned ⟨2⟩ (by decide), Or.inr ⟨_, rfl, by decide⟩⟩, by simp⟩
    exact ⟨hi, by decide +kernel, hopen ⟨1⟩ .refl (by decide), (hreleased _ hb).trans (by decide)⟩

/-! ### What else can lead to a resource -/

/-- A session that is taken up in the middle: the first thread goes on for some steps, and then
there are more commands. -/
def resume (order : VisitOrder) (n : Nat) (cs : List (Command × Nat)) (s : Machine) : Machine :=
  replay order cs (advance order n s)

/-- The steps of `resume`, the latest first. -/
def resumed (order : VisitOrder) (n : Nat) (cs : List (Command × Nat)) (s : Machine) :
    List (Machine × Nat) :=
  replayed order cs (advance order n s) ++ advanced order n s

theorem takes_resume (order : VisitOrder) (n : Nat) (cs : List (Command × Nat)) (s : Machine) :
    Takes order s (resumed order n cs s) (resume order n cs s) :=
  (takes_advance order n s).trans (takes_replay order cs _)

/-- A resource is about to be detached from its only key, and all steps of a run from the next
state on spare it. -/
structure Disowns (s s' : Machine) (ps : List (Machine × Nat)) (t : Machine) (x : Resource) :
    Prop where
  reachable : Reachable .byAge .host s
  step : s.stepAt .byAge 0 = some s'
  detached : ∃ m key, s.detached? 0 = some (m, key, x) ∧ s.world.holders x = [(m, key)]
  unreleased : s.world.isReleased x = false
  takes : Takes .byAge s' ps t
  spares : ∀ p ∈ ps, p.1.Spares p.2 (· = x)

/-- A child is about to be detached, and all steps of a run from the next state on spare what it
tracks and what is below it. -/
structure Orphans (s s' : Machine) (ps : List (Machine × Nat)) (t : Machine) (x : Resource) :
    Prop where
  reachable : Reachable .byAge .host s
  step : s.stepAt .byAge 0 = some s'
  parted : ∃ p c, s.parted? 0 = some (p, c) ∧ s'.world.Household c x ∧
    ∀ q ∈ ps, q.1.Spares q.2 (s'.world.Household c)
  unreleased : s.world.isReleased x = false
  takes : Takes .byAge s' ps t

section Resumed

/-! A session is about to take a step, and is taken up in the next state. -/

variable {cs : List (Command × Nat)} {x : Resource}

def onward (cs : List (Command × Nat)) : Machine := advance .byAge 1 (session cs)

theorem disowns_resume (m : ManagerId) (key : Label) (n : Nat) (rest : List (Command × Nat))
    (hi : ((session cs).stepAt .byAge 0).isSome = true)
    (hd : (session cs).detached? 0 = some (m, key, x))
    (hone : (session cs).world.holders x = [(m, key)])
    (hx : (session cs).world.isReleased x = false)
    (hspare : ∀ p ∈ resumed .byAge n rest (onward cs), p.1.Spares p.2 (· = x)) :
    Disowns (session cs) (onward cs) (resumed .byAge n rest (onward cs))
      (resume .byAge n rest (onward cs)) x :=
  ⟨reachable_replay .byAge _ _ _ _, stepAt_of_isSome .byAge hi, ⟨m, key, hd, hone⟩, hx,
    takes_resume .byAge n rest _, hspare⟩

/-- The child has no children itself. -/
theorem orphans_resume (p c : ManagerId) (n : Nat) (rest : List (Command × Nat))
    (hi : ((session cs).stepAt .byAge 0).isSome = true)
    (hd : (session cs).parted? 0 = some (p, c)) (hc : (onward cs).world.FamilyOf [c])
    (hx : (session cs).world.isReleased x = false) (hhouse : (onward cs).world.Household c x)
    (hspare : ∀ q ∈ resumed .byAge n rest (onward cs),
      q.1.Spares q.2 (· ∈ (onward cs).world.estates [c])) :
    Orphans (session cs) (onward cs) (resumed .byAge n rest (onward cs))
      (resume .byAge n rest (onward cs)) x :=
  ⟨reachable_replay .byAge _ _ _ _, stepAt_of_isSome .byAge hi,
    ⟨p, c, hd, hhouse, fun q hq => (hspare q hq).mono fun _ hy =>
      hy.mem hc (List.mem_singleton_self c)⟩, hx, takes_resume .byAge n rest _⟩

end Resumed

/-- A release hook that detaches what the manager `q` tracks. -/
def detachingHook : ResourceName := .hook "h" [.detach "q" (.text "k") none] .succeed

/-- Two managers track an array.  It is detached from one when the close of the other has taken it
over. -/
def takenOver : List (Command × Nat) :=
  [(.base "p" none, 1), (.base "q" none, 1), (.sub "p" "c" none, 1),
    (.allocate "c" "a" (.zeros ⟨[1]⟩ none) none, 1), (.detachArray "c" "a", 1),
    (.attach "p" (.text "k") (.array "a") none, 1), (.attach "q" (.text "k") (.array "a") none, 1),
    (.attach "c" (.text "x") detachingHook none, 1), (.close "p", 7)]

/-- A child is detached from another manager that tracked it. -/
def stillChild : List (Command × Nat) :=
  [(.base "p" none, 1), (.base "q" none, 1), (.sub "p" "c" none, 1),
    (.attach "q" (.text "k") (.manager "c") none, 1), (.detach "q" (.text "k") none, 0)]

/-- A root is detached from a manager that tracked it. -/
def stillRoot : List (Command × Nat) :=
  [(.base "p" none, 1), (.sub "p" "q" none, 1),
    (.attach "q" (.text "k") (.manager "p") none, 1), (.detach "q" (.text "k") none, 0)]

/-- A manager is detached in the middle of its own close. -/
def stillClosing : List (Command × Nat) :=
  [(.base "p" none, 1), (.base "q" none, 1), (.sub "p" "c" none, 1), (.detachSub "p" "c", 1),
    (.attach "q" (.text "k") (.manager "c") none, 1),
    (.attach "c" (.text "x") detachingHook none, 1), (.close "c", 5)]

/-- An array is detached. -/
def disowned : List (Command × Nat) :=
  [(.base "p" none, 1), (.allocate "p" "a" (.zeros ⟨[1]⟩ none) none, 1),
    (.detachArray "p" "a", 0)]

/-- A child is detached, but its parent tracks an array of the child. -/
def stillTracked : List (Command × Nat) :=
  [(.base "p" none, 1), (.sub "p" "c" none, 1), (.allocate "c" "a" (.zeros ⟨[1]⟩ none) none, 1),
    (.attach "p" (.text "k") (.array "a") none, 1), (.detachSub "p" "c", 0)]

/-- The manager of a scope is detached in the body of the scope. -/
def stillScoped : List (Command × Nat) :=
  [(.base "p" none, 1), (.scope "p" "c" none [.detachSub "p" "c"] false (.value .null), 2)]

/-- **To be detached is not enough** where something else leads to a resource: a close that has
taken it over, a parent, the registry, or its own close.  Nor is it for a child whose scope is
not at its end, or for an array of a child that an outside manager tracks as well.  And the bytes of
an array do not outlive a release by the engine itself. -/
theorem detached_reclaimed :
    (∀ e ∈ [(takenOver, Resource.array ⟨0⟩), (stillChild, .manager ⟨2⟩),
        (stillRoot, .manager ⟨0⟩), (stillClosing, .manager ⟨2⟩)],
      ∃ s' ps t, Disowns (session e.1) s' ps t e.2 ∧ t.world.isReleased e.2 = true) ∧
    (∀ e ∈ [(stillTracked, Resource.array ⟨0⟩), (stillScoped, .manager ⟨1⟩)],
      ∃ s' ps t, Orphans (session e.1) s' ps t e.2 ∧ t.world.isReleased e.2 = true) ∧
    ∃ s' ps t, Disowns (session disowned) s' ps t (.array ⟨0⟩) ∧
      ((session disowned).world.arrayBytes ⟨0⟩).2.isOk = true ∧
      (t.world.arrayBytes ⟨0⟩).2.isOk = false := by
  simp only [List.forall_mem_cons, List.not_mem_nil, IsEmpty.forall_iff, implies_true, and_true]
  refine ⟨⟨?_, ?_, ?_, ?_⟩, ⟨?_, ?_⟩, ?_⟩
  · refine ⟨_, _, _, disowns_resume ⟨1⟩ (.text "k") 9 [] ?_ ?_ ?_ ?_ ?_, ?_⟩ <;> decide +kernel
  · refine ⟨_, _, _, disowns_resume ⟨1⟩ (.text "k") 0 [(.close "p", 9)] ?_ ?_ ?_ ?_ ?_, ?_⟩ <;>
      decide +kernel
  · refine ⟨_, _, _, disowns_resume ⟨1⟩ (.text "k") 0 [(.shutdown, 15)] ?_ ?_ ?_ ?_ ?_, ?_⟩ <;>
      decide +kernel
  · refine ⟨_, _, _, disowns_resume ⟨1⟩ (.text "k") 9 [] ?_ ?_ ?_ ?_ ?_, ?_⟩ <;> decide +kernel
  · have hhouse : (onward stillTracked).world.Household ⟨1⟩ (.array ⟨0⟩) :=
      ⟨⟨⟨1⟩, .refl, Or.inr ⟨_, rfl, by decide +kernel⟩⟩, by simp⟩
    refine ⟨_, _, _, orphans_resume ⟨0⟩ ⟨1⟩ 0 [(.close "p", 15)] ?_ ?_ ?_ ?_ hhouse ?_, ?_⟩ <;>
      decide +kernel
  · have hhouse : (onward stillScoped).world.Household ⟨1⟩ (.manager ⟨1⟩) :=
      World.Below.household .refl (by decide +kernel)
    refine ⟨_, _, _, orphans_resume ⟨0⟩ ⟨1⟩ 15 [] ?_ ?_ ?_ ?_ hhouse ?_, ?_⟩ <;> decide +kernel
  · refine ⟨_, _, _, disowns_resume ⟨0⟩ (.array ⟨0⟩) 0 [(.direct (.release ⟨1⟩), 1)]
      ?_ ?_ ?_ ?_ ?_, ?_, ?_⟩ <;> decide +kernel

end Machine

end ArrayLifetimes
