/-
The shutdown of the registry.

A shutdown takes a copy of the list of roots and closes one after the other.  The roots take
themselves off the registry's own list meanwhile.  A root that fails does not keep the others
from being closed, and what failed below all of them is reported as one list.

The trees below the roots stand beside each other, so each of these closes does and reports what
it would have done and reported alone.  The machine's part is the loop: from one root to the
next the list of failures grows by what the close of the root has reported.
-/
import ArrayLifetimes.Proofs.Cascade.Grove
import ArrayLifetimes.Proofs.FailuresExact
import ArrayLifetimes.Proofs.ForestExact
import ArrayLifetimes.Proofs.Machine.Execution

namespace ArrayLifetimes

namespace World

variable {w v : World} {t : Holding} {ts : List Holding} {ms : List ManagerId}
  {xs : List Resource}

/-! ### The begin and the end -/

/-- The world in which a shutdown closes its roots. -/
def shuttingDown (w : World) : World := w.beginShutdown.note (.shuttingDown w.sortedRoots.length)

theorem Stands.shuttingDown (h : w.Stands t) : w.shuttingDown.Stands t where
  fits p hp := by
    cases h.fits p hp with
    | array key a ha => exact .array key a ha
    | hook key g r hr quiet => exact .hook key g r hr quiet
    | opened key m r hr hk hc gone hx => exact .opened key m r hr hk hc gone hx
    | closed key m hm below => exact .closed key m hm below
  ids := h.ids
  leaves := h.leaves

theorem Grove.shuttingDown (h : w.Grove ts) : w.shuttingDown.Grove ts where
  stands t ht := (h.stands t ht).shuttingDown
  ids := h.ids
  leaves := h.leaves

theorem failures_shuttingDown (w : World) (t : Holding) :
    w.shuttingDown.failures t = w.failures t := by
  rw [failures_eq, failures_eq]
  refine List.filterMap_congr fun e _ => ?_
  have houtcome : w.shuttingDown.outcomeOf e.2 = w.outcomeOf e.2 := by
    cases e.2 with
    | array a =>
        rw [outcomeOf_array, outcomeOf_array]
        rfl
    | hook g => rfl
    | manager m => rfl
  rw [failure?, failure?, houtcome]

/-- The client still has the registry, so the end of a shutdown leaves its list alone. -/
theorem endShutdown_of_registered (h : w.registered = true) :
    w.endShutdown = { w with shutdowns := w.shutdowns - 1 } := by
  simp [endShutdown, dropRoots, h]

/-- What is cleared between the begin and the end of a shutdown is cleared by it. -/
theorem Cleared.endShutdown (h : w.shuttingDown.Cleared ms xs v) (hw : w.registered = true) :
    w.Cleared ms xs v.endShutdown := by
  have hv : v.registered = true := h.registered.trans hw
  have hshutdowns : v.shutdowns - 1 = w.shutdowns := by
    rw [h.shutdowns]
    rfl
  rw [endShutdown_of_registered hv]
  exact ⟨h.managers, h.arrays, h.hooks, h.roots, h.engine, h.config, h.registered, hshutdowns,
    h.client, h.threads⟩

/-- Roots that are closed are no roots any more. -/
theorem Cleared.roots_eq_nil (h : w.Cleared ms xs v) (hn : w.roots.Nodup)
    (hms : ∀ m ∈ w.roots, m ∈ w.ofOwner .registry ms) : v.roots = [] := by
  rw [h.roots]
  refine List.eq_nil_iff_forall_not_mem.mpr fun m hm => ?_
  obtain ⟨hroot, hnot⟩ := hn.mem_sdiff_iff.mp hm
  exact hnot (hms m hroot)

/-! ### The roots on their own -/

/-- The close of a manager returns the outcome if it is called in the world: in some order of
visits, and on some thread. -/
def ClosesAlone (w : World) (m : ManagerId) (o : Outcome) : Prop :=
  ∃ order id v, w.Closes order id m o v

theorem exists_tree (h : List.Forall₂ (fun m t => Holding.id? t = some m) ms ts) :
    ∀ m ∈ ms, ∃ t ∈ ts, t.id? = some m := by
  induction h with
  | nil =>
      intro m hm
      cases hm
  | @cons n t ms ts hn _ ih =>
      intro m hm
      rcases List.mem_cons.mp hm with rfl | hm
      · exact ⟨t, List.mem_cons_self .., hn⟩
      · obtain ⟨u, hu, hmu⟩ := ih m hm
        exact ⟨u, List.mem_cons_of_mem _ hu, hmu⟩

/-- What the closes of the trees report, each on its own, is all that fails below them. -/
theorem perm_reported (hts : ∀ t ∈ ts, w.Stands t) (hw : w.Apart)
    (settled : w.Settled (ts.flatMap w.pending))
    (hms : List.Forall₂ (fun m t => Holding.id? t = some m) ms ts) {os : List Outcome}
    (hos : List.Forall₂ w.ClosesAlone ms os) :
    (os.flatMap Outcome.reported).Perm (ts.flatMap w.failures) := by
  induction hms generalizing os with
  | nil =>
      cases hos
      exact .refl _
  | @cons m t ms ts hm _ ih =>
      cases hos with
      | cons ho hos =>
          obtain ⟨order, id, v, ho⟩ := ho
          rw [List.flatMap_cons] at settled
          have hhead := (hts t (List.mem_cons_self ..)).perm_reported hw
            (settled.mono (List.sublist_append_left ..).subperm) hm ho
          have htail := ih (fun u hu => hts u (List.mem_cons_of_mem _ hu))
            (settled.mono (List.sublist_append_right ..).subperm) hos
          exact hhead.append htail

theorem flatMap_failures_eq_nil (w : World) (ts : List Holding) :
    ts.flatMap w.failures = [] ↔
      ∀ t ∈ ts, ∀ e ∈ t.leaves, w.isReleased e.2 = false → w.outcomeOf e.2 = .ok := by
  rw [List.flatMap_eq_nil_iff]
  exact forall₂_congr fun t _ => w.failures_eq_nil t

/-- A root has its place in the registry because it was made for it and is not closed. -/
theorem mem_ofOwner_of_under {m : ManagerId} (h : w.Under .registry m) (hm : m ∈ ms) :
    m ∈ w.ofOwner .registry ms := by
  obtain ⟨k, hk, ho, -⟩ := h
  obtain ⟨r, hr, rfl⟩ := Option.map_eq_some_iff.mp hk
  have howner : r.owner = .registry := ho
  refine List.mem_filter.mpr ⟨hm, ?_⟩
  rw [hr, Option.any_some, howner, beq_self_eq_true]

end World

namespace Machine

variable {order : VisitOrder} {s : Machine} {i : Nat} {id : ThreadId} {below : Stack .reply}

/-! ### The loop over the roots -/

/-- The reply of a shutdown from the failures that it has collected. -/
def shutdownReply (failures : ReleaseFailures) : Reply :=
  .ofExcept (fun _ => .done) (Outcome.ofFailures failures).toExcept

theorem step_shutdown {w : World} (hw : w.registered = true) (running : List ManagerId) :
    (⟨id, .perform .shutdown below⟩ : Thread).step order w running =
      .next w.shuttingDown ⟨id, .shutdown w.sortedRoots [] below⟩ [] := by
  have hrequire : w.requireRegistry = .ok () := if_pos hw
  simp only [Thread.step, Thread.perform, World.perform, World.attempt, World.performShutdown,
    hrequire, bind, Except.bind, pure, Except.pure]
  rfl

/-- The shutdown takes over what the close of one root has reported. -/
theorem step_settle_shutdown (w : World) (root : ManagerId) (rest : List ManagerId)
    (failures fs : ReleaseFailures) (running : List ManagerId) :
    (⟨id, .settle (.ofFailures fs) (.shutdown root rest failures below)⟩ : Thread).step order w
        running = .next w ⟨id, .shutdown rest (failures ++ fs) below⟩ [] := by
  cases fs with
  | nil =>
      rw [List.append_nil]
      rfl
  | cons f fs => rfl

/-- **The roots are closed one after the other**, whatever their closes report. -/
theorem executes_roots (hlt : i < s.threads.length) {calls : List CloseCall}
    {fs : ReleaseFailures} {w v : World} (h : w.ClosesAll calls fs v) {roots : List ManagerId}
    (hcalls : calls = roots.map (CloseCall.mk order id)) {failures : ReleaseFailures}
    (hs : Executes order i below s
      ⟨w, s.threads.set i ⟨id, .shutdown roots failures below⟩⟩) :
    Executes order i below s
      ⟨v, s.threads.set i ⟨id, .shutdown [] (failures ++ fs) below⟩⟩ := by
  induction h generalizing roots failures with
  | nil w =>
      obtain rfl : roots = [] := List.map_eq_nil_iff.mp hcalls.symm
      rwa [List.append_nil]
  | @cons w u v c calls o fs hclose _ ih =>
      cases roots with
      | nil => cases hcalls
      | cons root rest =>
          obtain ⟨rfl, rfl⟩ := List.cons.inj hcalls
          obtain ⟨gs, rfl⟩ := hclose.exists_failures
          have hsize : sizeOf below < sizeOf (Stack.shutdown root rest failures below) := by
            simp only [Stack.shutdown.sizeOf_spec]
            omega
          have hasks : Executes order i below s ⟨w, s.threads.set i
              ⟨id, .release (.manager root) (.shutdown root rest failures below)⟩⟩ :=
            hs.step hlt (fun r => nofun) fun _ => rfl
          have hcloses := hasks.close hlt hsize hclose
          have htakes := hcloses.step hlt (fun r => nofun)
            (step_settle_shutdown u root rest failures gs)
          rw [Outcome.reported_ofFailures, ← List.append_assoc]
          exact ih rfl htakes

/-- **A shutdown from its call to its reply**, if the closes of its roots are known. -/
theorem executes_shutdown (hw : s.world.registered = true)
    (hi : s.threads[i]? = some ⟨id, .perform .shutdown below⟩) {fs : ReleaseFailures} {v : World}
    (h : s.world.shuttingDown.ClosesAll (s.world.sortedRoots.map (CloseCall.mk order id)) fs v) :
    Executes order i below s
      ⟨v.endShutdown, s.threads.set i ⟨id, .reply (shutdownReply fs) below⟩⟩ := by
  have hlt := (List.getElem?_eq_some_iff.mp hi).1
  have hbegins : Executes order i below s _ := .single hi (fun r => nofun) (step_shutdown hw)
  have hloop := executes_roots hlt h rfl hbegins
  rw [List.nil_append] at hloop
  exact hloop.step hlt (fun r => nofun) fun _ => rfl

/-- A shutdown without roots changes nothing but the journal. -/
theorem executes_shutdown_of_nil (hw : s.world.registered = true) (hr : s.world.roots = [])
    (hi : s.threads[i]? = some ⟨id, .perform .shutdown below⟩) :
    Executes order i below s
      ⟨s.world.note (.shuttingDown 0), s.threads.set i ⟨id, .reply (.answer .done) below⟩⟩ := by
  have hroots : s.world.sortedRoots = [] := by
    rw [World.sortedRoots, hr]
    exact List.mergeSort_nil
  have hall : s.world.shuttingDown.ClosesAll
      (s.world.sortedRoots.map (CloseCall.mk order id)) [] s.world.shuttingDown := by
    rw [hroots]
    exact .nil _
  have hexec := executes_shutdown hw hi hall
  have hregistered : s.world.shuttingDown.registered = true := hw
  have hnote : s.world.shuttingDown = s.world.beginShutdown.note (.shuttingDown 0) := by
    rw [World.shuttingDown, hroots]
    rfl
  rw [World.endShutdown_of_registered hregistered, hnote] at hexec
  exact hexec

/-! ### The whole shutdown -/

/-- What a shutdown replies, and what the closes of its roots would have reported. -/
structure Sums (w : World) (ts : List Holding) (r : Reply) : Prop where
  done_iff : r = .answer .done ↔
    ∀ t ∈ ts, ∀ e ∈ t.leaves, w.isReleased e.2 = false → w.outcomeOf e.2 = .ok
  /-- There is one kind of error, with the entries of all roots. -/
  entries : r ≠ .answer .done → ∃ fs, r = .fault (.manager (.release fs)) ∧
    ∀ os, List.Forall₂ w.ClosesAlone w.roots os → fs.Perm (os.flatMap Outcome.reported)

/-- A shutdown that starts in `s` has its reply in `t`. -/
structure Backstop (order : VisitOrder) (i : Nat) (id : ThreadId) (below : Stack .reply)
    (ts : List Holding) (s t : Machine) (r : Reply) : Prop where
  executes : Executes order i below s t
  replied : t.threads[i]? = some ⟨id, .reply r below⟩
  /-- There is no other way for it to go. -/
  only : ∀ u q, Executes order i below s u → u.Replied i below q → u = t
  closed : ∀ m ∈ s.world.roots, t.world.lifecycle? m = some .closed
  empty : t.world.roots = []
  /-- Everything below the roots is closed and released, and nothing else is done. -/
  cleared : s.world.Cleared (ts.flatMap s.world.opens) (ts.flatMap s.world.pending) t.world
  /-- The close of each root would have returned. -/
  alone : ∀ m ∈ s.world.roots, ∃ o, s.world.ClosesAlone m o
  /-- If how the release of a leaf ends does not depend on the others, failures add up. -/
  sums : s.world.Settled (ts.flatMap s.world.pending) → Sums s.world ts r
  /-- Another shutdown, on whatever thread, replies that it is done and changes nothing but the
  journal. -/
  again : ∀ (past : VisitOrder) (a : Machine) (j : Nat) (k : ThreadId) (bottom : Stack .reply),
    a.world = t.world → a.threads[j]? = some ⟨k, .perform .shutdown bottom⟩ →
      Executes past j bottom a
        ⟨t.world.note (.shuttingDown 0), a.threads.set j ⟨k, .reply (.answer .done) bottom⟩⟩

theorem shutdownReply_eq_done {fs : ReleaseFailures} :
    shutdownReply fs = .answer .done ↔ fs = [] := by
  cases fs with
  | nil => exact iff_of_true rfl rfl
  | cons f fs =>
      refine iff_of_false ?_ (by simp)
      intro h
      cases h

/-- The reply sums up the failures below all roots. -/
theorem sums_shutdownReply {w : World} {ts : List Holding} (hw : w.Apart)
    (hts : ∀ t ∈ ts, w.Stands t) (settled : w.Settled (ts.flatMap w.pending))
    (hroots : List.Forall₂ (fun m t => Holding.id? t = some m) w.roots ts)
    {fs : ReleaseFailures} (hfs : fs.Perm (ts.flatMap w.failures)) :
    Sums w ts (shutdownReply fs) where
  done_iff := by
    rw [shutdownReply_eq_done, ← World.flatMap_failures_eq_nil]
    exact ⟨fun h => (h ▸ hfs).nil_eq.symm, fun h => (h ▸ hfs).eq_nil⟩
  entries h := by
    cases fs with
    | nil => exact absurd rfl h
    | cons f fs =>
        exact ⟨_, rfl, fun os hos =>
          hfs.trans (World.perm_reported hts hw settled hroots hos).symm⟩

/-- The roots of the registry have been made for it and are not closed, each is there once. -/
theorem Reachable.roots {past : VisitOrder} {kind : EngineKind} (hs : Reachable past kind s)
    (hw : s.world.registered = true) :
    s.world.roots.Nodup ∧ ∀ m ∈ s.world.roots, s.world.Under .registry m := by
  obtain ⟨made, parted, hp⟩ := hs.exists_planted
  exact ⟨hp.nodup_roots, fun m => (hp.mem_roots (Or.inl hw) m).mp⟩

/-- The trees below the roots can be closed in the order of the shutdown. -/
theorem exists_closesAll_roots (order : VisitOrder) (id : ThreadId) {w : World}
    {ts : List Holding} (hw : w.Apart) (hts : w.Grove ts)
    (hroots : List.Forall₂ (fun m t => Holding.id? t = some m) w.roots ts) :
    ∃ fs v, w.shuttingDown.ClosesAll (w.sortedRoots.map (CloseCall.mk order id)) fs v ∧
      w.shuttingDown.Cleared (ts.flatMap w.opens) (ts.flatMap w.pending) v ∧
      (w.Settled (ts.flatMap w.pending) → fs.Perm (ts.flatMap w.failures)) := by
  obtain ⟨us, hus, hperm⟩ := List.perm_comp_forall₂
    (List.mergeSort_perm w.roots fun a b => decide (a.index ≤ b.index)) hroots
  have hcalls : List.Forall₂ CloseCall.Closes
      (w.sortedRoots.map (CloseCall.mk order id)) us := by
    rw [List.forall₂_map_left_iff]
    exact hus
  obtain ⟨fs, v, hall, hv, hfs⟩ :=
    (hts.perm hperm.symm).shuttingDown.exists_closesAll hw hcalls
  have hpending := hperm.flatMap_right w.pending
  refine ⟨fs, v, hall, hv.perm (hperm.flatMap_right _) hpending, fun settled => ?_⟩
  have hreported := hfs (settled.mono hpending.subperm)
  rw [List.flatMap_congr fun t _ => w.failures_shuttingDown t] at hreported
  exact hreported.trans (hperm.flatMap_right _)

/-- **Shutdown is a backstop.**  For each root of the registry there is a tree of what it holds, and
the trees share nothing.  A shutdown closes all roots in every order of visits, whichever of the
releases fail, and sums up what the roots report. -/
theorem shutdown_backstop {past : VisitOrder} {kind : EngineKind} (hs : Reachable past kind s)
    (hw : s.world.registered = true) {ts : List Holding} (hts : s.world.Grove ts)
    (hroots : List.Forall₂ (fun m t => Holding.id? t = some m) s.world.roots ts)
    (hi : s.threads[i]? = some ⟨id, .perform .shutdown below⟩) (order : VisitOrder) :
    ∃ t r, Backstop order i id below ts s t r := by
  obtain ⟨hnodup, hunder⟩ := hs.roots hw
  obtain ⟨fs, v, hall, hv, hfs⟩ := exists_closesAll_roots order id hs.apart hts hroots
  have hcleared := hv.endShutdown hw
  have htree := World.exists_tree hroots
  have hopens : ∀ m ∈ s.world.roots, m ∈ ts.flatMap s.world.opens := by
    intro m hm
    obtain ⟨t, ht, hmt⟩ := htree m hm
    refine List.mem_flatMap.mpr ⟨t, ht, List.mem_filter.mpr ⟨Holding.mem_ids_of_id? hmt, ?_⟩⟩
    rw [World.not_released_of_under (hunder m hm), Bool.not_false]
  have hempty : v.endShutdown.roots = [] := hcleared.roots_eq_nil hnodup fun m hm =>
    World.mem_ofOwner_of_under (hunder m hm) (hopens m hm)
  have hexec := executes_shutdown hw hi hall
  refine ⟨_, _, hexec, List.getElem?_set_self (List.getElem?_eq_some_iff.mp hi).1, ?_, ?_, hempty,
    hcleared, ?_, fun settled => sums_shutdownReply hs.apart hts.stands settled hroots (hfs settled),
    ?_⟩
  · intro u q hu hq
    exact hexec.eq_of_replied hu (replied_set hi _ _) hq
  · intro m hm
    rw [← World.isReleased_manager, hcleared.isReleased_manager (hunder m hm).has]
    simp [hopens m hm]
  · intro m hm
    obtain ⟨t, ht, hmt⟩ := htree m hm
    obtain ⟨zs, u, o, h⟩ := (hts.stands t ht).exists_released order id hs.apart
    exact ⟨o, order, id, u, h.closes hmt⟩
  · intro past' a j k bottom ha hj
    have hregistered : a.world.registered = true := by
      rw [ha]
      exact hcleared.registered.trans hw
    have hnone : a.world.roots = [] := by
      rw [ha]
      exact hempty
    rw [← ha]
    exact executes_shutdown_of_nil hregistered hnone hj

/-- Two roots.  The first has an array that the engine does not release and a release hook that
reports an error; a hook below the second panics.  The session stops at a shutdown. -/
def failingRoots : Machine :=
  replay .byAge
    [(.base "p" none, 1), (.base "q" none, 1), (.sub "q" "d" none, 1),
      (.allocate "p" "a" (.zeros ⟨[1]⟩ none) none, 1), (.failRelease "a", 1),
      (.attach "p" (.text "k") (.hook "h" [] (.fail (.operationFailed "busy"))) none, 1),
      (.attach "d" (.text "k") (.hook "g" [] (.panic (.text "stop"))) none, 1), (.shutdown, 0)]
    (fresh .recording {} fun _ => .zero)

/-- What is below its roots. -/
def failingGrove : List Holding :=
  [.manager (.text "") ⟨0⟩ []
      [.leaf (.array ⟨0⟩) (.array ⟨0⟩), .leaf (.text "k") (.hook ⟨0⟩)],
    .manager (.text "") ⟨1⟩
      [.manager (.text "") ⟨2⟩ [] [.leaf (.text "k") (.hook ⟨1⟩)]] []]

theorem grove_failingRoots : failingRoots.world.Grove failingGrove := by
  have quiet : ∀ {h : HookId} {ending : HookEnd} {label : String} (key : Label),
      failingRoots.world.hook? h = some ⟨label, some ⟨[], ending⟩⟩ →
      failingRoots.world.Fits (.leaf key (.hook h)) := by
    intro h ending label key hr
    refine .hook key h _ hr ?_
    rintro work hwork
    cases hwork
    rfl
  have fits : ∀ p ∈ failingGrove.flatMap Holding.parts, failingRoots.world.Fits p := by
    intro p hp
    simp only [failingGrove, Holding.parts_manager, Holding.parts_leaf, List.flatMap_cons,
      List.flatMap_nil, List.append_nil, List.cons_append, List.nil_append, List.mem_cons,
      List.not_mem_nil, or_false] at hp
    rcases hp with rfl | rfl | rfl | rfl | rfl | rfl
    · exact .opened _ _ _ rfl (.refl _) rfl (fun c hc => .inl hc) rfl
    · exact .array _ _ (by decide)
    · exact quiet _ rfl
    · exact .opened _ _ _ rfl (.refl _) rfl (fun c hc => .inl hc) rfl
    · exact .opened _ _ _ rfl (.refl _) rfl (fun c hc => .inl hc) rfl
    · exact quiet _ rfl
  refine ⟨?_, by decide, by decide⟩
  intro t ht
  refine ⟨fun p hp => fits p (List.mem_flatMap.mpr ⟨t, ht, hp⟩), ?_, ?_⟩
  · exact (List.nodup_flatMap.mp (by decide : (failingGrove.flatMap Holding.ids).Nodup)).1 t ht
  · rw [failingGrove, List.mem_cons, List.mem_singleton] at ht
    rcases ht with rfl | rfl <;> decide

theorem shutdown_backstop_of_failing :
    (failingGrove.flatMap failingRoots.world.failures).map (fun f => (f.key, f.code)) =
        [(.array ⟨0⟩, 2003), (.text "k", 2006), (.text "k", 1008)] ∧
      ∃ t r, Backstop .byAge 0 ⟨0⟩ .top failingGrove failingRoots t r :=
  ⟨by decide, shutdown_backstop (reachable_replay .byAge .recording {} _ _) rfl
    grove_failingRoots (.cons rfl (.cons rfl .nil)) rfl .byAge⟩

end Machine

end ArrayLifetimes
