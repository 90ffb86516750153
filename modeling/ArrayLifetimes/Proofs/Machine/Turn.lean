/-
What one step of a thread does.

A step is one of four things.  It begins a cascade, or ends one: these are the only steps
that take a manager from one lifecycle to the next.  Or the release of a resource is served
on the spot.  Or the thread goes on with the work on its stack, and then the cascades
and what they owe stay as they are.  The last two are chains of moves.

All invariants of machines are proved along these four cases.
-/
import ArrayLifetimes.Proofs.Machine.Frames

namespace ArrayLifetimes

namespace Thread

/-- The thread goes on with the work on its stack. -/
structure Goes (P : List Command → Prop) (w : World) (t : Thread) (v : World) (u : Thread)
    (started : List Thread) : Prop where
  moves : ∀ ns, World.Moves P (w, t.natives ++ ns) (v, u.natives ++ ns)
  cascades : u.cascades = t.cascades
  owed : u.owed = t.owed
  /-- The threads are those of before, unless there is a new one. -/
  ids : (∀ k ∈ u.ids, k ∈ t.ids) ∨
    started = [] ∧ ∃ n, w.threads ≤ n ∧ n < v.threads ∧ ∀ k ∈ u.ids, k = ⟨n⟩ ∨ k ∈ t.ids
  /-- A thread that is started closes a manager. -/
  started : started = [] ∨ (∀ k ∈ u.ids, k ∈ t.ids) ∧ ∃ n m, w.threads ≤ n ∧ n < v.threads ∧
    started = [⟨⟨n⟩, .release (.manager m) (.closer m)⟩]

/-- The release of a resource is served on the spot. -/
structure Serves (P : List Command → Prop) (w : World) (t : Thread) (x : Resource)
    (below : Stack .outcome) (v : World) (u : Thread) : Prop where
  task : t.task = .release x below
  moves : ∀ ns, World.Moves P (w, t.natives ++ ns) (v, u.natives ++ ns)
  /-- It is released now, or it is a manager that closes already further down on the stack. -/
  served : v.isReleased x = true ∨ ¬ w.Has x ∨
    ∃ m, x = .manager m ∧ w.lifecycle? m = some (.closing t.id)
  cascades : u.cascades = t.cascades
  owed : t.owed = below.claim x ++ u.owed
  ids : u.ids = t.ids

/-- The four things that a step can be. -/
inductive Turn (P : List Command → Prop) (w : World) (t : Thread) :
    World → Thread → List Thread → Prop
  | begins (m : ManagerId) (r : Manager) (rest : Estate) (below : Stack .outcome)
      (task : t.task = .release (.manager m) below) (isOpen : w.openManager m = .ok r)
      (items : rest.items.Perm r.owned) :
      Turn P w t (w.beginClose m r t.id).1 ⟨t.id, .sweep m rest [] below⟩ []
  | ends (m : ManagerId) (failures : ReleaseFailures) (below : Stack .outcome)
      (task : t.task = .sweep m ⟨[], []⟩ failures below) :
      Turn P w t (w.endCascade m failures).1
        ⟨t.id, .settle (.ofFailures failures) below⟩ []
  | serves (v : World) (u : Thread) (x : Resource) (below : Stack .outcome)
      (h : Serves P w t x below v u) : Turn P w t v u []
  | goes (v : World) (u : Thread) (started : List Thread) (h : Goes P w t v u started) :
      Turn P w t v u started

section Step

variable {P : List Command → Prop} {w : World}

/-! ### Releases -/

/-- What is released already, does not exist, or closes on the same thread is passed over. -/
theorem turn_spared (id : ThreadId) (below : Stack .outcome) {x : Resource}
    (hx : w.isReleased x = true ∨ ¬ w.Has x ∨
      ∃ m, x = .manager m ∧ w.lifecycle? m = some (.closing id)) :
    Turn P w ⟨id, .release x below⟩ w ⟨id, .settle .ok below⟩ [] :=
  .serves w _ x below ⟨rfl, fun _ => .refl, hx, rfl, rfl, rfl⟩

theorem turn_releaseArray (order : VisitOrder) (id : ThreadId) (below : Stack .outcome)
    (a : ArrayId) {v : World} {u : Thread} {started : List Thread}
    (h : release order w id below (.array a) = .next v u started) :
    Turn P w ⟨id, .release (.array a) below⟩ v u started := by
  simp only [release, Step.next.injEq] at h
  obtain ⟨rfl, rfl, rfl⟩ := h
  refine .serves _ _ (.array a) below ⟨rfl, ?_, ?_, rfl, rfl, rfl⟩
  · intro ns
    exact (World.Move.releaseArray w _ a).single
  · rcases World.released_releaseArray w a with hr | hx
    · exact Or.inl hr
    · exact Or.inr (Or.inl hx)

theorem turn_releaseHook (order : VisitOrder) (id : ThreadId) (below : Stack .outcome)
    (g : HookId) {v : World} {u : Thread} {started : List Thread}
    (h : release order w id below (.hook g) = .next v u started) :
    Turn P w ⟨id, .release (.hook g) below⟩ v u started := by
  simp only [release] at h
  split at h
  · rename_i label work hg
    simp only [Step.next.injEq] at h
    obtain ⟨rfl, rfl, rfl⟩ := h
    refine .serves _ _ (.hook g) below ⟨rfl, ?_, Or.inl ?_, rfl, rfl, rfl⟩
    · intro ns
      exact (World.Move.spent w _ g).single
    · simp only [World.isReleased, World.hook?_takeHook, if_true, hg]
      rfl
  · rename_i hg
    simp only [Step.next.injEq] at h
    obtain ⟨rfl, rfl, rfl⟩ := h
    rcases World.released_of_no_work hg with hr | hx
    · exact turn_spared id below (Or.inl hr)
    · exact turn_spared id below (Or.inr (Or.inl hx))

theorem turn_releaseManager (order : VisitOrder) (id : ThreadId) (below : Stack .outcome)
    (m : ManagerId) {v : World} {u : Thread} {started : List Thread}
    (h : release order w id below (.manager m) = .next v u started) :
    Turn P w ⟨id, .release (.manager m) below⟩ v u started := by
  simp only [release] at h
  split at h
  · rename_i hm
    simp only [Step.next.injEq] at h
    obtain ⟨rfl, rfl, rfl⟩ := h
    refine turn_spared id below (Or.inr (Or.inl ?_))
    intro hx
    obtain ⟨r, hr⟩ := World.exists_of_has_manager hx
    rw [hm] at hr
    cases hr
  · rename_i r hr
    split at h
    · rename_i hl
      simp only [Step.next.injEq] at h
      obtain ⟨rfl, rfl, rfl⟩ := h
      refine turn_spared id below (Or.inl ?_)
      rw [World.isReleased_manager, World.lifecycle?_eq_some]
      exact ⟨r, hr, hl⟩
    · rename_i k hl
      split at h
      · rename_i hk
        simp only [Step.next.injEq] at h
        obtain ⟨rfl, rfl, rfl⟩ := h
        subst hk
        have hclosing := World.lifecycle?_eq_some.mpr ⟨r, hr, hl⟩
        exact turn_spared k below (Or.inr (Or.inr ⟨m, rfl, hclosing⟩))
      · cases h
    · rename_i hl
      simp only [Step.next.injEq] at h
      obtain ⟨rfl, rfl, rfl⟩ := h
      refine .begins m r (order.arrange m ⟨r.children, r.resources.entries⟩) below rfl
        (World.openManager_eq_ok.mpr ⟨hr, hl⟩) ?_
      exact order.items_arrange m _

theorem turn_release (order : VisitOrder) (id : ThreadId) (below : Stack .outcome)
    (x : Resource) {v : World} {u : Thread} {started : List Thread}
    (h : release order w id below x = .next v u started) :
    Turn P w ⟨id, .release x below⟩ v u started := by
  cases x with
  | array a => exact turn_releaseArray order id below a h
  | hook g => exact turn_releaseHook order id below g h
  | manager m => exact turn_releaseManager order id below m h

/-! ### Other work -/

/-- The thread stays, and what is listed of its stack does. -/
theorem turn_goes {t u : Thread} {v : World}
    (hm : ∀ ns, World.Moves P (w, t.natives ++ ns) (v, u.natives ++ ns))
    (hc : u.cascades = t.cascades) (ho : u.owed = t.owed) (hi : u.ids = t.ids) :
    Turn P w t v u [] :=
  .goes v u [] ⟨hm, hc, ho, Or.inl fun _ hk => hi ▸ hk, Or.inl rfl⟩

theorem moves_recordItem (w : World) (ns : List NativeArray) (m : ManagerId)
    (failures : ReleaseFailures) (outcome : Outcome) (item : Item) :
    World.Moves P (w, ns) ((w.recordItem m failures outcome item).1, ns) := by
  cases item with
  | child id =>
      simp only [World.recordItem]
      split <;> exact .refl
  | resource key =>
      simp only [World.recordItem]
      split
      · split
        · exact World.moves_note w ns _
        · exact .refl
      · exact World.moves_note w ns _

theorem moves_afterRelease (w : World) (ns : List NativeArray) (outcome : Outcome)
    (next : AfterRelease) : World.Moves P (w, ns) ((w.afterRelease outcome next).1, ns) := by
  cases next with
  | done | releasedBefore | releasedNow => exact .refl
  | droppedGuard m inUse r =>
      simp only [World.afterRelease]
      split
      · exact .refl
      · exact World.moves_note w ns _
      · exact .refl
  | endedScope p m body result =>
      cases result with
      | value v => exact .refl
      | fault f =>
          simp only [World.afterRelease, World.endScope]
          split
          · exact World.moves_note w ns _
          · exact .refl
      | panic q =>
          simp only [World.afterRelease, World.endScope]
          split
          · exact World.moves_note w ns _
          · exact .refl

theorem moves_endShutdown (w : World) (ns : List NativeArray) :
    World.Moves P (w, ns) (w.endShutdown, ns) :=
  World.moves_dropRoots w ns w.registered (w.shutdowns - 1)

theorem turn_settle (id : ThreadId) (outcome : Outcome) (below : Stack .outcome) {v : World}
    {u : Thread} {started : List Thread}
    (h : settle w id outcome below = .next v u started) :
    Turn P w ⟨id, .settle outcome below⟩ v u started := by
  cases below with
  | closer m =>
      simp only [settle, Step.next.injEq] at h
      obtain ⟨rfl, rfl, rfl⟩ := h
      exact turn_goes (fun _ => .refl) rfl rfl rfl
  | cascade m item rest failures below =>
      simp only [settle, Step.next.injEq] at h
      obtain ⟨rfl, rfl, rfl⟩ := h
      exact turn_goes (fun ns => moves_recordItem w _ m failures outcome item) rfl rfl rfl
  | release next below =>
      simp only [settle, Step.next.injEq] at h
      obtain ⟨rfl, rfl, rfl⟩ := h
      exact turn_goes (fun ns => moves_afterRelease w _ outcome next) rfl rfl rfl
  | shutdown root rest failures below =>
      simp only [settle] at h
      split at h <;> simp only [Step.next.injEq] at h <;> obtain ⟨rfl, rfl, rfl⟩ := h
      · exact turn_goes (fun _ => .refl) rfl rfl rfl
      · exact turn_goes (fun _ => .refl) rfl rfl rfl
      · exact turn_goes (fun ns => moves_endShutdown w _) rfl rfl rfl
  | closers m left replies caller below =>
      simp only [settle, Step.next.injEq] at h
      obtain ⟨rfl, rfl, rfl⟩ := h
      exact turn_goes (fun _ => .refl) rfl rfl rfl

theorem turn_sweep (id : ThreadId) (m : ManagerId) (rest : Estate) (failures : ReleaseFailures)
    (below : Stack .outcome) {v : World} {u : Thread} {started : List Thread}
    (h : sweep w id m rest failures below = .next v u started) :
    Turn P w ⟨id, .sweep m rest failures below⟩ v u started := by
  obtain ⟨children, resources⟩ := rest
  cases children with
  | cons c children =>
      simp only [sweep, Step.next.injEq] at h
      obtain ⟨rfl, rfl, rfl⟩ := h
      exact turn_goes (fun _ => .refl) rfl rfl rfl
  | nil =>
      cases resources with
      | cons e resources =>
          simp only [sweep, Step.next.injEq] at h
          obtain ⟨rfl, rfl, rfl⟩ := h
          exact turn_goes (fun _ => .refl) rfl rfl rfl
      | nil =>
          simp only [sweep, Step.next.injEq] at h
          obtain ⟨rfl, rfl, rfl⟩ := h
          exact .ends m failures below rfl

theorem turn_shutdown (id : ThreadId) (failures : ReleaseFailures) (below : Stack .reply)
    (roots : List ManagerId) {v : World} {u : Thread} {started : List Thread}
    (h : shutdown w id failures below roots = .next v u started) :
    Turn P w ⟨id, .shutdown roots failures below⟩ v u started := by
  cases roots with
  | nil =>
      simp only [shutdown, Step.next.injEq] at h
      obtain ⟨rfl, rfl, rfl⟩ := h
      exact turn_goes (fun ns => moves_endShutdown w _) rfl rfl rfl
  | cons root rest =>
      simp only [shutdown, Step.next.injEq] at h
      obtain ⟨rfl, rfl, rfl⟩ := h
      exact turn_goes (fun _ => .refl) rfl rfl rfl

theorem turn_closers (id : ThreadId) (m : ManagerId) (left : Nat) (replies : List Reply)
    (caller : ThreadId) (below : Stack .reply) {v : World} {u : Thread} {started : List Thread}
    (h : closers w m left replies caller below = .next v u started) :
    Turn P w ⟨id, .closers m left replies caller below⟩ v u started := by
  cases left with
  | zero =>
      simp only [closers, Step.next.injEq] at h
      obtain ⟨rfl, rfl, rfl⟩ := h
      refine .goes _ _ [] ⟨fun _ => .refl, rfl, rfl, Or.inl ?_, Or.inl rfl⟩
      intro k hk
      exact List.mem_cons_of_mem _ hk
  | succ left =>
      simp only [closers, World.newThread, Step.next.injEq] at h
      obtain ⟨rfl, rfl, rfl⟩ := h
      refine .goes _ _ []
        ⟨?_, rfl, rfl, Or.inr ⟨rfl, w.threads, Nat.le_refl _, Nat.lt_succ_self _, ?_⟩, Or.inl rfl⟩
      · intro ns
        exact (World.Move.thread w _).single
      · intro k hk
        rcases List.mem_cons.mp hk with hk | hk
        · exact Or.inl hk
        · exact Or.inr (List.mem_cons_of_mem _ hk)

theorem turn_perform (hw : w.WellOwned) (id : ThreadId) (running : List ManagerId) {c : Command}
    (hc : ∀ cs ∈ c.leaves, P cs) (below : Stack .reply) {v : World} {u : Thread}
    {started : List Thread} (h : perform w id running c below = .next v u started) :
    Turn P w ⟨id, .perform c below⟩ v u started := by
  have hm := fun ns => World.moves_perform hw (below.natives ++ ns) running hc
  unfold perform at h
  simp only at h
  split at h <;> rename_i ha <;> rw [ha] at hm <;>
    simp only [World.newThread, Step.next.injEq] at h <;> obtain ⟨rfl, rfl, rfl⟩ := h
  case h_5 =>
    refine turn_goes ?_ rfl rfl rfl
    intro ns
    have h := hm ns
    rw [Action.natives, ← List.append_assoc] at h
    exact h
  case h_6 =>
    have hle := (hm []).steady.threads
    refine .goes _ _ [] ⟨?_, rfl, rfl, Or.inr ⟨rfl, _, hle, Nat.lt_succ_self _, ?_⟩, Or.inl rfl⟩
    · intro ns
      exact (hm ns).trans (World.Move.thread _ _).single
    · intro k hk
      rcases List.mem_cons.mp hk with hk | hk
      · exact Or.inl hk
      · exact Or.inr hk
  case h_7 =>
    refine .goes _ _ [] ⟨hm, rfl, rfl, Or.inl ?_, Or.inl rfl⟩
    intro k hk
    rcases List.mem_cons.mp hk with hk | hk
    · exact hk ▸ List.mem_cons_self ..
    · exact hk
  case h_8 m _ =>
    have hle := (hm []).steady.threads
    refine .goes _ _ _ ⟨?_, rfl, rfl, Or.inl fun _ hk => hk,
      Or.inr ⟨fun _ hk => hk, _, _, hle, Nat.lt_succ_self _, rfl⟩⟩
    intro ns
    exact (hm ns).trans (World.Move.thread _ _).single
  all_goals exact turn_goes hm rfl rfl rfl

theorem turn_reply (id : ThreadId) (r : Reply) (below : Stack .reply) {v : World} {u : Thread}
    {started : List Thread} (h : reply w id r below = .next v u started) :
    Turn P w ⟨id, .reply r below⟩ v u started := by
  cases below with
  | top => cases h
  | script rest replies propagate below =>
      simp only [reply] at h
      split at h <;> simp only [Step.next.injEq] at h <;> obtain ⟨rfl, rfl, rfl⟩ := h <;>
        exact turn_goes (fun _ => .refl) rfl rfl rfl

theorem turn_script (id : ThreadId) (commands : List Command) (replies : List Reply)
    (propagate : Bool) (below : Stack .replies) {v : World} {u : Thread} {started : List Thread}
    (h : script w id commands replies propagate below = .next v u started) :
    Turn P w ⟨id, .script commands replies propagate below⟩ v u started := by
  cases commands <;> simp only [script, Step.next.injEq] at h <;> obtain ⟨rfl, rfl, rfl⟩ := h <;>
    exact turn_goes (fun _ => .refl) rfl rfl rfl

theorem turn_finish (hw : w.WellOwned) (id : ThreadId) (replies : List Reply)
    (fault : Option Fault) (below : Stack .replies) {v : World} {u : Thread}
    {started : List Thread} (h : finish w id replies fault below = .next v u started) :
    Turn P w ⟨id, .finish replies fault below⟩ v u started := by
  have hran := fun label ns => (World.Move.noted (P := P) w ns (.ran label replies) rfl).single
  cases below with
  | hook label ending below =>
      simp only [finish, Step.next.injEq] at h
      obtain ⟨rfl, rfl, rfl⟩ := h
      exact turn_goes (fun ns => hran label _) rfl rfl rfl
  | callback label next below =>
      simp only [finish, Step.next.injEq] at h
      obtain ⟨rfl, rfl, rfl⟩ := h
      refine turn_goes ?_ rfl rfl rfl
      intro ns
      have hr := hran label (next.natives ++ (below.natives ++ ns))
      have hp := hr.trans (World.moves_proceed (hr.wellOwned hw) (below.natives ++ ns) next)
      rw [← List.append_assoc] at hp
      exact hp
  | body p m ending below =>
      simp only [finish, Step.next.injEq] at h
      obtain ⟨rfl, rfl, rfl⟩ := h
      exact turn_goes (fun _ => .refl) rfl rfl rfl
  | joined caller below =>
      simp only [finish, Step.next.injEq] at h
      obtain ⟨rfl, rfl, rfl⟩ := h
      refine .goes _ _ [] ⟨fun _ => .refl, rfl, rfl, Or.inl ?_, Or.inl rfl⟩
      intro k hk
      exact List.mem_cons_of_mem _ hk

/-- **A step is one of four things.** -/
theorem turn_of_step (order : VisitOrder) (running : List ManagerId) (hw : w.WellOwned)
    {t : Thread} (hc : ∀ c below, t.task = .perform c below → ∀ cs ∈ c.leaves, P cs)
    {v : World} {u : Thread} {started : List Thread}
    (h : t.step order w running = .next v u started) : Turn P w t v u started := by
  obtain ⟨id, task⟩ := t
  cases task with
  | release x below => exact turn_release order id below x h
  | settle outcome below => exact turn_settle id outcome below h
  | sweep m rest failures below => exact turn_sweep id m rest failures below h
  | shutdown roots failures below => exact turn_shutdown id failures below roots h
  | closers m left replies caller below => exact turn_closers id m left replies caller below h
  | perform c below => exact turn_perform hw id running (hc c below rfl) below h
  | reply r below => exact turn_reply id r below h
  | script commands replies propagate below =>
      exact turn_script id commands replies propagate below h
  | finish replies fault below => exact turn_finish hw id replies fault below h

/-! ### What stays on the stack -/

/-- A step takes away at most the top of the stack. -/
theorem parts_of_step (order : VisitOrder) (running : List ManagerId) {t : Thread} {v : World}
    {u : Thread} {started : List Thread} (h : t.step order w running = .next v u started)
    {p : Sigma Stack} (hp : p ∈ t.task.parts) : p ∈ u.task.parts ∨ t.task.pops = some p := by
  obtain ⟨id, task⟩ := t
  cases task with
  | release x below =>
      refine Or.inl ?_
      cases x with
      | array a =>
          cases h
          exact hp
      | hook g =>
          simp only [step, release] at h
          split at h <;> cases h
          · exact List.mem_cons_of_mem _ hp
          · exact hp
      | manager m =>
          simp only [step, release] at h
          split at h
          · cases h
            exact hp
          · split at h
            · cases h
              exact hp
            · split at h <;> cases h
              exact hp
            · cases h
              exact hp
  | sweep m rest failures below =>
      refine Or.inl ?_
      obtain ⟨children, resources⟩ := rest
      cases children with
      | cons c children =>
          cases h
          exact List.mem_cons_of_mem _ hp
      | nil =>
          cases resources with
          | cons e resources =>
              cases h
              exact List.mem_cons_of_mem _ hp
          | nil =>
              cases h
              exact hp
  | shutdown roots failures below =>
      refine Or.inl ?_
      cases roots <;> cases h
      · exact hp
      · exact List.mem_cons_of_mem _ hp
  | closers m left replies caller below =>
      refine Or.inl ?_
      cases left <;> cases h
      · exact hp
      · exact List.mem_cons_of_mem _ hp
  | perform c below =>
      refine Or.inl ?_
      simp only [step, perform] at h
      split at h <;> cases h <;> first | exact hp | exact List.mem_cons_of_mem _ hp
  | script commands replies propagate below =>
      refine Or.inl ?_
      cases commands <;> cases h
      · exact hp
      · exact List.mem_cons_of_mem _ hp
  | settle outcome below =>
      cases below with
      | closer m =>
          rw [Task.parts, Stack.parts, List.mem_singleton] at hp
          exact Or.inr (congrArg some hp.symm)
      | shutdown root rest failures below =>
          rcases List.mem_cons.mp hp with htop | hbelow
          · exact Or.inr (congrArg some htop.symm)
          · refine Or.inl ?_
            simp only [step, settle] at h
            split at h <;> cases h <;> exact hbelow
      | _ =>
          rcases List.mem_cons.mp hp with htop | hbelow
          · exact Or.inr (congrArg some htop.symm)
          · cases h
            exact Or.inl hbelow
  | reply r below =>
      cases below with
      | top => cases h
      | script rest replies propagate below =>
          rcases List.mem_cons.mp hp with htop | hbelow
          · exact Or.inr (congrArg some htop.symm)
          · refine Or.inl ?_
            simp only [step, reply] at h
            split at h <;> cases h <;> exact hbelow
  | finish replies fault below =>
      cases below <;> rcases List.mem_cons.mp hp with htop | hbelow
      case body.inr =>
        cases h
        exact Or.inl (List.mem_cons_of_mem _ hbelow)
      all_goals first | exact Or.inr (congrArg some htop.symm) | cases h; exact Or.inl hbelow

/-! ### Threads that wait -/

/-- The manager that closes on another thread and that a thread waits for. -/
def awaits? (w : World) : Thread → Option ManagerId
  | ⟨id, .release (.manager m) _⟩ =>
    match w.lifecycle? m with
    | some (.closing k) => if k = id then none else some m
    | _ => none
  | _ => none

theorem awaits?_eq_some {t : Thread} {m : ManagerId} : t.awaits? w = some m ↔
    (∃ below, t.task = .release (.manager m) below) ∧
      ∃ k, w.lifecycle? m = some (.closing k) ∧ k ≠ t.id := by
  obtain ⟨id, task⟩ := t
  constructor
  · intro h
    unfold awaits? at h
    split at h
    · rename_i n below heq
      cases heq
      split at h
      · rename_i k hk
        split at h <;> cases h
        rename_i hne
        exact ⟨⟨below, rfl⟩, k, hk, hne⟩
      · cases h
    · cases h
  · rintro ⟨⟨below, rfl⟩, k, hk, hne⟩
    simp only [awaits?, hk, if_neg hne]

/-- **A thread goes on, waits in a close, or has done all its work.** -/
theorem progress (order : VisitOrder) (w : World) (running : List ManagerId) (t : Thread) :
    (∃ v u started, t.step order w running = .next v u started) ∨
      (∃ m, t.awaits? w = some m) ∨ t.reply?.isSome = true := by
  obtain ⟨id, task⟩ := t
  cases task with
  | release x below =>
      cases x with
      | array a => exact Or.inl ⟨_, _, _, rfl⟩
      | hook g =>
          refine Or.inl ?_
          simp only [step, release]
          split <;> exact ⟨_, _, _, rfl⟩
      | manager m =>
          by_cases hwaits : ∃ n, awaits? w ⟨id, .release (.manager m) below⟩ = some n
          · exact Or.inr (Or.inl hwaits)
          refine Or.inl ?_
          simp only [step, release]
          split
          · exact ⟨_, _, _, rfl⟩
          · rename_i r hr
            split
            · exact ⟨_, _, _, rfl⟩
            · rename_i k hl
              split
              · exact ⟨_, _, _, rfl⟩
              · rename_i hne
                refine absurd ⟨m, awaits?_eq_some.mpr ⟨⟨below, rfl⟩, k, ?_, hne⟩⟩ hwaits
                exact World.lifecycle?_eq_some.mpr ⟨r, hr, hl⟩
            · exact ⟨_, _, _, rfl⟩
  | settle outcome below =>
      refine Or.inl ?_
      cases below with
      | shutdown root rest failures below =>
          simp only [step, settle]
          split <;> exact ⟨_, _, _, rfl⟩
      | _ => exact ⟨_, _, _, rfl⟩
  | sweep m rest failures below =>
      refine Or.inl ?_
      obtain ⟨children, resources⟩ := rest
      cases children with
      | cons c children => exact ⟨_, _, _, rfl⟩
      | nil => cases resources <;> exact ⟨_, _, _, rfl⟩
  | shutdown roots failures below => exact Or.inl (by cases roots <;> exact ⟨_, _, _, rfl⟩)
  | closers m left replies caller below =>
      exact Or.inl (by cases left <;> exact ⟨_, _, _, rfl⟩)
  | perform c below =>
      refine Or.inl ?_
      simp only [step, perform]
      split <;> exact ⟨_, _, _, rfl⟩
  | reply r below =>
      cases below with
      | top => exact Or.inr (Or.inr rfl)
      | script rest replies propagate below =>
          refine Or.inl ?_
          simp only [step, reply]
          split <;> exact ⟨_, _, _, rfl⟩
  | script commands replies propagate below =>
      exact Or.inl (by cases commands <;> exact ⟨_, _, _, rfl⟩)
  | finish replies fault below => exact Or.inl (by cases below <;> exact ⟨_, _, _, rfl⟩)

end Step

end Thread

end ArrayLifetimes
