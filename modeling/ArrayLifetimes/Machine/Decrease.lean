/-
Every step makes progress.

`Less` orders a world with the threads that a step leaves below the world and the thread
before it, by the three numbers of `Progress`: the commands that are left, the open
managers, the frames.  `step_less` says that every step leads down.
-/
import ArrayLifetimes.Machine.Consumption

namespace ArrayLifetimes

/-! ### Lists in which one entry changes -/

theorem countP_modify_le {α : Type} {p : α → Bool} {f : α → α}
    (h : ∀ a, p (f a) = true → p a = true) (l : List α) (i : Nat) :
    (l.modify i f).countP p ≤ l.countP p := by
  induction l generalizing i with
  | nil => simp
  | cons a l ih =>
    cases i with
    | zero =>
      simp only [List.modify_zero_cons, List.countP_cons]
      have := h a
      split <;> split <;> simp_all
    | succ i =>
      simp only [List.modify_succ_cons, List.countP_cons]
      have := ih i
      omega

theorem countP_modify_lt {α : Type} {p : α → Bool} {f : α → α} {a : α} {l : List α} {i : Nat}
    (hi : l[i]? = some a) (ha : p a = true) (hf : p (f a) = false) :
    (l.modify i f).countP p < l.countP p := by
  induction l generalizing i with
  | nil => simp at hi
  | cons b l ih =>
    cases i with
    | zero =>
      simp only [List.getElem?_cons_zero, Option.some.injEq] at hi
      subst hi
      simp [ha, hf]
    | succ i =>
      simp only [List.getElem?_cons_succ] at hi
      simp only [List.modify_succ_cons, List.countP_cons]
      have := ih hi
      omega

theorem sum_map_modify {α : Type} {g : α → Nat} {f : α → α} {a : α} {l : List α} {i : Nat}
    (hi : l[i]? = some a) : ((l.modify i f).map g).sum + g a = (l.map g).sum + g (f a) := by
  induction l generalizing i with
  | nil => simp at hi
  | cons b l ih =>
    cases i with
    | zero =>
      simp only [List.getElem?_cons_zero, Option.some.injEq] at hi
      subst hi
      simp
      omega
    | succ i =>
      simp only [List.getElem?_cons_succ] at hi
      simp only [List.modify_succ_cons, List.map_cons, List.sum_cons]
      have := ih hi
      omega

namespace World

/-! ### Open managers -/

theorem openCount_eq_of_managers {v w : World} (h : v.managers = w.managers) :
    v.openCount = w.openCount := by
  simp [openCount, h]

theorem openCount_modifyManager_le (w : World) (m : ManagerId) {f : Manager → Manager}
    (h : ∀ r, (f r).isOpen = true → r.isOpen = true) :
    (w.modifyManager m f).openCount ≤ w.openCount := by
  simp only [openCount, modifyManager, Array.toList_modify]
  exact countP_modify_le h _ _

@[simp] theorem managers_callRelease (w : World) (c : Caller) (x : Handle) :
    (w.callRelease c x).1.managers = w.managers := by
  unfold callRelease
  simp only
  split <;> rfl

@[simp] theorem managers_releaseArray (w : World) (a : ArrayId) :
    (w.releaseArray a).1.managers = w.managers := by
  unfold releaseArray
  split
  · rfl
  · split
    · simp
      rfl
    · rfl

/-- A manager that starts to close is not open any more. -/
theorem openCount_beginClose {w : World} {m : ManagerId} {r : Manager} (thread : ThreadId)
    (hm : w.manager? m = some r) (hr : r.lifecycle = .opened) :
    (w.beginClose m r thread).1.openCount < w.openCount := by
  simp only [beginClose, note, record, openCount, modifyManager, Array.toList_modify]
  refine countP_modify_lt (a := r) ?_ ?_ ?_
  · simpa [manager?] using hm
  · simp [Manager.isOpen, hr]
  · simp [Manager.isOpen]

theorem openCount_unlink (w : World) (m : ManagerId) (o : Owner) :
    (w.unlink m o).openCount ≤ w.openCount := by
  cases o with
  | parent p =>
    refine openCount_modifyManager_le w p ?_
    intro r
    split <;> exact id
  | registry =>
    simp only [unlink]
    split <;> exact Nat.le_refl _

theorem openCount_finishClose (w : World) (m : ManagerId) :
    (w.finishClose m).openCount ≤ w.openCount := by
  unfold finishClose
  split
  · exact Nat.le_refl _
  · refine Nat.le_trans (openCount_unlink _ _ _) (openCount_modifyManager_le _ _ ?_)
    intro r h
    simp [Manager.isOpen] at h

theorem openCount_endShutdown (w : World) : w.endShutdown.openCount = w.openCount := by
  apply openCount_eq_of_managers
  unfold endShutdown dropRoots
  split <;> rfl

@[simp] theorem agenda_finishClose (w : World) (m : ManagerId) :
    (w.finishClose m).agenda = w.agenda := by
  unfold finishClose
  split
  · rfl
  · unfold unlink
    split
    · rfl
    · split <;> rfl

@[simp] theorem agenda_beginClose (w : World) (m : ManagerId) (r : Manager) (thread : ThreadId) :
    (w.beginClose m r thread).1.agenda = w.agenda := rfl

/-! ### Reports -/

theorem agenda_recordItem (w : World) (m : ManagerId) (failures : ReleaseFailures)
    (outcome : Outcome) (item : Item) :
    (w.recordItem m failures outcome item).1.agenda = w.agenda := by
  cases item <;> cases outcome <;> simp only [recordItem, Outcome.error?] <;>
    first | rfl | (split <;> rfl)

theorem managers_recordItem (w : World) (m : ManagerId) (failures : ReleaseFailures)
    (outcome : Outcome) (item : Item) :
    (w.recordItem m failures outcome item).1.managers = w.managers := by
  cases item <;> cases outcome <;> simp only [recordItem, Outcome.error?] <;>
    first | rfl | (split <;> rfl)

theorem agenda_afterRelease (w : World) (outcome : Outcome) (next : AfterRelease) :
    (w.afterRelease outcome next).1.agenda = w.agenda := by
  cases next with
  | endedScope p m body result => cases result <;> cases outcome <;> rfl
  | droppedGuard m inUse reply => cases outcome <;> rfl
  | _ => rfl

theorem managers_afterRelease (w : World) (outcome : Outcome) (next : AfterRelease) :
    (w.afterRelease outcome next).1.managers = w.managers := by
  cases next with
  | endedScope p m body result => cases result <;> cases outcome <;> rfl
  | droppedGuard m inUse reply => cases outcome <;> rfl
  | _ => rfl

theorem agenda_endCascade (w : World) (m : ManagerId) (failures : ReleaseFailures) :
    (w.endCascade m failures).1.agenda = w.agenda := by
  simp only [endCascade]
  split <;> simp

theorem openCount_endCascade (w : World) (m : ManagerId) (failures : ReleaseFailures) :
    (w.endCascade m failures).1.openCount ≤ w.openCount := by
  refine Nat.le_trans (Nat.le_of_eq ?_) (openCount_finishClose w m)
  apply openCount_eq_of_managers
  simp only [endCascade]
  split <;> rfl

/-! ### Release hooks -/

theorem text_takeHook {w : World} {h : HookId} {label : String} {work : HookWork}
    (hh : w.hook? h = some ⟨label, some work⟩) : (w.takeHook h).text + work.text = w.text := by
  have hs := sum_map_modify (g := Hook.text) (f := fun r => { r with work := none })
    (l := w.hooks.toList) (i := h.index) (a := ⟨label, some work⟩) (by simpa [hook?] using hh)
  simp only [Hook.text, Option.map_some, Option.getD_some, Option.map_none, Option.getD_none,
    Nat.add_zero] at hs
  simp only [text, takeHook, Array.toList_modify]
  omega

end World

/-! ### Steps -/

def Thread.text (t : Thread) : Nat := t.task.text

def Thread.frames (t : Thread) : Nat := t.task.frames

/-- A world with threads is below a world with one thread. -/
def Less (v : World) (ts : List Thread) (w : World) (t : Thread) : Prop :=
  v.text + (ts.map Thread.text).sum < w.text + t.text ∨
    (v.text + (ts.map Thread.text).sum = w.text + t.text ∧
      (v.openCount < w.openCount ∨
        (v.openCount = w.openCount ∧ (ts.map Thread.frames).sum < t.frames)))

/-- A step leads down. -/
def Step.Descends (w : World) (t : Thread) : Step → Prop
  | .next v u started => Less v (u :: started) w t
  | _ => True

/-- A step of one thread that leads down by its frames. -/
theorem less_of_frames {v w : World} {t u : Thread} (ha : v.agenda = w.agenda)
    (ho : v.openCount ≤ w.openCount) (ht : u.text ≤ t.text) (hf : u.frames < t.frames) :
    Less v [u] w t := by
  have := World.text_eq_of_agenda ha
  simp only [Less, List.map_cons, List.map_nil, List.sum_cons, List.sum_nil]
  omega

/-- A step of one thread that leads down by its commands. -/
theorem less_of_text {v w : World} {t u : Thread} (h : v.text + u.text < w.text + t.text) :
    Less v [u] w t := by
  left
  simpa using h

namespace Thread

theorem release_descends (order : VisitOrder) (w : World) (id : ThreadId) (below : Stack .outcome)
    (r : Resource) :
    (release order w id below r).Descends w ⟨id, .release r below⟩ := by
  have idle : (Step.next w ⟨id, .settle .ok below⟩ []).Descends w ⟨id, .release r below⟩ :=
    less_of_frames rfl (Nat.le_refl _) (Nat.le_refl _) (by simp [frames])
  cases r with
  | array a =>
    have hopen := World.openCount_eq_of_managers (World.managers_releaseArray w a)
    exact less_of_frames (World.agenda_releaseArray w a) (Nat.le_of_eq hopen) (Nat.le_refl _)
      (by simp [frames])
  | hook h =>
    simp only [release]
    split
    · rename_i label work hh
      have ht := World.text_takeHook hh
      refine less_of_text ?_
      simp only [text, Task.text, Stack.text, HookWork.text] at ht ⊢
      omega
    · exact idle
  | manager m =>
    simp only [release]
    split
    · exact idle
    · rename_i r hm
      split
      · exact idle
      · split
        · exact idle
        · trivial
      · rename_i hr
        have ho := World.openCount_beginClose id hm hr
        have ht := World.text_eq_of_agenda (World.agenda_beginClose w m r id)
        right
        simp only [text, Task.text, List.map_cons, List.map_nil, List.sum_cons, List.sum_nil]
        omega

theorem settle_descends (w : World) (id : ThreadId) (outcome : Outcome) (below : Stack .outcome) :
    (settle w id outcome below).Descends w ⟨id, .settle outcome below⟩ := by
  cases below with
  | closer m =>
    exact less_of_frames rfl (Nat.le_refl _) (Nat.le_refl _)
      (by simp [frames])
  | cascade m item rest failures below =>
    refine less_of_frames (World.agenda_recordItem w m failures outcome item)
      (Nat.le_of_eq (World.openCount_eq_of_managers
        (World.managers_recordItem w m failures outcome item))) (Nat.le_refl _) ?_
    simp only [frames, Task.frames, Stack.frames]
    omega
  | release next below =>
    refine less_of_frames (World.agenda_afterRelease w outcome next)
      (Nat.le_of_eq (World.openCount_eq_of_managers
        (World.managers_afterRelease w outcome next))) (Nat.le_refl _) ?_
    simp only [frames, Task.frames, Stack.frames]
    omega
  | shutdown root rest failures below =>
    simp only [settle]
    split
    · refine less_of_frames rfl (Nat.le_refl _) (Nat.le_refl _) ?_
      simp only [frames, Task.frames, Stack.frames]
      omega
    · refine less_of_frames rfl (Nat.le_refl _) (Nat.le_refl _) ?_
      simp only [frames, Task.frames, Stack.frames]
      omega
    · refine less_of_frames (World.agenda_endShutdown w)
        (Nat.le_of_eq (World.openCount_endShutdown w)) (Nat.le_refl _) ?_
      simp only [frames, Task.frames, Stack.frames]
      omega
  | closers m left replies caller below =>
    refine less_of_frames rfl (Nat.le_refl _) (Nat.le_refl _) ?_
    simp only [frames, Task.frames, Stack.frames]
    omega

theorem sweep_descends (w : World) (id : ThreadId) (m : ManagerId) (rest : Estate)
    (failures : ReleaseFailures) (below : Stack .outcome) :
    (sweep w id m rest failures below).Descends w ⟨id, .sweep m rest failures below⟩ := by
  obtain ⟨children, resources⟩ := rest
  cases children with
  | cons c children =>
    refine less_of_frames rfl (Nat.le_refl _) (Nat.le_refl _) ?_
    simp only [frames, Task.frames, Stack.frames, Estate.size, List.length_cons]
    omega
  | nil =>
    cases resources with
    | cons r resources =>
      refine less_of_frames rfl (Nat.le_refl _) (Nat.le_refl _) ?_
      simp only [frames, Task.frames, Stack.frames, Estate.size, List.length_cons, List.length_nil]
      omega
    | nil =>
      refine less_of_frames (World.agenda_endCascade w m failures)
        (World.openCount_endCascade w m failures) (Nat.le_refl _) ?_
      simp only [frames, Task.frames]
      omega

theorem shutdown_descends (w : World) (id : ThreadId) (failures : ReleaseFailures)
    (below : Stack .reply) (roots : List ManagerId) :
    (shutdown w id failures below roots).Descends w ⟨id, .shutdown roots failures below⟩ := by
  cases roots with
  | nil =>
    refine less_of_frames (World.agenda_endShutdown w)
      (Nat.le_of_eq (World.openCount_endShutdown w)) (Nat.le_refl _) ?_
    simp only [frames, Task.frames]
    omega
  | cons root rest =>
    refine less_of_frames rfl (Nat.le_refl _) (Nat.le_refl _) ?_
    simp only [frames, Task.frames, Stack.frames, List.length_cons]
    omega

theorem closers_descends (w : World) (id : ThreadId) (m : ManagerId) (left : Nat)
    (replies : List Reply) (caller : ThreadId) (below : Stack .reply) :
    (closers w m left replies caller below).Descends w
      ⟨id, .closers m left replies caller below⟩ := by
  cases left <;>
    refine less_of_frames rfl (Nat.le_refl _) (Nat.le_refl _) ?_ <;>
    simp only [frames, Task.frames, Stack.frames] <;>
    omega

theorem perform_descends (w : World) (id : ThreadId) (running : List ManagerId) (c : Command)
    (below : Stack .reply) :
    (perform w id running c below).Descends w ⟨id, .perform c below⟩ := by
  have hs := w.spends_perform running c
  unfold perform
  generalize w.perform running c = p at hs
  obtain ⟨v, action⟩ := p
  cases action <;> left <;>
    simp only [World.Spends, Action.text] at hs <;>
    simp only [text, Task.text, Stack.text, List.map_cons, List.map_nil, List.sum_cons,
      List.sum_nil]
  all_goals
    have hv : World.text { v with threads := v.threads + 1 } = v.text := rfl
    omega

theorem reply_descends (w : World) (id : ThreadId) (r : Reply) (below : Stack .reply) :
    (reply w id r below).Descends w ⟨id, .reply r below⟩ := by
  cases below with
  | top => trivial
  | script rest replies propagate below =>
    simp only [reply]
    split
    · refine less_of_frames rfl (Nat.le_refl _) ?_ ?_
      · simp only [text, Task.text, Stack.text]
        omega
      · simp only [frames, Task.frames, Stack.frames]
        omega
    · refine less_of_frames rfl (Nat.le_refl _) (Nat.le_refl _) ?_
      simp only [frames, Task.frames, Stack.frames]
      omega

theorem script_descends (w : World) (id : ThreadId) (commands : List Command)
    (replies : List Reply) (propagate : Bool) (below : Stack .replies) :
    (script w id commands replies propagate below).Descends w
      ⟨id, .script commands replies propagate below⟩ := by
  cases commands with
  | nil =>
    refine less_of_frames rfl (Nat.le_refl _) ?_ ?_
    · simp [text, Command.texts]
    · simp [frames]
  | cons c rest =>
    refine less_of_frames rfl (Nat.le_refl _) ?_ ?_
    · simp only [text, Task.text, Stack.text, Command.texts]
      omega
    · simp only [frames, Task.frames, Stack.frames, List.length_cons]
      omega

theorem finish_descends (w : World) (id : ThreadId) (replies : List Reply) (fault : Option Fault)
    (below : Stack .replies) :
    (finish w id replies fault below).Descends w ⟨id, .finish replies fault below⟩ := by
  cases below with
  | hook label ending below =>
    refine less_of_frames rfl (Nat.le_refl _) (Nat.le_refl _) ?_
    simp only [frames, Task.frames, Stack.frames]
    omega
  | callback label next below =>
    refine less_of_text (v := ((w.record (.ran label replies)).proceed next).1) ?_
    have := World.text_eq_of_agenda (World.agenda_proceed (w.record (.ran label replies)) next)
    have := World.text_eq_of_agenda (World.agenda_record w (.ran label replies))
    simp only [text, Task.text, Stack.text]
    omega
  | body p m ending below =>
    refine less_of_frames rfl (Nat.le_refl _) (Nat.le_refl _) ?_
    simp only [frames, Task.frames, Stack.frames]
    omega
  | joined caller below =>
    refine less_of_frames rfl (Nat.le_refl _) (Nat.le_refl _) ?_
    simp only [frames, Task.frames, Stack.frames]
    omega

theorem step_descends (order : VisitOrder) (w : World) (running : List ManagerId) (t : Thread) :
    (t.step order w running).Descends w t := by
  obtain ⟨id, task⟩ := t
  cases task with
  | release r below => exact release_descends order w id below r
  | settle outcome below => exact settle_descends w id outcome below
  | sweep m rest failures below => exact sweep_descends w id m rest failures below
  | shutdown roots failures below => exact shutdown_descends w id failures below roots
  | closers m left replies caller below => exact closers_descends w id m left replies caller below
  | perform c below => exact perform_descends w id running c below
  | reply r below => exact reply_descends w id r below
  | script commands replies propagate below =>
    exact script_descends w id commands replies propagate below
  | finish replies fault below => exact finish_descends w id replies fault below

end Thread

end ArrayLifetimes
