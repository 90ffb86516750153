/-
A command is used up when it runs.

What a command leaves to be run, on the agenda of the world and in the work that it
starts, is a proper part of the command.
-/
import ArrayLifetimes.Machine.Agenda

namespace ArrayLifetimes

/-- The commands that an action has to run. -/
def Action.text : Action → Nat
  | .body _ _ commands _ _ | .join commands => Command.texts commands
  | .callback c _ => 1 + Command.texts c.commands
  | _ => 0

theorem Command.text_pos (c : Command) : 0 < c.text := by
  cases c <;> simp only [Command.text] <;> omega

namespace World

/-- A mention of a resource puts no more on the agenda than it says. -/
theorem text_resourceNamed {w v : World} {r : ResourceName} {found : Resource}
    (h : w.resourceNamed r = .ok (v, found)) : v.text = w.text + r.text := by
  cases r with
  | hook label work ending =>
    simp only [resourceNamed, Except.ok.injEq, Prod.mk.injEq] at h
    rw [← h.1]
    simp [text, addHook, ResourceName.text, Hook.text, HookWork.text]
    omega
  | array n =>
    simp only [resourceNamed, bind_eq_ok, pure, Except.pure, Except.ok.injEq, Prod.mk.injEq] at h
    obtain ⟨_, _, rfl, _⟩ := h
    rfl
  | manager n =>
    simp only [resourceNamed, bind_eq_ok, pure, Except.pure, Except.ok.injEq, Prod.mk.injEq] at h
    obtain ⟨_, _, rfl, _⟩ := h
    rfl
  | saved n =>
    simp only [resourceNamed, bind_eq_ok, pure, Except.pure, Except.ok.injEq, Prod.mk.injEq] at h
    obtain ⟨_, _, rfl, _⟩ := h
    rfl

@[simp] theorem agenda_proceed (w : World) (next : AfterCallback) :
    (w.proceed next).1.agenda = w.agenda := by
  cases next with
  | track m native name check =>
    have h := agenda_track w m native
    simp only [proceed]
    split <;> rename_i ht <;> rw [ht] at h <;> simpa using h
  | trackAll m operation natives name =>
    have h := agenda_trackAll (w.note (.invoked m operation natives.length)) m natives
    simp only [proceed]
    split <;> rename_i ht <;> rw [ht] at h <;> simpa using h
  | answer reply => rfl

theorem text_afterCreate (w : World) (next : AfterCallback) :
    (w.afterCreate next).1.text + (w.afterCreate next).2.text ≤ w.text := by
  unfold afterCreate
  split
  · rename_i c hc
    replace hc := afterCreate_of_due hc
    simp [text, hc, callbackText, Callback.text, Action.text]
    omega
  · simp only [Action.text, Nat.add_zero]
    exact Nat.le_of_eq (text_eq_of_agenda (agenda_proceed w next))

theorem text_afterInvoke (w : World) (next : AfterCallback) :
    (w.afterInvoke next).1.text + (w.afterInvoke next).2.text ≤ w.text := by
  unfold afterInvoke
  split
  · rename_i c hc
    replace hc := afterInvoke_of_due hc
    simp [text, hc, callbackText, Callback.text, Action.text]
  · simp only [Action.text, Nat.add_zero]
    exact Nat.le_of_eq (text_eq_of_agenda (agenda_proceed w next))

/-! ### Commands

A command that mentions no release hook and brings no commands along leaves the agenda
alone or takes from it. -/

/-- What is done adds nothing to what there is to run. -/
def NoMore (w : World) (p : World × Action) : Prop := p.1.text + p.2.text ≤ w.text

theorem noMore_of_agenda {w : World} {p : World × Action} (h : p.1.agenda = w.agenda)
    (ha : p.2.text = 0) : w.NoMore p := by
  unfold NoMore
  rw [ha, text_eq_of_agenda h]
  omega

theorem noMore_performDirect (w : World) (call : DirectCall) : w.NoMore (w.performDirect call) := by
  cases call with
  | create r =>
    have h := text_eq_of_agenda (agenda_callCreate w .client r)
    simp only [performDirect]
    split <;> rename_i hc <;> rw [hc] at h
    · exact Nat.le_trans (text_afterCreate _ _) (Nat.le_of_eq h)
    · exact Nat.le_of_eq h
  | release x =>
    have h := text_eq_of_agenda (agenda_callRelease w .client x)
    simp only [performDirect]
    split <;> rename_i hc <;> rw [hc] at h <;> exact Nat.le_of_eq h
  | invoke operation inputs ps =>
    have h := text_eq_of_agenda (agenda_callInvoke w .client operation inputs ps)
    simp only [performDirect]
    split <;> rename_i hc <;> rw [hc] at h
    · exact Nat.le_trans (text_afterInvoke _ _) (Nat.le_of_eq h)
    · exact Nat.le_of_eq h
  | invokeInto operation inputs outputs ps =>
    have h := text_eq_of_agenda (agenda_callInvokeInto w .client operation inputs outputs ps)
    simp only [performDirect]
    split <;> rename_i hc <;> rw [hc] at h <;> exact Nat.le_of_eq h
  | read x => exact noMore_of_agenda rfl rfl
  | contains x => exact noMore_of_agenda rfl rfl
  | supports operation => exact noMore_of_agenda rfl rfl

theorem noMore_performAllocate {w : World} {manager name : Name} {a : Allocation}
    {check : Option Check} {p : World × Action}
    (h : w.performAllocate manager name a check = .ok p) : w.NoMore p := by
  simp only [performAllocate, bind_eq_ok] at h
  obtain ⟨m, _, d, _, r, _, h⟩ := h
  have hc := text_eq_of_agenda (agenda_callCreate w .managers r)
  split at h <;> rename_i hr <;> rw [hr] at hc <;>
    simp only [pure, Except.pure, Except.ok.injEq] at h <;> subst h
  · exact Nat.le_of_eq hc
  · exact Nat.le_trans (text_afterCreate _ _) (Nat.le_of_eq hc)

theorem noMore_performInvoke {w : World} {manager name : Name} {operation : String}
    {inputs : List Name} {ps : Params} {p : World × Action}
    (h : w.performInvoke manager operation inputs ps name = .ok p) : w.NoMore p := by
  simp only [performInvoke, bind_eq_ok] at h
  obtain ⟨m, _, as, _, hs, _, h⟩ := h
  have hc := text_eq_of_agenda (agenda_callInvoke w .managers operation hs ps)
  split at h <;> rename_i hr <;> rw [hr] at hc <;>
    simp only [pure, Except.pure, Except.ok.injEq] at h <;> subst h
  · exact Nat.le_of_eq hc
  · exact Nat.le_trans (text_afterInvoke _ _) (Nat.le_of_eq hc)

theorem noMore_performInvokeInto {w : World} {manager : Name} {operation : String}
    {inputs outputs : List Name} {ps : Params} {p : World × Action}
    (h : w.performInvokeInto manager operation inputs outputs ps = .ok p) : w.NoMore p := by
  simp only [performInvokeInto, bind_eq_ok] at h
  obtain ⟨m, _, as, _, bs, _, hs, _, h⟩ := h
  have hc := agenda_callInvokeInto w .managers operation hs.1 hs.2 ps
  split at h <;> rename_i hr <;> rw [hr] at hc <;>
    simp only [pure, Except.pure, Except.ok.injEq] at h <;> subst h
  · exact noMore_of_agenda hc rfl
  · exact noMore_of_agenda ((agenda_readEach _ _).trans hc) rfl

/-- What a command does adds to what there is to run less than the command takes up. -/
def Spends (w : World) (c : Command) (p : World × Action) : Prop :=
  p.1.text + p.2.text < w.text + c.text

theorem spends_of_noMore {w : World} {p : World × Action} (c : Command) (h : w.NoMore p) :
    w.Spends c p :=
  Nat.lt_of_le_of_lt h (Nat.lt_add_of_pos_right c.text_pos)

theorem spends_of_agenda {w : World} {p : World × Action} (c : Command)
    (h : p.1.agenda = w.agenda) (ha : p.2.text = 0) : w.Spends c p :=
  spends_of_noMore c (noMore_of_agenda h ha)

theorem spends_attempt {w : World} {running : List ManagerId} {c : Command} {p : World × Action}
    (h : w.attempt running c = .ok p) : w.Spends c p := by
  cases c <;> simp only [attempt, performBase, performSub, performClose, performShutdown,
    performReleaseManager, performAttach, performAttachArray, performDetach, performDetachArray,
    performDetachSub, performKeep, performRelease, performIsReleased, performCloseArray,
    performGuarded, performGuardDrop, performGuardClose, performGuardInto, performScope,
    performFailRelease, performPanicRelease, bind_eq_ok, mapError_eq_ok, pure, Except.pure,
    Except.ok.injEq] at h
  case base =>
    obtain ⟨_, _, rfl⟩ := h
    exact spends_of_agenda _ rfl rfl
  case sub =>
    obtain ⟨_, _, ⟨v, child⟩, hs, rfl⟩ := h
    exact spends_of_agenda _ (by simpa using agenda_newSub hs) rfl
  case close =>
    obtain ⟨_, _, rfl⟩ := h
    exact spends_of_agenda _ rfl rfl
  case shutdown =>
    obtain ⟨_, _, rfl⟩ := h
    exact spends_of_agenda _ rfl rfl
  case releaseManager =>
    obtain ⟨_, _, rfl⟩ := h
    exact spends_of_agenda _ rfl rfl
  case forget =>
    subst h
    exact spends_of_agenda _ rfl rfl
  case dropRegistry =>
    subst h
    exact spends_of_agenda _ (agenda_dropRoots _) rfl
  case attach manager key resource displaced =>
    obtain ⟨_, _, _, _, ⟨u, r⟩, hr, ⟨v, old⟩, ha, rfl⟩ := h
    have hu := text_resourceNamed hr
    have hv : v.text = u.text := text_eq_of_agenda (agenda_attach ha)
    have hn := text_eq_of_agenda (agenda_nameDisplaced v displaced old)
    simp only [Spends, Action.text, Action.answer, Command.text]
    omega
  case attachArray =>
    obtain ⟨_, _, _, _, v, ha, rfl⟩ := h
    exact spends_of_agenda _ (agenda_attachArray ha) rfl
  case detach =>
    obtain ⟨_, _, _, _, rfl⟩ := h
    exact spends_of_agenda _ (by simp) rfl
  case detachArray =>
    obtain ⟨_, _, _, _, rfl⟩ := h
    exact spends_of_agenda _ (by simp) rfl
  case detachSub =>
    obtain ⟨_, _, _, _, rfl⟩ := h
    exact spends_of_agenda _ (by simp) rfl
  case keep resource name =>
    obtain ⟨⟨v, r⟩, hr, rfl⟩ := h
    have hv := text_resourceNamed hr
    have hn := text_eq_of_agenda (agenda_nameResource v name r)
    simp only [Spends, Action.text, Action.answer, Command.text]
    omega
  case release =>
    obtain ⟨⟨v, r⟩, hr, rfl⟩ := h
    have hv := text_resourceNamed hr
    simp only [Spends, Action.text, Command.text]
    omega
  case isReleased =>
    obtain ⟨⟨v, r⟩, hr, rfl⟩ := h
    have hv := text_resourceNamed hr
    simp only [Spends, Action.text, Action.answer, Command.text]
    omega
  case closeArray =>
    obtain ⟨_, _, rfl⟩ := h
    exact spends_of_agenda _ rfl rfl
  case guarded =>
    obtain ⟨_, _, ⟨v, child⟩, hs, h⟩ := h
    have ha := agenda_newSub hs
    split at h <;> simp only [Except.ok.injEq] at h <;> subst h <;>
      exact spends_of_agenda _ (by simpa using ha) rfl
  case guardDrop =>
    obtain ⟨_, _, rfl⟩ := h
    exact spends_of_agenda _ rfl rfl
  case guardClose =>
    obtain ⟨_, _, rfl⟩ := h
    exact spends_of_agenda _ rfl rfl
  case guardInto =>
    obtain ⟨_, _, rfl⟩ := h
    exact spends_of_agenda _ rfl rfl
  case scope manager name device body propagate ending =>
    obtain ⟨_, _, h⟩ := h
    split at h <;> simp only [Except.ok.injEq] at h <;> subst h
    · exact spends_of_agenda _ rfl rfl
    · rename_i v child hs
      have ha := text_eq_of_agenda (agenda_newSub hs)
      have hn := text_eq_of_agenda (agenda_nameManager v name child)
      simp only [Spends, Action.text, Command.text]
      omega
  case allocate => exact spends_of_noMore _ (noMore_performAllocate h)
  case invoke => exact spends_of_noMore _ (noMore_performInvoke h)
  case invokeInto => exact spends_of_noMore _ (noMore_performInvokeInto h)
  case inThread =>
    subst h
    simp only [Spends, Action.text, Command.text]
    omega
  case spawnClose =>
    obtain ⟨_, _, rfl⟩ := h
    exact spends_of_agenda _ rfl rfl
  case concurrentClose =>
    obtain ⟨_, _, rfl⟩ := h
    exact spends_of_agenda _ rfl rfl
  case failRelease =>
    obtain ⟨_, _, h⟩ := h
    split at h <;> simp only [Except.ok.injEq] at h <;> subst h <;>
      exact spends_of_agenda _ rfl rfl
  case panicRelease =>
    obtain ⟨_, _, rfl⟩ := h
    exact spends_of_agenda _ rfl rfl
  case failCreate =>
    subst h
    exact spends_of_agenda _ rfl rfl
  case afterCreate =>
    subst h
    simp [Spends, Action.text, Action.answer, Command.text, text, modifyEngine, callbackText,
      Callback.text]
    omega
  case afterInvoke =>
    subst h
    simp [Spends, Action.text, Action.answer, Command.text, text, modifyEngine, callbackText,
      Callback.text]
    omega
  case direct =>
    subst h
    exact spends_of_noMore _ (noMore_performDirect w _)
  case ask =>
    subst h
    exact spends_of_agenda _ (by simp) rfl

/-- A command is used up, whatever comes of it. -/
theorem spends_perform (w : World) (running : List ManagerId) (c : Command) :
    w.Spends c (w.perform running c) := by
  unfold perform
  split
  · rename_i h
    exact spends_attempt h
  · exact spends_of_agenda _ rfl rfl

end World

end ArrayLifetimes
