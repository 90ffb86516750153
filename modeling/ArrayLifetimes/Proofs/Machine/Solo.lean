/-
Commands that start no thread.

All operations of registries, managers, arrays and scopes run on the thread that asks for
them.  Only a client starts threads, by three commands of its own.  Without them, whatever
a command starts runs on the thread of the command, and so does whatever it leaves on the
agenda.
-/
import ArrayLifetimes.Proofs.World.Commands

namespace ArrayLifetimes

mutual

/-- The command starts no thread, and brings no command along that does. -/
def Command.solo : Command → Bool
  | .inThread _ | .spawnClose _ | .concurrentClose _ _ => false
  | .attach _ _ resource _ | .keep resource _ | .release resource | .isReleased resource =>
    resource.solo
  | .scope _ _ _ body _ _ => Command.solos body
  | .afterCreate _ commands | .afterInvoke _ commands => Command.solos commands
  | _ => true

def Command.solos : List Command → Bool
  | [] => true
  | c :: rest => c.solo && Command.solos rest

/-- The release hook that a mention of a resource makes starts no thread. -/
def ResourceName.solo : ResourceName → Bool
  | .hook _ work _ => Command.solos work
  | _ => true

end

/-- A list of commands that start no thread. -/
def Solo (commands : List Command) : Prop := Command.solos commands = true

instance : DecidablePred Solo := fun commands =>
  inferInstanceAs (Decidable (Command.solos commands = true))

theorem solo_cons {c : Command} {rest : List Command} :
    Solo (c :: rest) ↔ c.solo = true ∧ Solo rest := by
  simp only [Solo, Command.solos, Bool.and_eq_true]

theorem ResourceName.solo_leaves {r : ResourceName} (h : r.solo = true) :
    ∀ cs ∈ r.leaves, Solo cs := by
  intro cs hcs
  cases r with
  | hook label work ending =>
      rw [leaves, List.mem_singleton] at hcs
      subst hcs
      exact h
  | _ => cases hcs

theorem Command.solo_leaves {c : Command} (h : c.solo = true) : ∀ cs ∈ c.leaves, Solo cs := by
  intro cs hcs
  cases c with
  | attach _ _ resource _ | keep resource _ | release resource | isReleased resource =>
      exact ResourceName.solo_leaves h cs hcs
  | afterCreate label commands | afterInvoke label commands =>
      rw [leaves, List.mem_singleton] at hcs
      subst hcs
      exact h
  | _ => cases hcs

/-- What is to be done for a command is done on its thread. -/
def Action.Solo : Action → Prop
  | .body _ _ commands _ _ => ArrayLifetimes.Solo commands
  | .callback c _ => ArrayLifetimes.Solo c.commands
  | .join _ | .closeTogether _ _ | .spawnClose _ => False
  | _ => True

namespace World

variable {w : World}

theorem solo_afterCreate (hw : w.Agreed Solo) (next : AfterCallback) :
    (w.afterCreate next).2.Solo := by
  unfold afterCreate
  split
  · rename_i c hc
    exact hw.afterCreate c (afterCreate_of_due hc)
  · trivial

theorem solo_afterInvoke (hw : w.Agreed Solo) (next : AfterCallback) :
    (w.afterInvoke next).2.Solo := by
  unfold afterInvoke
  split
  · rename_i c hc
    exact hw.afterInvoke c (afterInvoke_of_due hc)
  · trivial

theorem solo_performAllocate (hw : w.Agreed Solo) {manager name : Name} {a : Allocation}
    {check : Option Check} {p : World × Action}
    (h : w.performAllocate manager name a check = .ok p) : p.2.Solo := by
  simp only [performAllocate, bind_eq_ok] at h
  obtain ⟨m, -, d, -, r, -, h⟩ := h
  split at h
  · cases h
    trivial
  · rename_i hc
    cases h
    exact solo_afterCreate (hw.of_agenda (heard_of_callCreate hc).agenda) _

theorem solo_performInvoke (hw : w.Agreed Solo) {manager name : Name} {operation : String}
    {inputs : List Name} {ps : Params} {p : World × Action}
    (h : w.performInvoke manager operation inputs ps name = .ok p) : p.2.Solo := by
  simp only [performInvoke, bind_eq_ok] at h
  obtain ⟨m, -, as, -, hs, -, h⟩ := h
  split at h
  · cases h
    trivial
  · rename_i hc
    cases h
    exact solo_afterInvoke (hw.of_agenda (heard_of_callInvoke hc).agenda) _

theorem solo_performInvokeInto {manager : Name} {operation : String} {inputs outputs : List Name}
    {ps : Params} {p : World × Action}
    (h : w.performInvokeInto manager operation inputs outputs ps = .ok p) : p.2.Solo := by
  simp only [performInvokeInto, bind_eq_ok] at h
  obtain ⟨-, -, as, -, bs, -, hs, -, h⟩ := h
  split at h <;> cases h <;> trivial

theorem solo_performDirect (hw : w.Agreed Solo) (call : DirectCall) :
    (w.performDirect call).2.Solo := by
  cases call with
  | create r =>
      simp only [performDirect]
      split
      · rename_i hc
        exact solo_afterCreate (hw.of_agenda (heard_of_callCreate hc).agenda) _
      · trivial
  | invoke operation inputs ps =>
      simp only [performDirect]
      split
      · rename_i hc
        exact solo_afterInvoke (hw.of_agenda (heard_of_callInvoke hc).agenda) _
      · trivial
  | release x | invokeInto operation inputs outputs ps =>
      simp only [performDirect]
      split <;> trivial
  | read x | contains x | supports operation => trivial

theorem solo_attempt (hw : w.Agreed Solo) {running : List ManagerId} {c : Command}
    (hc : c.solo = true) {p : World × Action} (h : w.attempt running c = .ok p) : p.2.Solo := by
  cases c <;> simp only [attempt, performBase, performSub, performClose, performShutdown,
    performReleaseManager, performAttach, performAttachArray, performDetach, performDetachArray,
    performDetachSub, performKeep, performRelease, performIsReleased, performCloseArray,
    performGuarded, performGuardDrop, performGuardClose, performGuardInto, performScope,
    performFailRelease, performPanicRelease, bind_eq_ok, pure, Except.pure, Except.ok.injEq] at h
  case allocate => exact solo_performAllocate hw h
  case invoke => exact solo_performInvoke hw h
  case invokeInto => exact solo_performInvokeInto h
  case direct =>
    subst h
    exact solo_performDirect hw _
  case inThread | spawnClose | concurrentClose => cases hc
  case scope =>
    obtain ⟨m, -, h⟩ := h
    split at h <;> cases h
    · trivial
    · exact hc
  case guarded =>
    obtain ⟨m, -, v, -, h⟩ := h
    split at h <;> cases h <;> trivial
  case failRelease =>
    obtain ⟨r, -, h⟩ := h
    split at h <;> cases h <;> trivial
  case base | shutdown =>
    obtain ⟨-, -, rfl⟩ := h
    trivial
  case close | releaseManager | keep | release | isReleased | closeArray | guardDrop | guardClose
      | guardInto | panicRelease =>
    obtain ⟨_, -, rfl⟩ := h
    trivial
  case sub | detach | detachArray | detachSub =>
    obtain ⟨_, -, _, -, rfl⟩ := h
    trivial
  case attach =>
    obtain ⟨_, -, _, -, _, -, _, -, rfl⟩ := h
    trivial
  case attachArray =>
    obtain ⟨_, -, _, -, _, -, rfl⟩ := h
    trivial
  case forget | dropRegistry | failCreate | afterCreate | afterInvoke | ask =>
    subst h
    trivial

/-- **A command that starts no thread** only asks for work on its own. -/
theorem solo_perform (hw : w.Agreed Solo) (running : List ManagerId) {c : Command}
    (hc : c.solo = true) : (w.perform running c).2.Solo := by
  unfold perform
  split
  · rename_i h
    exact solo_attempt hw hc h
  · trivial

end World

end ArrayLifetimes
