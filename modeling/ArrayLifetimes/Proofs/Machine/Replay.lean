/-
Runs that can be computed.

A run follows the first thread, and takes a number of steps at most for each command, or
it follows the threads that are listed.  So it is evaluated by structural recursion, and every
run of it is a run of the machine.  The engine `numbering` makes the runs small: it keeps no
contents, and numbers what it makes by the calls that it has got.
-/
import ArrayLifetimes.Proofs.Machine.Answers

namespace ArrayLifetimes

/-- The task is to hand a reply to a stack of a depth. -/
def Task.repliesAt (depth : Nat) : Task → Bool
  | .reply _ below => below.parts.length == depth
  | _ => false

namespace Machine

variable (order : VisitOrder)

/-- The first thread goes on for a number of steps, if it can. -/
def advance : Nat → Machine → Machine
  | 0, s => s
  | n + 1, s =>
    match s.stepAt order 0 with
    | some t => advance n t
    | none => s

instance (s : Machine) : Decidable s.Idle :=
  inferInstanceAs (Decidable (∀ t ∈ s.threads, t.reply?.isSome = true))

/-- The threads at the places take a step each, one after the other, as far as they can. -/
def follow : List Nat → Machine → Machine
  | [], s => s
  | i :: is, s =>
    match s.stepAt order i with
    | some t => follow is t
    | none => s

/-- Commands one after the other, each for a number of steps. -/
def replay : List (Command × Nat) → Machine → Machine
  | [], s => s
  | (c, n) :: rest, s => if s.Idle then replay rest (advance order n (s.world.machine c)) else s

theorem leads_advance (n : Nat) (s : Machine) : Leads order s (advance order n s) := by
  induction n generalizing s with
  | zero => exact .refl
  | succ n ih =>
      unfold advance
      split
      · rename_i t ht
        exact .head (.step 0 ht) (ih t)
      · exact .refl

theorem leads_follow (is : List Nat) (s : Machine) : Leads order s (follow order is s) := by
  induction is generalizing s with
  | nil => exact .refl
  | cons i is ih =>
      unfold follow
      split
      · rename_i t ht
        exact .head (.step i ht) (ih t)
      · exact .refl

theorem leads_replay (cs : List (Command × Nat)) (s : Machine) :
    Leads order s (replay order cs s) := by
  induction cs generalizing s with
  | nil => exact .refl
  | cons c cs ih =>
      obtain ⟨c, n⟩ := c
      unfold replay
      split
      · rename_i hi
        exact .head (.command s c hi) ((leads_advance order n _).trans (ih _))
      · exact .refl

theorem reachable_replay (kind : EngineKind) (config : Config) (draws : Draws)
    (cs : List (Command × Nat)) :
    Reachable order kind (replay order cs (fresh kind config draws)) :=
  ⟨config, draws, leads_replay order cs _⟩

/-- A run of the first thread until a stack gets its reply. -/
theorem waits_of_not_replied {below : Stack .reply} {n : Nat} {s : Machine}
    (h : ∀ k < n, ∀ r, ¬ (advance order k s).Replied 0 below r) :
    Waits order 0 below s (advance order n s) := by
  induction n generalizing s with
  | zero => exact .refl
  | succ n ih =>
      unfold advance
      split
      · rename_i t ht
        refine .head ⟨h 0 (Nat.succ_pos n), .step 0 ht⟩ (ih ?_)
        intro k hk
        have hsucc := h (k + 1) (Nat.succ_lt_succ hk)
        simpa only [advance, ht] using hsucc
      · exact .refl

/-- A stack has not got its reply when none of its depth has. -/
theorem waits_of_depth (below : Stack .reply) {n : Nat} {s : Machine}
    (h : ∀ k < n, ((advance order k s).threads[0]?.any fun c =>
      c.task.repliesAt below.parts.length) = false) :
    Waits order 0 below s (advance order n s) := by
  refine waits_of_not_replied order ?_
  rintro k hk r ⟨id, hid⟩
  have hnot := h k hk
  simp [hid, Task.repliesAt] at hnot

end Machine

namespace Foreign

/-- An engine that numbers the arrays it makes by its calls, and keeps no contents. -/
def numbering : Foreign where
  supports _ _ := true
  create calls := .ok ⟨calls.length⟩
  release _ := .ok ()
  read _ := .ok []
  invoke calls := .ok [⟨⟨calls.length⟩, ⟨[]⟩, .float32, .cpu⟩]
  invokeInto _ := .ok ()

end Foreign

end ArrayLifetimes
