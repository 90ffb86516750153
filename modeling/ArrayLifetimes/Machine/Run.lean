/-
Threads that run together on one world.

A `Machine` is a world with threads.  Any thread that can take a step may be next; a run
prefers those that were started later.  So a thread that has just been started goes on until
it has to wait, and the client's own thread goes on then.  Every run ends, by the three numbers
of `Progress` taken over all threads.  It may end with threads that wait for each other.
-/
import ArrayLifetimes.Machine.Decrease

namespace ArrayLifetimes

structure Machine where
  world : World
  threads : List Thread

namespace Machine

/-- The managers that work in progress holds. -/
def running (s : Machine) : List ManagerId := s.threads.flatMap fun t => t.task.managers

/-- The thread at a place takes a step, if it can. -/
def stepAt (order : VisitOrder) (s : Machine) (i : Nat) : Option Machine :=
  match s.threads[i]? with
  | none => none
  | some t =>
    match t.step order s.world s.running with
    | .next w t started => some ⟨w, s.threads.set i t ++ started⟩
    | .ended _ | .waits _ => none

/-- The last thread that can take a step does. -/
def step? (order : VisitOrder) (s : Machine) : Option Machine :=
  (List.range s.threads.length).reverse.findSome? (s.stepAt order)

/-! ### Every run ends -/

def text (s : Machine) : Nat := s.world.text + (s.threads.map Thread.text).sum

def frames (s : Machine) : Nat := (s.threads.map Thread.frames).sum

theorem sum_map_set {α : Type} (f : α → Nat) {l : List α} {i : Nat} {a : α} (b : α)
    (h : l[i]? = some a) : ((l.set i b).map f).sum + f a = (l.map f).sum + f b := by
  induction l generalizing i with
  | nil => simp at h
  | cons c l ih =>
    cases i with
    | zero =>
      simp only [List.getElem?_cons_zero, Option.some.injEq] at h
      subst h
      simp only [List.set_cons_zero, List.map_cons, List.sum_cons]
      omega
    | succ i =>
      simp only [List.getElem?_cons_succ] at h
      simp only [List.set_cons_succ, List.map_cons, List.sum_cons]
      have := ih h
      omega

/-- The three numbers of a machine. -/
def rank (s : Machine) : Nat × Nat × Nat := (s.text, s.world.openCount, s.frames)

/-- One machine is below another. -/
def Below (s t : Machine) : Prop :=
  Prod.Lex (· < ·) (Prod.Lex (· < ·) (· < ·)) s.rank t.rank

theorem stepAt_below {order : VisitOrder} {s t : Machine} {i : Nat}
    (h : s.stepAt order i = some t) : t.Below s := by
  unfold stepAt at h
  split at h
  · simp at h
  · rename_i u hu
    have hd := u.step_descends order s.world s.running
    split at h
    · rename_i v u' started hs
      simp only [Option.some.injEq] at h
      subst h
      rw [hs] at hd
      have ht := sum_map_set Thread.text u' hu
      have hf := sum_map_set Thread.frames u' hu
      simp only [Step.Descends, Less, List.map_cons, List.sum_cons] at hd
      simp only [Below, rank, Prod.lex_def, text, frames, List.map_append, List.sum_append]
      omega
    · simp at h
    · simp at h

theorem step?_below {order : VisitOrder} {s t : Machine} (h : s.step? order = some t) :
    t.Below s := by
  obtain ⟨i, _, hi⟩ := List.exists_of_findSome?_eq_some h
  exact stepAt_below hi

/-- Runs until no thread can take a step. -/
def run (order : VisitOrder) (s : Machine) : Machine :=
  match h : s.step? order with
  | none => s
  | some t =>
    have := step?_below h
    run order t
termination_by s.rank
decreasing_by exact this

end Machine

end ArrayLifetimes
