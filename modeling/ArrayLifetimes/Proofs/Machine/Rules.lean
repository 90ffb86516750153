/-
What is said of the cascades on a stack.

An invariant of cascades has three parts.  It says something of a cascade that waits for an item,
something of one whose loop goes on, and something of a release that is asked for, given the
stack that waits for it.  A `CascadeRule` is these three.

A step keeps such a rule if the loop hands its items on: what is said of the loop has to give
what is said of the item that it asks for, and of the frame that waits.  All other steps leave
the cascades on the stack alone, or take the top one away.
-/
import ArrayLifetimes.Proofs.Machine.Frames

namespace ArrayLifetimes

structure CascadeRule where
  /-- A release is asked for, and the stack waits for it. -/
  asks : Resource → Stack .outcome → Prop
  /-- A cascade waits for an item, and has the rest to visit yet. -/
  waits : ManagerId → Item → Estate → Stack .outcome → Prop
  /-- A cascade is about to visit what it has left. -/
  loops : ManagerId → Estate → Stack .outcome → Prop

/-- The rule holds of every cascade on the stack. -/
def Stack.Obeys (R : CascadeRule) {want : Want} : Stack want → Prop
  | .top | .closer _ => True
  | .cascade m item rest _ below => R.waits m item rest below ∧ below.Obeys R
  | .release _ below | .shutdown _ _ _ below | .closers _ _ _ _ below => below.Obeys R
  | .script _ _ _ below | .hook _ _ below | .callback _ _ below => below.Obeys R
  | .body _ _ _ below | .joined _ below => below.Obeys R

def Task.Obeys (R : CascadeRule) : Task → Prop
  | .release x below => R.asks x below ∧ below.Obeys R
  | .sweep m rest _ below => R.loops m rest below ∧ below.Obeys R
  | .settle _ below => below.Obeys R
  | .shutdown _ _ below | .closers _ _ _ _ below | .perform _ below => below.Obeys R
  | .reply _ below => below.Obeys R
  | .script _ _ _ below | .finish _ _ below => below.Obeys R

/-- A stack that waits for a release other than as a cascade. -/
def Stack.Outside : Stack .outcome → Prop
  | .cascade .. => False
  | _ => True

namespace CascadeRule

/-- What is said of a loop goes on to its items, and comes back from the frame that waits. -/
structure Lawful (R : CascadeRule) : Prop where
  /-- Whoever asks for a release outside a cascade may ask for any. -/
  outside : ∀ x below, below.Outside → R.asks x below
  child : ∀ m c children resources failures below, R.loops m ⟨c :: children, resources⟩ below →
    R.waits m (.child c) ⟨children, resources⟩ below ∧
      R.asks (.manager c) (.cascade m (.child c) ⟨children, resources⟩ failures below)
  resource : ∀ m key x resources failures below, R.loops m ⟨[], (key, x) :: resources⟩ below →
    R.waits m (.resource key) ⟨[], resources⟩ below ∧
      R.asks x (.cascade m (.resource key) ⟨[], resources⟩ failures below)
  back : ∀ m item rest below, R.waits m item rest below → R.loops m rest below

end CascadeRule

namespace Thread

variable {w v : World} {t u : Thread} {started : List Thread} {R : CascadeRule}

theorem obeys_alone (h : t.task.Obeys R) : ∀ q ∈ [t], q.task.Obeys R :=
  List.forall_mem_singleton.mpr h

/-- A release keeps a rule, if it holds of the cascades that begin. -/
theorem obeys_of_release {order : VisitOrder} {id : ThreadId} {x : Resource}
    {below : Stack .outcome}
    (hbegin : ∀ m r k below, w.openManager m = .ok r → v = (w.beginClose m r k).1 →
      R.asks (.manager m) below →
      R.loops m (order.arrange m ⟨r.children, r.resources.entries⟩) below)
    (hx : R.asks x below) (hb : below.Obeys R)
    (h : release order w id below x = .next v u started) :
    ∀ r ∈ u :: started, r.task.Obeys R := by
  cases x with
  | array a =>
      cases h
      exact obeys_alone hb
  | hook g =>
      simp only [release] at h
      split at h <;> cases h <;> exact obeys_alone hb
  | manager m =>
      simp only [release] at h
      split at h
      · cases h
        exact obeys_alone hb
      · rename_i r hr
        split at h
        · cases h
          exact obeys_alone hb
        · split at h <;> cases h
          exact obeys_alone hb
        · rename_i hl
          have hopen := World.openManager_eq_ok.mpr ⟨hr, hl⟩
          cases h
          exact obeys_alone ⟨hbegin m r id below hopen rfl hx, hb⟩

/-- A cascade that goes on keeps a rule. -/
theorem obeys_of_sweep (hR : R.Lawful) {id : ThreadId} {m : ManagerId} {rest : Estate}
    {failures : ReleaseFailures} {below : Stack .outcome} (hloop : R.loops m rest below)
    (hb : below.Obeys R) (h : sweep w id m rest failures below = .next v u started) :
    ∀ r ∈ u :: started, r.task.Obeys R := by
  obtain ⟨children, resources⟩ := rest
  cases children with
  | cons c children =>
      cases h
      obtain ⟨hwaits, hasks⟩ := hR.child m c children resources failures below hloop
      exact obeys_alone ⟨hasks, hwaits, hb⟩
  | nil =>
      cases resources with
      | cons e resources =>
          obtain ⟨key, x⟩ := e
          cases h
          obtain ⟨hwaits, hasks⟩ := hR.resource m key x resources failures below hloop
          exact obeys_alone ⟨hasks, hwaits, hb⟩
      | nil =>
          cases h
          exact obeys_alone hb

/-- **Every step keeps a rule**, if it holds of the cascades that begin. -/
theorem obeys_of_step (order : VisitOrder) (running : List ManagerId) (hR : R.Lawful)
    (hbegin : ∀ m r k below, w.openManager m = .ok r → v = (w.beginClose m r k).1 →
      R.asks (.manager m) below →
      R.loops m (order.arrange m ⟨r.children, r.resources.entries⟩) below)
    (ht : t.task.Obeys R) (h : t.step order w running = .next v u started) :
    ∀ r ∈ u :: started, r.task.Obeys R := by
  obtain ⟨id, task⟩ := t
  cases task with
  | release x below => exact obeys_of_release hbegin ht.1 ht.2 h
  | sweep m rest failures below => exact obeys_of_sweep hR ht.1 ht.2 h
  | settle outcome below =>
      cases below with
      | cascade m item rest failures below =>
          cases h
          exact obeys_alone ⟨hR.back m item rest below ht.1, ht.2⟩
      | shutdown root rest failures below =>
          simp only [step, settle] at h
          split at h <;> cases h <;> exact obeys_alone ht
      | _ =>
          cases h
          exact obeys_alone ht
  | shutdown roots failures below =>
      cases roots <;> cases h
      · exact obeys_alone ht
      · exact obeys_alone ⟨hR.outside _ _ trivial, ht⟩
  | closers m left replies caller below =>
      cases left <;> cases h
      · exact obeys_alone ht
      · exact obeys_alone ⟨hR.outside _ _ trivial, ht⟩
  | perform c below =>
      simp only [step, perform] at h
      split at h <;> cases h
      case h_2 => exact obeys_alone ⟨hR.outside _ _ trivial, ht⟩
      case h_8 =>
        exact List.forall_mem_cons.mpr ⟨ht, obeys_alone ⟨hR.outside _ _ trivial, trivial⟩⟩
      all_goals exact obeys_alone ht
  | reply r below =>
      cases below with
      | top => cases h
      | script rest replies propagate below =>
          simp only [step, reply] at h
          split at h <;> cases h <;> exact obeys_alone ht
  | script commands replies propagate below =>
      cases commands <;> cases h <;> exact obeys_alone ht
  | finish replies fault below =>
      cases below <;> cases h
      case body.refl => exact obeys_alone ⟨hR.outside _ _ trivial, ht⟩
      all_goals exact obeys_alone ht

end Thread

end ArrayLifetimes
