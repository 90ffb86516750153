/-
Cascades that close children.

A cascade asks for the close of a child, or for the release of a resource.  As long as cascades
close children, the managers on a stack are a line of descent: each is a child of the one
below it.  A resource breaks the line.  It may be any manager, and a release hook may close any.

`Lineal` says this of a whole stack, given who is a child of whom.  Every step keeps it: managers
get on a stack as children of the manager whose cascade begins, and in no other way.
-/
import ArrayLifetimes.Proofs.ForestExact
import ArrayLifetimes.Proofs.Machine.Rules

namespace ArrayLifetimes

namespace Stack

/-- The cascades that wait for the release above as the close of a child, the innermost first: each
of them closes the one before it in the list. -/
def lineage {want : Want} : Stack want → List ManagerId
  | .cascade m (.child _) _ _ below => m :: below.lineage
  | _ => []

/-- The release of the resource may go on above the stack. -/
def Expects {want : Want} : Stack want → Resource → Prop
  | .cascade _ (.child c) _ _ _, x => x = .manager c
  | _, _ => True

/-- Cascades close children only, and no other manager in place of one. -/
def Lineal (child : ManagerId → ManagerId → Prop) {want : Want} : Stack want → Prop
  | .top | .closer _ => True
  | .cascade m item rest _ below =>
    (∀ c, item = .child c → child m c) ∧ (∀ c ∈ rest.children, child m c) ∧
      below.Expects (.manager m) ∧ below.Lineal child
  | .release _ below | .shutdown _ _ _ below | .closers _ _ _ _ below => below.Lineal child
  | .script _ _ _ below | .hook _ _ below | .callback _ _ below => below.Lineal child
  | .body _ _ _ below | .joined _ below => below.Lineal child

end Stack

namespace Task

def lineage : Task → List ManagerId
  | .release _ below => below.lineage
  | _ => []

def Lineal (child : ManagerId → ManagerId → Prop) : Task → Prop
  | .release x below => below.Expects x ∧ below.Lineal child
  | .sweep m rest _ below =>
    (∀ c ∈ rest.children, child m c) ∧ below.Expects (.manager m) ∧ below.Lineal child
  | .settle _ below => below.Lineal child
  | .shutdown _ _ below | .closers _ _ _ _ below | .perform _ below => below.Lineal child
  | .reply _ below => below.Lineal child
  | .script _ _ _ below | .finish _ _ below => below.Lineal child

end Task

variable {child : ManagerId → ManagerId → Prop}

/-- **A lineage is a line of descent.** -/
theorem Stack.Lineal.descends {want : Want} {σ : Stack want} (h : σ.Lineal child) {m : ManagerId}
    (hm : σ.Expects (.manager m)) : ∀ n ∈ σ.lineage, Relation.TransGen child n m := by
  intro n hn
  induction σ generalizing m with
  | cascade p item rest failures below ih =>
      cases item with
      | child c =>
          obtain ⟨hchild, -, hexp, hbelow⟩ := h
          obtain rfl : m = c := Resource.manager.inj hm
          have hpm := hchild m rfl
          rcases List.mem_cons.mp hn with rfl | hn
          · exact .single hpm
          · exact (ih hbelow hexp hn).tail hpm
      | resource key => cases hn
  | _ => cases hn

/-- What `Lineal` says of the cascades on a stack, as a rule. -/
def CascadeRule.descent (child : ManagerId → ManagerId → Prop) : CascadeRule where
  asks x below := below.Expects x
  waits m item rest below := (∀ c, item = .child c → child m c) ∧
    (∀ c ∈ rest.children, child m c) ∧ below.Expects (.manager m)
  loops m rest below := (∀ c ∈ rest.children, child m c) ∧ below.Expects (.manager m)

theorem CascadeRule.lawful_descent : (descent child).Lawful where
  outside x below h := by
    cases below with
    | cascade m item rest failures below => exact h.elim
    | _ => trivial
  child m c children resources failures below h := by
    obtain ⟨hrest, hexp⟩ := h
    refine ⟨⟨?_, ?_, hexp⟩, rfl⟩
    · rintro d ⟨⟩
      exact hrest c (List.mem_cons_self ..)
    · intro d hd
      exact hrest d (List.mem_cons_of_mem _ hd)
  resource m key x resources failures below h := by
    refine ⟨⟨?_, ?_, h.2⟩, trivial⟩
    · rintro d ⟨⟩
    · rintro d ⟨⟩
  back m item rest below h := h.2

theorem Stack.lineal_iff {want : Want} {σ : Stack want} :
    σ.Lineal child ↔ σ.Obeys (.descent child) := by
  induction σ with
  | top | closer => exact Iff.rfl
  | cascade m item rest failures below ih =>
      simp only [Lineal, Obeys, CascadeRule.descent, ih, and_assoc]
  | _ =>
      rename_i ih
      exact ih

theorem Task.lineal_iff {task : Task} : task.Lineal child ↔ task.Obeys (.descent child) := by
  cases task with
  | release x below => exact and_congr_right fun _ => Stack.lineal_iff
  | sweep m rest failures below =>
      simp only [Lineal, Obeys, CascadeRule.descent, Stack.lineal_iff, and_assoc]
  | _ => exact Stack.lineal_iff

/-- **Every step keeps the lineages.** -/
theorem Thread.lineal_of_step {w v : World} {t u : Thread} {started : List Thread}
    (order : VisitOrder) (running : List ManagerId)
    (hw : ∀ m r, w.openManager m = .ok r → ∀ c ∈ r.children, child m c)
    (ht : t.task.Lineal child) (h : t.step order w running = .next v u started) :
    ∀ r ∈ u :: started, r.task.Lineal child := by
  have hbegin : ∀ m r k below, w.openManager m = .ok r → v = (w.beginClose m r k).1 →
      (CascadeRule.descent child).asks (.manager m) below → (CascadeRule.descent child).loops m
        (order.arrange m ⟨r.children, r.resources.entries⟩) below :=
    fun m r _ _ hr _ hasks =>
      ⟨fun c hc => hw m r hr c ((order.children_perm m r.children).subset hc), hasks⟩
  intro r hr
  exact Task.lineal_iff.mpr
    (obeys_of_step order running CascadeRule.lawful_descent hbegin (Task.lineal_iff.mp ht) h r hr)

namespace Machine

variable {order : VisitOrder} {kind : EngineKind} {config : Config} {draws : Draws} {s : Machine}
  {ps : List (Machine × Nat)}

/-- **Along a run cascades close children only**: managers that steps of the run made for the manager
whose cascade it is. -/
theorem Takes.lineal (h : Takes order (fresh kind config draws) ps s)
    (hchild : ∀ p c, Made ps (.parent p) c → child p c) :
    ∀ t ∈ s.threads, t.task.Lineal child := by
  induction h with
  | refl => intro t ht; cases ht
  | command c h hi ih =>
      intro t ht
      rw [List.mem_singleton.mp ht]
      trivial
  | @step qs a b i h hi ih =>
      have hqs : ∀ p c, Made qs (.parent p) c → child p c :=
        fun p c hpc => hchild p c (made_cons.mpr (Or.inl hpc))
      have hold := ih hqs
      obtain ⟨before, t, after, v, u, started, -, hst, rfl⟩ := stepAt_eq_some hi
      have howned : ∀ m r, a.world.openManager m = .ok r → ∀ c ∈ r.children, child m c := by
        intro m r hr c hc
        obtain ⟨hk, hl⟩ := World.kin?_of_openManager hr
        have hunder := ((h.planted.mem_children m _ hk hl c).mp hc).1
        exact hqs m c (h.planted.under_iff.mp hunder).1
      have hnew := Thread.lineal_of_step order a.running howned (hold t hst.mem) hst.step
      intro r hr
      rcases hst.came hr with hr | hr
      · exact hold r hr
      · exact hnew r (List.mem_cons.mpr hr)

end Machine

end ArrayLifetimes
