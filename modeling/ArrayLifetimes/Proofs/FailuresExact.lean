/-
What a close reports.

A release that fails does not stop the close.  What failed comes up from level to level, as
one list: a manager takes over the entries of those below it, and adds one for each leaf of
its own that failed.  So in the end there is one entry for each leaf that failed, wherever
it is, and none for anything else.
-/
import ArrayLifetimes.Proofs.Cascade.Closes

namespace ArrayLifetimes

namespace Outcome

theorem error?_eq_none {o : Outcome} : o.error? = none ↔ o = ok := by
  cases o <;> simp [error?]

/-- The code of a list of failures is that of no single failure. -/
theorem code_ofEngine (answer : Except EngineFault Unit) {e : ManagerError}
    (h : (ofEngine answer).error? = some e) : e.code ≠ 1007 := by
  rcases answer with (error | p) | ⟨⟩
  · cases h
    cases error <;> simp [ManagerError.code, EngineError.code]
  · cases h
    cases p <;> simp [ManagerError.ofPanic, ManagerError.code]
  · cases h

theorem ofFailures_eq_ok {fs : ReleaseFailures} : ofFailures fs = ok ↔ fs = [] := by
  cases fs <;> simp [ofFailures, ReleaseFailures.error?]

end Outcome

namespace World

variable {w : World} {t : Holding}

theorem code_outcomeOf {x : Resource} {e : ManagerError} (h : (w.outcomeOf x).error? = some e) :
    e.code ≠ 1007 := by
  cases x with
  | manager m => cases h
  | array a =>
      rw [outcomeOf_array] at h
      split at h
      · cases h
      · split at h
        · cases h
        · exact Outcome.code_ofEngine _ h
  | hook g =>
      simp only [outcomeOf] at h
      split at h
      · rename_i label work _
        cases hending : work.ending with
        | succeed =>
            rw [hending] at h
            cases h
        | fail error =>
            rw [hending] at h
            exact Outcome.code_ofEngine (.error (.error error)) h
        | panic p =>
            rw [hending] at h
            exact Outcome.code_ofEngine (.error (.panic p)) h
      · cases h

theorem failures_eq_nil (w : World) (t : Holding) :
    w.failures t = [] ↔ ∀ e ∈ t.leaves, w.isReleased e.2 = false → w.outcomeOf e.2 = .ok := by
  rw [failures, List.filterMap_eq_nil_iff]
  refine ⟨?_, ?_⟩
  · intro h e he hpending
    have hnone := h e (List.mem_filter.mpr ⟨he, by rw [hpending, Bool.not_false]⟩)
    rwa [failure?, Option.map_eq_none_iff, Outcome.error?_eq_none] at hnone
  · intro h e he
    obtain ⟨hmem, hpending⟩ := List.mem_filter.mp he
    rw [failure?, h e hmem (by simpa using hpending)]
    rfl

/-- A close of the manager of a tree reports what failed below it, and nothing else. -/
structure Reports (w : World) (t : Holding) (o : Outcome) : Prop where
  ok_iff : o = .ok ↔ ∀ e ∈ t.leaves, w.isReleased e.2 = false → w.outcomeOf e.2 = .ok
  /-- There is one kind of error, and it has one entry for each leaf that fails. -/
  entries : o ≠ .ok → ∃ fs, o = .error (.release fs) ∧ fs.Perm (w.failures t)
  /-- Each entry is that of a leaf, with the leaf's own key, and code and message of its error. -/
  single : ∀ f ∈ w.failures t, f.code ≠ 1007 ∧ ∃ e ∈ t.leaves, ∃ error,
    (w.outcomeOf e.2).error? = some error ∧ f = ⟨e.1, error.code, error.phrase⟩ ∧
      ∀ m, e.2 ≠ .manager m

theorem Stands.reports (ht : w.Stands t) {fs : ReleaseFailures} (hfs : fs.Perm (w.failures t)) :
    w.Reports t (.ofFailures fs) where
  ok_iff := by
    rw [Outcome.ofFailures_eq_ok, ← failures_eq_nil]
    exact ⟨fun h => (h ▸ hfs).nil_eq.symm, fun h => (h ▸ hfs).eq_nil⟩
  entries h := by
    cases fs with
    | nil => exact absurd rfl h
    | cons f fs => exact ⟨_, rfl, hfs⟩
  single f hf := by
    rw [failures_eq] at hf
    obtain ⟨e, he, hfe⟩ := List.mem_filterMap.mp hf
    obtain ⟨error, herror, rfl⟩ := Option.map_eq_some_iff.mp hfe
    exact ⟨code_outcomeOf herror, e, he, error, herror, rfl, ht.leaf_ne he⟩

end World

namespace Machine

/-- **Failures are reported exactly.**  A tree of holdings stands, and how the release of one of its
leaves ends does not depend on the others.  In every order of visits the close of its manager
returns, in one way only, and reports what failed below it. -/
theorem failures_exact {past : VisitOrder} {kind : EngineKind} {s : Machine}
    (hs : Reachable past kind s) {t : Holding} (ht : s.world.Stands t)
    (settled : s.world.Settled (s.world.pending t)) {m : ManagerId} (hm : t.id? = some m)
    {i : Nat} {id : ThreadId} {bottom : Stack .outcome}
    (hi : s.threads[i]? = some ⟨id, .release (.manager m) bottom⟩) (order : VisitOrder) :
    ∃ o v, Calls order i bottom s ⟨v, s.threads.set i ⟨id, .settle o bottom⟩⟩ ∧
      (∀ u, Calls order i bottom s u → u.Returned i bottom →
        u = ⟨v, s.threads.set i ⟨id, .settle o bottom⟩⟩) ∧
      s.world.Reports t o := by
  obtain ⟨zs, v, o, h⟩ := ht.exists_released order id hs.apart
  have hcalls := h.closes hm s i bottom rfl hi
  refine ⟨o, v, hcalls, fun u hu => hcalls.eq_of_returned hu (returned_set hi v o), ?_⟩
  obtain ⟨fs, rfl⟩ := h.manager m hm
  have hfs := h.failures settled
  rw [Outcome.failures_ofFailures] at hfs
  refine ht.reports ?_
  rw [hfs, World.failures_eq]
  exact h.walk.perm.filterMap _

theorem failures_exact_over_levels :
    (failingSession.world.failures failingTree).map (fun f => (f.key, f.code)) =
        [(.text "q", 1008), (.array ⟨0⟩, 2003), (.text "k", 2006)] ∧
      ∃ o v, Calls .byAge 0 (.release .done .top) failingSession
          ⟨v, failingSession.threads.set 0 ⟨⟨0⟩, .settle o (.release .done .top)⟩⟩ ∧
        (∀ u, Calls .byAge 0 (.release .done .top) failingSession u →
          u.Returned 0 (.release .done .top) →
          u = ⟨v, failingSession.threads.set 0 ⟨⟨0⟩, .settle o (.release .done .top)⟩⟩) ∧
        failingSession.world.Reports failingTree o :=
  ⟨by decide, failures_exact reachable_failingSession stands_failingSession
    (settled_failingSession _) (by decide) rfl .byAge⟩

end Machine

end ArrayLifetimes
