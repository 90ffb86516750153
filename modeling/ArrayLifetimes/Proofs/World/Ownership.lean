/-
What managers own, and how a world grows.

Three facts about a world are kept by everything that happens in it.  Whatever a
manager owns or a client has a name for exists.  A manager that is not open owns
nothing any more.  And time goes one way: what exists stays, what is released stays
released, and a manager is first open, then closing, then closed.

`Later` is the third of them.  `Steady` is the stronger fact for everything but the two
ends of a close: no manager that exists moves on at all.
-/
import ArrayLifetimes.Machine.Consumption

namespace ArrayLifetimes

namespace Keyed

variable {κ α : Type} [DecidableEq κ]

theorem mem_values_of_get? {t : Keyed κ α} {k : κ} {a : α} (h : t.get? k = some a) :
    a ∈ t.values := by
  obtain ⟨es⟩ := t
  simp only [get?] at h
  simp only [values]
  induction es with
  | nil => simp [find] at h
  | cons e es ih =>
      simp only [find] at h
      split at h
      · simp only [Option.some.injEq] at h
        simp [h]
      · simp [ih h]

theorem mem_values_insert {t : Keyed κ α} {k : κ} {a b : α} (h : b ∈ (t.insert k a).values) :
    b = a ∨ b ∈ t.values := by
  obtain ⟨es⟩ := t
  simp only [insert, values] at h ⊢
  induction es with
  | nil => simpa [set] using h
  | cons e es ih =>
      simp only [set] at h
      split at h
      · simp only [List.map_cons, List.mem_cons] at h ⊢
        rcases h with h | h
        · exact Or.inl h
        · exact Or.inr (Or.inr h)
      · simp only [List.map_cons, List.mem_cons] at h ⊢
        rcases h with h | h
        · exact Or.inr (Or.inl h)
        · rcases ih h with h | h
          · exact Or.inl h
          · exact Or.inr (Or.inr h)

theorem mem_values_erase {t : Keyed κ α} {k : κ} {b : α} (h : b ∈ (t.erase k).values) :
    b ∈ t.values := by
  simp only [erase, values, List.mem_map, List.mem_filter] at h ⊢
  obtain ⟨e, ⟨he, -⟩, hb⟩ := h
  exact ⟨e, he, hb⟩

end Keyed

/-- Everything that a manager owns: its children, and its resources. -/
def Manager.owned (m : Manager) : List Resource := m.children.map .manager ++ m.resources.values

namespace World

/-! ### Looking at managers -/

/-- The lifecycle of a manager, if it exists. -/
def lifecycle? (w : World) (m : ManagerId) : Option Lifecycle :=
  (w.manager? m).map Manager.lifecycle

theorem lifecycle?_eq_some {w : World} {m : ManagerId} {l : Lifecycle} :
    w.lifecycle? m = some l ↔ ∃ r, w.manager? m = some r ∧ r.lifecycle = l := by
  simp [lifecycle?]

theorem isReleased_manager {w : World} {m : ManagerId} :
    w.isReleased (.manager m) = true ↔ w.lifecycle? m = some .closed := by
  simp only [isReleased, lifecycle?, Option.any_eq_true, Option.map_eq_some_iff]
  refine exists_congr fun r => and_congr_right fun _ => ?_
  cases hl : r.lifecycle <;> simp [Manager.state, Lifecycle.state, hl]

theorem openManager_eq_ok {w : World} {m : ManagerId} {r : Manager} :
    w.openManager m = .ok r ↔ w.manager? m = some r ∧ r.lifecycle = .opened := by
  unfold openManager
  cases hm : w.manager? m with
  | none => simp
  | some q =>
      simp only [Option.some.injEq]
      by_cases ho : q.isOpen = true
      · simp only [ho, if_true, Except.ok.injEq]
        refine ⟨?_, fun h => h.1⟩
        rintro rfl
        exact ⟨rfl, by simpa [Manager.isOpen] using ho⟩
      · simp only [ho, if_false, reduceCtorEq, false_iff]
        rintro ⟨rfl, hr⟩
        simp [Manager.isOpen, hr] at ho

@[simp] theorem manager?_modifyManager (w : World) (m : ManagerId) (f : Manager → Manager)
    (n : ManagerId) :
    (w.modifyManager m f).manager? n = if m = n then (w.manager? n).map f else w.manager? n := by
  simp only [manager?, modifyManager, Array.getElem?_modify]
  have hmn : m.index = n.index ↔ m = n := by
    cases m
    cases n
    simp
  simp [hmn]

/-! ### What exists -/

/-- The resource has been made. -/
def Has (w : World) : Resource → Prop
  | .array a => a.index < w.arrays.size
  | .manager m => m.index < w.managers.size
  | .hook h => h.index < w.hooks.size

instance (w : World) : DecidablePred w.Has
  | .array a => inferInstanceAs (Decidable (a.index < w.arrays.size))
  | .manager m => inferInstanceAs (Decidable (m.index < w.managers.size))
  | .hook h => inferInstanceAs (Decidable (h.index < w.hooks.size))

theorem has_manager_of {w : World} {m : ManagerId} {r : Manager} (h : w.manager? m = some r) :
    w.Has (.manager m) := by
  simp only [manager?] at h
  exact (Array.getElem?_eq_some_iff.mp h).1

theorem exists_of_has_manager {w : World} {m : ManagerId} (h : w.Has (.manager m)) :
    ∃ r, w.manager? m = some r := ⟨w.managers[m.index], Array.getElem?_eq_getElem h⟩

theorem exists_of_has_array {w : World} {a : ArrayId} (h : w.Has (.array a)) :
    ∃ r, w.array? a = some r := ⟨w.arrays[a.index], Array.getElem?_eq_getElem h⟩

theorem exists_of_has_hook {w : World} {h : HookId} (hh : w.Has (.hook h)) :
    ∃ r, w.hook? h = some r := ⟨w.hooks[h.index], Array.getElem?_eq_getElem hh⟩

end World

/-- What a client has names for exists. -/
structure Client.Within (c : Client) (w : World) : Prop where
  managers : ∀ m ∈ c.managers.values, w.Has (.manager m)
  arrays : ∀ a ∈ c.arrays.values, w.Has (.array a)
  resources : ∀ r ∈ c.resources.values, w.Has r
  guards : ∀ g ∈ c.guards.values, w.Has (.manager g)

theorem Client.Within.mono {c : Client} {w v : World} (h : c.Within w)
    (hv : ∀ x, w.Has x → v.Has x) : c.Within v where
  managers m hm := hv _ (h.managers m hm)
  arrays a ha := hv _ (h.arrays a ha)
  resources r hr := hv r (h.resources r hr)
  guards g hg := hv _ (h.guards g hg)

/-! ### The one way of time -/

/-- A lifecycle can lead to another one. -/
def Lifecycle.Leads : Lifecycle → Lifecycle → Prop
  | opened, _ => True
  | closing k, l => l = closing k ∨ l = closed
  | closed, l => l = closed

theorem Lifecycle.Leads.refl (l : Lifecycle) : l.Leads l := by
  cases l <;> simp [Leads]

theorem Lifecycle.Leads.trans {a b c : Lifecycle} (h : a.Leads b) (h' : b.Leads c) : a.Leads c := by
  cases a with
  | opened => trivial
  | closing k =>
      rcases h with rfl | rfl
      · exact h'
      · exact Or.inr h'
  | closed =>
      cases h
      exact h'

namespace World

/-- One world comes after another. -/
structure Later (w v : World) : Prop where
  has : ∀ x, w.Has x → v.Has x
  lifecycle : ∀ m l, w.lifecycle? m = some l → ∃ l', v.lifecycle? m = some l' ∧ l.Leads l'
  released : ∀ x, w.isReleased x = true → v.isReleased x = true
  threads : w.threads ≤ v.threads

theorem Later.refl (w : World) : w.Later w :=
  ⟨fun _ => id, fun _ l h => ⟨l, h, .refl l⟩, fun _ => id, Nat.le_refl _⟩

theorem Later.trans {w v u : World} (h : w.Later v) (h' : v.Later u) : w.Later u where
  has x hx := h'.has x (h.has x hx)
  lifecycle m l hl := by
    obtain ⟨l', hl', hlead⟩ := h.lifecycle m l hl
    obtain ⟨l'', hl'', hlead'⟩ := h'.lifecycle m l' hl'
    exact ⟨l'', hl'', hlead.trans hlead'⟩
  released x hx := h'.released x (h.released x hx)
  threads := Nat.le_trans h.threads h'.threads

/-- A manager that is not open never is again. -/
theorem Later.not_open {w v : World} (h : w.Later v) {m : ManagerId} {l : Lifecycle}
    (hl : w.lifecycle? m = some l) (hne : l ≠ .opened) : v.lifecycle? m ≠ some .opened := by
  obtain ⟨l', hl', hlead⟩ := h.lifecycle m l hl
  rw [hl']
  rintro ⟨⟩
  cases l with
  | opened => exact hne rfl
  | closing k => simp [Lifecycle.Leads] at hlead
  | closed => simp [Lifecycle.Leads] at hlead

/-- The managers of one world are as far as in another; new ones are open. -/
structure Steady (w v : World) : Prop where
  has : ∀ x, w.Has x → v.Has x
  lifecycle : ∀ m, v.lifecycle? m = w.lifecycle? m ∨
    (w.lifecycle? m = none ∧ v.lifecycle? m = some .opened)
  released : ∀ x, w.isReleased x = true → v.isReleased x = true
  threads : w.threads ≤ v.threads

theorem Steady.refl (w : World) : w.Steady w :=
  ⟨fun _ => id, fun _ => Or.inl rfl, fun _ => id, Nat.le_refl _⟩

theorem Steady.trans {w v u : World} (h : w.Steady v) (h' : v.Steady u) : w.Steady u where
  has x hx := h'.has x (h.has x hx)
  lifecycle m := by
    rcases h.lifecycle m with hv | ⟨hw, hv⟩
    · rw [← hv]
      exact h'.lifecycle m
    · rcases h'.lifecycle m with hu | ⟨hv', -⟩
      · exact Or.inr ⟨hw, hu.trans hv⟩
      · rw [hv] at hv'
        cases hv'
  released x hx := h'.released x (h.released x hx)
  threads := Nat.le_trans h.threads h'.threads

theorem Steady.of_some {w v : World} (h : w.Steady v) {m : ManagerId} {l : Lifecycle}
    (hl : w.lifecycle? m = some l) : v.lifecycle? m = some l := by
  rcases h.lifecycle m with hv | ⟨hw, -⟩
  · rw [hv, hl]
  · rw [hl] at hw
    cases hw

theorem Steady.of_ne_opened {w v : World} (h : w.Steady v) {m : ManagerId} {l : Lifecycle}
    (hl : v.lifecycle? m = some l) (hne : l ≠ .opened) : w.lifecycle? m = some l := by
  rcases h.lifecycle m with hv | ⟨-, hv⟩
  · rw [← hv, hl]
  · rw [hl] at hv
    cases hv
    exact absurd rfl hne

theorem Steady.later {w v : World} (h : w.Steady v) : w.Later v where
  has := h.has
  lifecycle _ l hl := ⟨l, h.of_some hl, .refl l⟩
  released := h.released
  threads := h.threads

/-! ### What everything keeps -/

structure WellOwned (w : World) : Prop where
  /-- What a manager owns exists. -/
  owned : ∀ m r, w.manager? m = some r → ∀ x ∈ r.owned, w.Has x
  /-- A manager that is not open has given everything away. -/
  given : ∀ m r, w.manager? m = some r → r.lifecycle ≠ .opened → r.resources = {} ∧ r.children = []
  client : w.client.Within w
  /-- The first thread is the client's own. -/
  threads : 0 < w.threads

end World

end ArrayLifetimes
