/-
The books of the engine in host memory.

From its start on the engine gets one call after the other, whatever they are.  Its table, its
numbers and its counters are compared with what came of the calls: `Books` says that they
agree.  A call that fails changes nothing, so it is enough to look at the three that do
change something, the making of an array, an operation into one and the freeing of one.

What is held is read off the exchanges alone: a handle that was given and has not been freed
since.  That the table holds just these makes both `release` and `read` total on them.
-/
import ArrayLifetimes.Proofs.Engine.Inventory
import ArrayLifetimes.World.Engine

namespace ArrayLifetimes

/-! ### The keys of a table -/

namespace Keyed

variable {κ α : Type} [DecidableEq κ] {t : Keyed κ α} {k : κ} {a : α}

theorem map_fst_set (es : List (κ × α)) : (set k a es).map Prod.fst =
    if k ∈ es.map Prod.fst then es.map Prod.fst else es.map Prod.fst ++ [k] := by
  induction es with
  | nil => simp [set]
  | cons e es ih => grind [set]

/-- A key that is there keeps its place, and a new one comes last. -/
theorem keys_insert : (t.insert k a).keys = if k ∈ t.keys then t.keys else t.keys ++ [k] :=
  map_fst_set t.entries

theorem keys_erase : (t.erase k).keys = t.keys.filter fun k' => k' ≠ k := by
  rw [keys, keys, List.filter_map]
  rfl

omit [DecidableEq κ] in
theorem length_keys (t : Keyed κ α) : t.keys.length = t.size := List.length_map ..

theorem nodup_keys_insert (h : t.keys.Nodup) : (t.insert k a).keys.Nodup := by
  rw [keys_insert]
  by_cases hk : k ∈ t.keys
  · rw [if_pos hk]
    exact h
  · rw [if_neg hk]
    exact (List.perm_append_singleton k t.keys).nodup_iff.mpr (List.nodup_cons.mpr ⟨hk, h⟩)

theorem size_insert_of_none (h : t.get? k = none) : (t.insert k a).size = t.size + 1 := by
  rw [← length_keys, keys_insert, if_neg (get?_eq_none_iff.mp h), List.length_append,
    List.length_singleton, length_keys]

theorem size_insert_of_some {b : α} (h : t.get? k = some b) : (t.insert k a).size = t.size := by
  rw [← length_keys, keys_insert, if_pos (mem_keys_of_get? h), length_keys]

theorem size_erase_of_some (hn : t.keys.Nodup) (h : t.get? k = some a) :
    (t.erase k).size + 1 = t.size := by
  have hk := mem_keys_of_get? h
  have hfilter : (t.erase k).keys = t.keys.erase k := by
    rw [keys_erase, hn.erase_eq_filter]
    exact List.filter_congr fun k' _ => by by_cases he : k' = k <;> simp [he]
  rw [← length_keys, hfilter, List.length_erase_add_one hk, length_keys]

end Keyed

namespace Host

/-! ### Calls and what comes of them -/

/-- A call that the engine got, and the handle of the array that it made, if it made one. -/
structure Exchange where
  call : EngineCall
  made : Option Handle

/-- The engine after it made an array, and the array's handle.  One that made none is as it
was. -/
def made {ε : Type} (h : Host) : Except ε (Host × NativeArray) → Host × Option Handle
  | .ok (k, n) => (k, some n.handle)
  | .error _ => (h, none)

/-- The engine after something that makes no array. -/
def changed {ε : Type} (h : Host) : Except ε Host → Host × Option Handle
  | .ok k => (k, none)
  | .error _ => (h, none)

/-- The engine after a call, and the handle that it gives. -/
def serve (h : Host) : EngineCall → Host × Option Handle
  | .create r => h.made (h.create r)
  | .release x => h.changed (h.release x)
  | .read _ => (h, none)
  | .invoke operation inputs ps => h.made (h.invoke operation inputs ps)
  | .invokeInto operation inputs outputs ps => h.changed (h.invokeInto operation inputs outputs ps)

/-- The engine after calls, and all its exchanges, the latest first. -/
def serveAll (h : Host) (past : List Exchange) : List EngineCall → Host × List Exchange
  | [] => (h, past)
  | c :: calls => serveAll (h.serve c).1 (⟨c, (h.serve c).2⟩ :: past) calls

/-- The handles that were given. -/
def given (past : List Exchange) : List Handle := past.filterMap Exchange.made

/-- The handle was given, and no call since was to free it. -/
def Outstanding (past : List Exchange) (x : Handle) : Prop :=
  ∃ since e before, past = since ++ e :: before ∧ e.made = some x ∧
    ∀ f ∈ since, f.call ≠ .release x

theorem not_outstanding_nil (x : Handle) : ¬ Outstanding [] x := by
  intro h
  obtain ⟨since, e, before, heq, -⟩ := h
  cases since <;> cases heq

theorem outstanding_cons {e : Exchange} {past : List Exchange} {x : Handle} :
    Outstanding (e :: past) x ↔ e.made = some x ∨ e.call ≠ .release x ∧ Outstanding past x := by
  constructor
  · intro h
    obtain ⟨since, f, before, heq, hf, hsince⟩ := h
    cases since with
    | nil =>
        obtain ⟨rfl, rfl⟩ := List.cons.inj heq
        exact Or.inl hf
    | cons g since =>
        obtain ⟨rfl, rfl⟩ := List.cons.inj heq
        exact Or.inr ⟨hsince e (List.mem_cons_self ..), since, f, before, rfl, hf,
          fun g hg => hsince g (List.mem_cons_of_mem _ hg)⟩
  · intro h
    rcases h with hmade | ⟨hcall, since, f, before, rfl, hf, hsince⟩
    · exact ⟨[], e, past, rfl, hmade, fun f hf => absurd hf List.not_mem_nil⟩
    · refine ⟨e :: since, f, before, rfl, hf, ?_⟩
      intro g hg
      rcases List.mem_cons.mp hg with rfl | hg
      · exact hcall
      · exact hsince g hg

theorem mem_given_of_outstanding {past : List Exchange} {x : Handle} (h : Outstanding past x) :
    x ∈ given past := by
  obtain ⟨since, e, before, rfl, hmade, -⟩ := h
  exact List.mem_filterMap.mpr ⟨e, List.mem_append_right _ (List.mem_cons_self ..), hmade⟩

/-! ### The books -/

/-- The engine's table, numbers and counters are those of the exchanges. -/
structure Books (h : Host) (past : List Exchange) : Prop where
  /-- The table holds a sized buffer for each handle that is outstanding, and no other. -/
  stores : ∃ ns, h.Stores ns ∧ ∀ x, x ∈ ns.map NativeArray.handle ↔ Outstanding past x
  keys : h.buffers.keys.Nodup
  fresh : (given past).Nodup
  numbered : ∀ x ∈ given past, x.number < h.nextHandle
  next : h.nextHandle = h.allocated + 1
  counted : h.allocated = (given past).length
  balanced : h.allocated = h.released + h.live

variable {h k : Host} {past : List Exchange} {c : EngineCall} {x : Handle} {n : NativeArray}

theorem books_nil (draws : Draws) : Books { draws } [] := by
  refine ⟨⟨[], stores_nil draws, ?_⟩, List.nodup_nil, List.nodup_nil, ?_, rfl, rfl, rfl⟩
  · intro x
    exact ⟨fun hx => absurd hx List.not_mem_nil, fun hx => absurd hx (not_outstanding_nil x)⟩
  · intro x hx
    cases hx

theorem Books.contains_iff (hb : h.Books past) : h.contains x = true ↔ Outstanding past x := by
  obtain ⟨ns, hns, hx⟩ := hb.stores
  exact (hns.contains_iff x).trans (hx x)

theorem exists_of_release (hr : h.release x = .ok k) :
    ∃ b, h.buffers.get? x = some b ∧
      k = { h with buffers := h.buffers.erase x, released := h.released + 1 } := by
  unfold Host.release at hr
  split at hr
  · rename_i b hb
    exact ⟨b, hb, (Except.ok.inj hr).symm⟩
  · cases hr

/-- How many numbers the engine has drawn does not matter. -/
theorem Books.drawing (hb : h.Books past) (drawn : Nat) : Books { h with drawn } past := by
  obtain ⟨ns, hns, hx⟩ := hb.stores
  exact ⟨⟨ns, hns.of_eq rfl rfl, hx⟩, hb.keys, hb.fresh, hb.numbered, hb.next, hb.counted,
    hb.balanced⟩

/-- An exchange that gives no handle and frees none. -/
theorem Books.idle (hb : h.Books past) (hc : ∀ x, c = .release x → ¬ Outstanding past x) :
    h.Books (⟨c, none⟩ :: past) := by
  obtain ⟨ns, hns, hx⟩ := hb.stores
  refine ⟨⟨ns, hns, ?_⟩, hb.keys, hb.fresh, hb.numbered, hb.next, hb.counted, hb.balanced⟩
  intro x
  rw [hx, outstanding_cons]
  constructor
  · intro hout
    exact Or.inr ⟨fun he => hc x he hout, hout⟩
  · intro hout
    rcases hout with hmade | ⟨-, hout⟩
    · cases hmade
    · exact hout

/-- **A new array** gets a number that was never given. -/
theorem Books.insert (hb : h.Books past) {b : Buffer} (hsized : b.Sized)
    (hc : ∀ x, c ≠ .release x) : (h.insert b).1.Books (⟨c, some (h.insert b).2.handle⟩ :: past) := by
  obtain ⟨ns, hns, hx⟩ := hb.stores
  have hnew : (⟨h.nextHandle⟩ : Handle) ∉ given past := by
    intro hmem
    exact Nat.lt_irrefl _ (hb.numbered _ hmem)
  have hnone : h.buffers.get? ⟨h.nextHandle⟩ = none := by
    cases hget : h.buffers.get? ⟨h.nextHandle⟩ with
    | none => rfl
    | some b => exact absurd (mem_given_of_outstanding ((hx _).mp (hns.only _ b hget))) hnew
  have hsize : (h.insert b).1.live = h.live + 1 := Keyed.size_insert_of_none hnone
  refine ⟨⟨(h.insert b).2 :: ns, hns.insert hsized, ?_⟩, Keyed.nodup_keys_insert hb.keys,
    List.nodup_cons.mpr ⟨hnew, hb.fresh⟩, ?_, ?_, ?_, ?_⟩
  · intro x
    rw [List.map_cons, List.mem_cons, hx, outstanding_cons, Option.some.injEq]
    constructor
    · intro hmem
      rcases hmem with rfl | hout
      · exact Or.inl rfl
      · exact Or.inr ⟨hc x, hout⟩
    · intro hout
      rcases hout with he | ⟨-, hout⟩
      · exact Or.inl he.symm
      · exact Or.inr hout
  · intro x hmem
    rcases List.mem_cons.mp hmem with rfl | hmem
    · exact Nat.lt_succ_self _
    · exact Nat.lt_succ_of_lt (hb.numbered x hmem)
  · exact congrArg (· + 1) hb.next
  · exact congrArg (· + 1) hb.counted
  · rw [hsize]
    exact congrArg (· + 1) hb.balanced

theorem Books.create (hb : h.Books past) {r : AllocationRequest} (hc : h.create r = .ok (k, n)) :
    k.Books (⟨.create r, some n.handle⟩ :: past) := by
  obtain ⟨drawn, b, hsized, hins⟩ := exists_insert_of_create hc
  have hbooks := (hb.drawing drawn).insert hsized (c := .create r) fun x hx => by cases hx
  rw [hins] at hbooks
  exact hbooks

theorem Books.invoke (hb : h.Books past) {operation : String} {inputs : List Handle} {ps : Params}
    (hi : h.invoke operation inputs ps = .ok (k, n)) :
    k.Books (⟨.invoke operation inputs ps, some n.handle⟩ :: past) := by
  obtain ⟨ns, hns, -⟩ := hb.stores
  obtain ⟨b, hsized, hins⟩ := exists_insert_of_invoke (fun _ _ => hns.sized) hi
  have hbooks := hb.insert hsized (c := .invoke operation inputs ps) fun x hx => by cases hx
  rw [hins] at hbooks
  exact hbooks

/-- An operation into an array counts as no array, and the table keeps its keys. -/
theorem Books.invokeInto (hb : h.Books past) {operation : String} {inputs outputs : List Handle}
    {ps : Params} (hi : h.invokeInto operation inputs outputs ps = .ok k) :
    k.Books (⟨.invokeInto operation inputs outputs ps, none⟩ :: past) := by
  obtain ⟨ns, hns, hx⟩ := hb.stores
  have hstores := hns.invokeInto hi
  obtain ⟨target, old, bytes, -, hold, -, rfl⟩ := exists_of_invokeInto hi
  have hlive : Host.live { h with buffers := h.buffers.insert target { old with bytes } } = h.live :=
    Keyed.size_insert_of_some hold
  have hbooks : Books { h with buffers := h.buffers.insert target { old with bytes } } past := by
    refine ⟨⟨ns, hstores, hx⟩, Keyed.nodup_keys_insert hb.keys, hb.fresh, hb.numbered, hb.next,
      hb.counted, ?_⟩
    rw [hlive]
    exact hb.balanced
  exact hbooks.idle fun x he => by cases he

/-- **What is freed** is outstanding no more. -/
theorem Books.release (hb : h.Books past) (hr : h.release x = .ok k) :
    k.Books (⟨.release x, none⟩ :: past) := by
  obtain ⟨ns, hns, hx⟩ := hb.stores
  obtain ⟨b, hget, rfl⟩ := exists_of_release hr
  obtain ⟨n, hn, rfl⟩ := List.mem_map.mp (hns.only x b hget)
  obtain ⟨k, hk, hstores⟩ := (hns.perm (List.perm_cons_erase hn)).release
  obtain rfl := Except.ok.inj (hr.symm.trans hk)
  refine ⟨⟨ns.erase n, hstores, ?_⟩, ?_, hb.fresh, hb.numbered, hb.next, hb.counted, ?_⟩
  · intro x
    rw [← hstores.contains_iff, outstanding_cons, ← hb.contains_iff, contains, Keyed.contains,
      Keyed.get?_erase, contains, Keyed.contains]
    by_cases he : n.handle = x <;> simp [he]
  · show (h.buffers.erase n.handle).keys.Nodup
    rw [Keyed.keys_erase]
    exact hb.keys.filter _
  · have hsize := Keyed.size_erase_of_some hb.keys hget
    have hbalanced := hb.balanced
    unfold live at hbalanced ⊢
    show h.allocated = h.released + 1 + (h.buffers.erase n.handle).size
    omega

/-- **A handle can be read, and freed, just when it is outstanding.** -/
theorem Books.release_isOk_iff (hb : h.Books past) (x : Handle) :
    (h.release x).isOk = true ↔ Outstanding past x := by
  rw [← hb.contains_iff, Host.release, contains, Keyed.contains]
  cases h.buffers.get? x <;> simp [Except.isOk, Except.toBool]

theorem Books.read_isOk_iff (hb : h.Books past) (x : Handle) :
    (h.read x).isOk = true ↔ Outstanding past x := by
  rw [← hb.contains_iff, Host.read, contains, Keyed.contains]
  cases h.buffers.get? x <;> simp [Except.isOk, Except.toBool]

/-! ### Sequences of calls -/

/-- **Each call keeps the books in order**, whether it succeeds or fails. -/
theorem Books.serve (hb : h.Books past) (c : EngineCall) :
    (h.serve c).1.Books (⟨c, (h.serve c).2⟩ :: past) := by
  cases c with
  | create r =>
      cases hc : h.create r with
      | error e =>
          simp only [Host.serve, hc, made]
          exact hb.idle fun x he => by cases he
      | ok r =>
          simp only [Host.serve, hc, made]
          exact hb.create hc
  | release x =>
      cases hr : h.release x with
      | error e =>
          simp only [Host.serve, hr, changed]
          refine hb.idle fun y he => ?_
          obtain rfl := EngineCall.release.inj he
          rw [← hb.release_isOk_iff, hr]
          exact Bool.false_ne_true
      | ok k =>
          simp only [Host.serve, hr, changed]
          exact hb.release hr
  | read x => exact hb.idle fun x he => by cases he
  | invoke operation inputs ps =>
      cases hi : h.invoke operation inputs ps with
      | error e =>
          simp only [Host.serve, hi, made]
          exact hb.idle fun x he => by cases he
      | ok r =>
          simp only [Host.serve, hi, made]
          exact hb.invoke hi
  | invokeInto operation inputs outputs ps =>
      cases hi : h.invokeInto operation inputs outputs ps with
      | error e =>
          simp only [Host.serve, hi, changed]
          exact hb.idle fun x he => by cases he
      | ok k =>
          simp only [Host.serve, hi, changed]
          exact hb.invokeInto hi

theorem Books.serveAll (hb : h.Books past) (calls : List EngineCall) :
    (h.serveAll past calls).1.Books (h.serveAll past calls).2 := by
  induction calls generalizing h past with
  | nil => exact hb
  | cons c calls ih => exact ih (hb.serve c)

/-- **The table of the engine.**  A new engine gets any calls, one after the other, some of which
succeed and some of which fail.  Afterwards every buffer has as many bytes as its shape and data
type take; the handles that it gave are all different and lie below the next one, which is
a word as long as there were fewer than `2 ^ 64 - 1` of them; what is allocated is what is
released and what is live; and freeing and reading succeed for the handles that were given and
not freed since, and for no others. -/
theorem table_exact (draws : Draws) (calls : List EngineCall) :
    let h := (Host.serveAll { draws } [] calls).1
    let past := (Host.serveAll { draws } [] calls).2
    (∀ x b, h.buffers.get? x = some b → b.shape.byteLen b.dataType = some b.bytes.length) ∧
      (given past).Nodup ∧
      (∀ x ∈ given past, x.number < h.nextHandle) ∧
      (h.allocated = (given past).length ∧ h.nextHandle = h.allocated + 1) ∧
      h.allocated = h.released + h.live ∧
      ∀ x, ((h.release x).isOk = true ↔ Outstanding past x) ∧
        ((h.read x).isOk = true ↔ Outstanding past x) := by
  intro h past
  have hb : h.Books past := (books_nil draws).serveAll calls
  obtain ⟨ns, hns, -⟩ := hb.stores
  exact ⟨fun x b hx => hns.sized hx, hb.fresh, hb.numbered, ⟨hb.counted, hb.next⟩, hb.balanced,
    fun x => ⟨hb.release_isOk_iff x, hb.read_isOk_iff x⟩⟩

end Host

end ArrayLifetimes
