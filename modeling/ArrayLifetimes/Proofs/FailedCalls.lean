/-
A call that fails changes nothing.

A manager is asked to take something, or to have the engine make or write something.  The call
may fail at many places: over its arguments, over the size of the array, over what the engine
supports, over an input that is released, or in the engine itself, in the middle of filling
an array or after a result has been computed that does not fit.  Over the host engine all of them
come before the first change.  What comes after it does not fail any more: the manager that
was open when the engine was asked still is, and a buffer that has just been made can be read.

So `Acquires` need not say where a call fails.  Each of its calls answers in the step in which
it is made, and after a failure the world is the one before, in which the engine
may have heard one call more.
-/
import ArrayLifetimes.Proofs.RoundTrip

namespace ArrayLifetimes

/-- Calls by which a manager takes something, or has the engine make or write something. -/
def Command.Acquires : Command → Prop
  | .attach .. | .attachArray .. | .allocate .. | .invoke .. | .invokeInto .. => True
  | _ => False

namespace World

variable {w v u : World} {m : ManagerId} {a : ArrayId} {r : ArrayRecord} {f : Fault}

/-- The second world is the first one, in which the engine may have heard a call and refused it. -/
structure Untouched (w v : World) : Prop where
  /-- What the managers own, and their lifecycles. -/
  managers : v.managers = w.managers
  roots : v.roots = w.roots
  /-- The arrays with their marks. -/
  arrays : v.arrays = w.arrays
  hooks : v.hooks = w.hooks
  client : v.client = w.client
  /-- The buffers with their contents, the counters and the next handle. -/
  host : v.engine.host = w.engine.host
  /-- There is at most that one call, and it does not release. -/
  asked : v = w ∨ ∃ c, (∀ x, c ≠ .release x) ∧ v = w.tell .managers c

theorem Untouched.refl (w : World) : w.Untouched w :=
  ⟨rfl, rfl, rfl, rfl, rfl, rfl, Or.inl rfl⟩

theorem untouched_tell (w : World) {c : EngineCall} (hc : ∀ x, c ≠ .release x) :
    w.Untouched (w.tell .managers c) :=
  ⟨rfl, rfl, rfl, rfl, rfl, rfl, Or.inr ⟨c, hc, rfl⟩⟩

/-- A call is done at once, and if it fails nothing has changed. -/
def Clean (w : World) (p : World × Action) : Prop :=
  ∃ v reply, p = (v, .reply reply) ∧ ∀ f, reply = .fault f → w.Untouched v

theorem clean_answer (w v : World) (answer : Answer) : w.Clean (v, .answer answer) := by
  refine ⟨v, .answer answer, rfl, ?_⟩
  intro f hf
  cases hf

theorem Untouched.clean (h : w.Untouched v) (f : Fault) : w.Clean (v, .fault f) :=
  ⟨v, .fault f, rfl, fun _ _ => h⟩

/-! ### Requests that the host engine refuses -/

theorem untouched_of_callCreate (hk : w.engine.kind = .host) {q : AllocationRequest}
    {e : EngineFault} (h : w.callCreate .managers q = (v, .error e)) : w.Untouched v := by
  cases hc : w.engine.host.create q with
  | ok p =>
      obtain ⟨u, hu, -⟩ := callCreate_host hk hc .managers
      rw [hu] at h
      cases h
  | error fault =>
      have hh : (w.tell .managers (.create q)).engine.kind = .host := hk
      have hq : (w.tell .managers (.create q)).engine.host.create q = .error fault := hc
      simp only [callCreate, Engine.create, hh, Engine.createHosted, Engine.dueError,
        Engine.isPlain, if_true, hq] at h
      cases h
      exact untouched_tell w fun x => by simp

theorem untouched_of_callInvoke {operation : String} {inputs : List Handle} {ps : Params}
    {e : EngineFault} (h : w.callInvoke .managers operation inputs ps = (v, .error e)) :
    w.Untouched v := by
  simp only [callInvoke] at h
  split at h <;> cases h
  exact untouched_tell w fun x => by simp

theorem untouched_of_callInvokeInto {operation : String} {inputs outputs : List Handle}
    {ps : Params} {e : EngineFault}
    (h : w.callInvokeInto .managers operation inputs outputs ps = (v, .error e)) :
    w.Untouched v := by
  simp only [callInvokeInto] at h
  split at h <;> cases h
  exact untouched_tell w fun x => by simp

/-! ### Requests that it grants -/

theorem readable_of_callCreate (hk : w.engine.kind = .host) {q : AllocationRequest}
    {n : NativeArray} (h : w.callCreate .managers q = (v, .ok n)) : v.Readable n := by
  cases hc : w.engine.host.create q with
  | error e =>
      obtain ⟨u, hu⟩ := callCreate_host_error hk hc .managers
      rw [hu] at h
      cases h
  | ok p =>
      obtain ⟨k, n'⟩ := p
      obtain ⟨u, hu, -, hhost, -⟩ := callCreate_host hk hc .managers
      rw [hu] at h
      cases h
      obtain ⟨drawn, b, -, hins⟩ := Host.exists_insert_of_create hc
      refine ⟨b.bytes, ?_⟩
      have hread := Host.read_insert { w.engine.host with drawn } b
      rw [hins] at hread
      rw [hhost]
      exact hread

/-- An operation of the host engine makes one array. -/
theorem readable_of_callInvoke (hk : w.engine.kind = .host) {operation : String}
    {inputs : List Handle} {ps : Params} {ns : List NativeArray}
    (h : w.callInvoke .managers operation inputs ps = (v, .ok ns)) :
    ∃ n, ns = [n] ∧ v.Readable n := by
  have hh : (w.tell .managers (.invoke operation inputs ps)).engine.kind = .host := hk
  simp only [callInvoke, Engine.invoke, hh, Engine.invokeHosted] at h
  split at h
  · rename_i engine natives hinvoke
    cases h
    simp only [mapError_eq_ok, bind_eq_ok, pure, Except.pure, Except.ok.injEq, Prod.mk.injEq] at hinvoke
    obtain ⟨⟨host, n⟩, hn, rfl, rfl⟩ := hinvoke
    refine ⟨n, rfl, ?_⟩
    simp only [Host.invoke, bind_eq_ok, pure, Except.pure, Except.ok.injEq] at hn
    obtain ⟨b, -, hins⟩ := hn
    refine ⟨b.bytes, ?_⟩
    have hread := Host.read_insert (w.tell .managers (.invoke operation inputs ps)).engine.host b
    rw [hins] at hread
    exact hread
  · cases h

theorem clean_afterCreate (hk : v.engine.kind = .host) {owner : Manager}
    (ho : v.openManager m = .ok owner) {n : NativeArray} (hn : v.Readable n) (name : Name)
    (check : Option Check) : w.Clean (v.afterCreate (.track m n name check)) := by
  obtain ⟨u, answer, hu⟩ := exists_answer_of_track hk ho hn name check
  rw [afterCreate_host hk, hu]
  exact clean_answer w _ _

theorem clean_afterInvoke (hk : v.engine.kind = .host) {owner : Manager}
    (ho : v.openManager m = .ok owner) {n : NativeArray} (hn : v.Readable n) (operation : String)
    (name : Name) : w.Clean (v.afterInvoke (.trackAll m operation [n] name)) := by
  obtain ⟨u, a, hu, hshown⟩ := exists_elements_of_track
    (w := v.note (.invoked m operation [n].length)) hk ho hn
  obtain ⟨r, xs, hr, hx⟩ := hshown (u.nameOutputs name [a]) rfl rfl
  have hpair : (u.nameOutputs name [a]).arrayElements a none =
      (((u.nameOutputs name [a]).arrayElements a none).1, .ok xs) := by rw [← hx]
  have hone : (v.note (.invoked m operation [n].length)).trackAll m [n] = (u, .ok [a]) := by
    simp only [trackAll, hu]
  have hitems : (u.nameOutputs name [a]).shownArrays [a] =
      (((u.nameOutputs name [a]).arrayElements a none).1, .ok [(r, .elements xs)]) := by
    rw [shownArrays, hr, hpair]
    rfl
  simp only [afterInvoke, Engine.dueAfterInvoke, Engine.isPlain, hk, if_true, proceed, hone, hitems]
  exact clean_answer w _ _

/-! ### The calls -/

section Calls

variable {p : World × Action}

theorem clean_performAttach {manager : Name} {key : KeyName} {resource : ResourceName}
    {displaced : Option Name} (h : w.performAttach manager key resource displaced = .ok p) :
    w.Clean p := by
  simp only [performAttach, bind_eq_ok, pure, Except.pure, Except.ok.injEq] at h
  obtain ⟨-, -, -, -, -, -, -, -, rfl⟩ := h
  exact clean_answer w _ _

theorem clean_performAttachArray {manager array : Name}
    (h : w.performAttachArray manager array = .ok p) : w.Clean p := by
  simp only [performAttachArray, bind_eq_ok, pure, Except.pure, Except.ok.injEq] at h
  obtain ⟨-, -, -, -, -, -, rfl⟩ := h
  exact clean_answer w _ _

theorem clean_performAllocate (hk : w.engine.kind = .host) {manager name : Name}
    {allocation : Allocation} {check : Option Check}
    (h : w.performAllocate manager name allocation check = .ok p) : w.Clean p := by
  simp only [performAllocate, bind_eq_ok, mapError_eq_ok] at h
  obtain ⟨m, -, d, -, q, hq, h⟩ := h
  simp only [requestFor, bind_eq_ok] at hq
  obtain ⟨owner, ho, -⟩ := hq
  split at h
  · rename_i hcreate
    cases h
    exact (untouched_of_callCreate hk hcreate).clean _
  · rename_i v n hcreate
    cases h
    have hheard := heard_of_callCreate hcreate
    have hopen : v.openManager m = .ok owner := by
      simp only [openManager, manager?, hheard.managers]
      exact ho
    exact clean_afterCreate (hheard.kind.trans hk) hopen (readable_of_callCreate hk hcreate) name
      check

theorem clean_performInvoke (hk : w.engine.kind = .host) {manager name : Name}
    {operation : String} {inputs : List Name} {ps : Params}
    (h : w.performInvoke manager operation inputs ps name = .ok p) : w.Clean p := by
  simp only [performInvoke, bind_eq_ok, mapError_eq_ok] at h
  obtain ⟨m, -, as, -, hs, hhandles, h⟩ := h
  simp only [prepareInvoke, bind_eq_ok] at hhandles
  obtain ⟨owner, ho, -⟩ := hhandles
  split at h
  · rename_i hinvoke
    cases h
    exact (untouched_of_callInvoke hinvoke).clean _
  · rename_i v ns hinvoke
    cases h
    have hheard := heard_of_callInvoke hinvoke
    have hopen : v.openManager m = .ok owner := by
      simp only [openManager, manager?, hheard.managers]
      exact ho
    obtain ⟨n, rfl, hn⟩ := readable_of_callInvoke hk hinvoke
    exact clean_afterInvoke (hheard.kind.trans hk) hopen hn operation name

theorem clean_performInvokeInto {manager : Name} {operation : String}
    {inputs outputs : List Name} {ps : Params}
    (h : w.performInvokeInto manager operation inputs outputs ps = .ok p) : w.Clean p := by
  simp only [performInvokeInto, bind_eq_ok] at h
  obtain ⟨-, -, as, -, bs, -, ⟨xs, ys⟩, -, h⟩ := h
  split at h
  · rename_i hinvoke
    cases h
    exact (untouched_of_callInvokeInto hinvoke).clean _
  · cases h
    exact clean_answer w _ _

/-- **A call that fails has changed nothing**, over the host engine. -/
theorem clean_perform (hk : w.engine.kind = .host) (running : List ManagerId) {c : Command}
    (hc : c.Acquires) : w.Clean (w.perform running c) := by
  rw [World.perform]
  cases ha : w.attempt running c with
  | error f => exact (Untouched.refl w).clean f
  | ok p =>
      cases c with
      | attach manager key resource displaced => exact clean_performAttach ha
      | attachArray manager array => exact clean_performAttachArray ha
      | allocate manager name allocation check => exact clean_performAllocate hk ha
      | invoke manager operation inputs ps name => exact clean_performInvoke hk ha
      | invokeInto manager operation inputs outputs ps => exact clean_performInvokeInto ha
      | _ => exact hc.elim

end Calls

end World

namespace Machine

variable {order : VisitOrder} {s : Machine} {i : Nat} {id : ThreadId} {c : Command}
  {below : Stack .reply}

/-- **Failed calls change nothing.**  Over the host engine, in every state that can come up and
for every manager, a call by which the manager takes something or has something made or
written is answered in one step of its thread; no other thread takes part.  If the answer is a
failure, the managers with what they own, the registry, the marks of the arrays and the engine
with its buffers and counters are what they were. -/
theorem failed_call_untouched (hs : Reachable order .host s)
    (hi : s.threads[i]? = some ⟨id, .perform c below⟩) (hc : c.Acquires) :
    ∃ w reply, s.stepAt order i = some ⟨w, s.threads.set i ⟨id, .reply reply below⟩⟩ ∧
      ∀ f, reply = .fault f → s.world.Untouched w := by
  have hfresh : EngineKind.Fresh .host := trivial
  have hk : s.world.engine.kind = .host := (hs.accounted hfresh).kind
  obtain ⟨w, reply, hp, huntouched⟩ := World.clean_perform hk s.running hc
  refine ⟨w, reply, ?_, huntouched⟩
  simp only [stepAt, hi, Thread.step, Thread.perform, hp, List.append_nil]

/-- An array is about to be copied into one that is longer. -/
def mismatching : Machine :=
  session
    [(.base "p" none, 1), (.allocate "p" "a" (.zeros ⟨[2]⟩ none) none, 1),
      (.allocate "p" "b" (.ones ⟨[3]⟩ none) none, 1), (.invokeInto "p" "copy" ["a"] ["b"] [], 0)]

/-- The engine finds out when the copy is already there, and writes nothing. -/
theorem failed_call_untouched_mismatch :
    mismatching.threads[0]? = some ⟨⟨0⟩, .perform (.invokeInto "p" "copy" ["a"] ["b"] []) .top⟩ ∧
    ∃ w, mismatching.stepAt .byAge 0 = some ⟨w, mismatching.threads.set 0 ⟨⟨0⟩,
        .reply (.fault (.manager (.engine (.invalidArgument
          (.outputMismatch ⟨[3]⟩ .float32 ⟨[2]⟩ .float32))))) .top⟩⟩ ∧
      mismatching.world.Untouched w := by
  have hs : Reachable .byAge .host mismatching := reachable_replay .byAge _ _ _ _
  have hi : mismatching.threads[0]? =
    some ⟨⟨0⟩, .perform (.invokeInto "p" "copy" ["a"] ["b"] []) .top⟩ := rfl
  obtain ⟨w, reply, hstep, huntouched⟩ := failed_call_untouched hs hi trivial
  have hreply : reply = .fault (.manager (.engine (.invalidArgument
      (.outputMismatch ⟨[3]⟩ .float32 ⟨[2]⟩ .float32)))) := by
    have hthread : (mismatching.stepAt .byAge 0).bind (fun t => (t.threads[0]?).bind Thread.reply?) =
        some (.fault (.manager (.engine (.invalidArgument
          (.outputMismatch ⟨[3]⟩ .float32 ⟨[2]⟩ .float32))))) := by rfl
    rw [hstep] at hthread
    exact Option.some.inj hthread
  subst hreply
  exact ⟨hi, w, hstep, huntouched _ rfl⟩

end Machine

end ArrayLifetimes
