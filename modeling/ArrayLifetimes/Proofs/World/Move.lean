/-
Everything that can happen to a world but the two ends of a close.

Whatever a command does, and whatever a thread does between two commands, is a chain of
moves out of a short list.  An invariant of worlds is proved move by move, and nowhere
else does a proof have to go through the commands.

A move also says what becomes of arrays that the engine has made and that no manager has
adopted yet.  They are listed beside the world: an answer of the engine adds to them, and
each of them is adopted, or lost, in its turn.

What goes on the agenda of the world, in a release hook or as a callback, has a property
`P` that the moves are about.
-/
import Mathlib.Logic.Relation
import ArrayLifetimes.Proofs.World.Ownership

namespace ArrayLifetimes

/-- The call that managers made to the engine, if the entry tells of one. -/
def Entry.core? : Entry → Option EngineCall
  | call .managers c => some c
  | _ => none

/-- The handles that a call mentions. -/
def EngineCall.handles : EngineCall → List Handle
  | create _ => []
  | release x | read x => [x]
  | invoke _ inputs _ => inputs
  | invokeInto _ inputs outputs _ => inputs ++ outputs

namespace World

/-- The calls that managers made to the engine, the latest first. -/
def coreCalls (w : World) : List EngineCall := w.journal.filterMap Entry.core?

/-- The handle of an array that is not released. -/
def Live (w : World) (x : Handle) : Prop :=
  ∃ a r, w.array? a = some r ∧ r.handle = x ∧ r.released = false

/-- The engine got a call, and nothing but it and the journal has changed. -/
structure Heard (w : World) (caller : Caller) (c : EngineCall) (v : World) : Prop where
  managers : v.managers = w.managers
  arrays : v.arrays = w.arrays
  hooks : v.hooks = w.hooks
  client : v.client = w.client
  roots : v.roots = w.roots
  threads : v.threads = w.threads
  coreCalls : v.coreCalls = (if caller = .managers then [c] else []) ++ w.coreCalls
  kind : v.engine.kind = w.engine.kind
  calls : v.engine.calls = c :: w.engine.calls
  afterCreate : v.engine.afterCreate = w.engine.afterCreate
  afterInvoke : v.engine.afterInvoke = w.engine.afterInvoke

inductive Move (P : List Command → Prop) :
    World × List NativeArray → World × List NativeArray → Prop
  /-- The journal takes note of something that is no call of a manager. -/
  | noted (w ns) (e : Entry) (h : e.core? = none) : Move P (w, ns) (w.record e, ns)
  /-- The client's names change. -/
  | named (w ns) (c : Client) (h : c.Within w) : Move P (w, ns) ({ w with client := c }, ns)
  /-- Shutdowns come and go, and the registry may let go of roots. -/
  | rooted (w ns) (registered : Bool) (shutdowns : Nat) (roots : List ManagerId)
      (h : roots ⊆ w.roots) :
      Move P (w, ns) ({ w with registered, shutdowns, roots }, ns)
  | thread (w ns) : Move P (w, ns) (w.newThread.1, ns)
  | base (w ns) (d : Device) : Move P (w, ns) ((w.newBase d).1, ns)
  | sub (w v ns) (p : ManagerId) (d : Option Device) (c : ManagerId)
      (h : w.newSub p d = .ok (v, c)) : Move P (w, ns) (v, ns)
  | attach (w v ns) (m : ManagerId) (key : Label) (x : Resource) (old : Option Resource)
      (hx : w.Has x) (h : w.attach m key x = .ok (v, old)) : Move P (w, ns) (v, ns)
  | detach (w ns) (m : ManagerId) (key : Label) : Move P (w, ns) ((w.detach m key).1, ns)
  | detachSub (w ns) (m c : ManagerId) : Move P (w, ns) ((w.detachSub m c).1, ns)
  /-- A release hook is made. -/
  | hook (w ns) (label : String) (work : HookWork) (h : P work.commands) :
      Move P (w, ns) ((w.addHook ⟨label, some work⟩).1, ns)
  /-- The work of a release hook is taken out of it. -/
  | spent (w ns) (h : HookId) : Move P (w, ns) (w.takeHook h, ns)
  /-- The engine is told of faults to have, or of commands to run. -/
  | armed (w ns) (e : Engine) (hk : e.kind = w.engine.kind) (hh : e.host = w.engine.host)
      (hc : e.calls = w.engine.calls)
      (hac : ∀ c, e.afterCreate = some c → w.engine.afterCreate = some c ∨ P c.commands)
      (hai : ∀ c, e.afterInvoke = some c → w.engine.afterInvoke = some c ∨ P c.commands) :
      Move P (w, ns) ({ w with engine := e }, ns)
  | releaseArray (w ns) (a : ArrayId) : Move P (w, ns) ((w.releaseArray a).1, ns)
  /-- The client asks the engine to free an array. -/
  | release (w ns) (x : Handle) : Move P (w, ns) ((w.callRelease .client x).1, ns)
  | read (w ns) (caller : Caller) (x : Handle) (h : caller = .managers → w.Live x) :
      Move P (w, ns) ((w.callRead caller x).1, ns)
  | create (w v ns) (caller : Caller) (r : AllocationRequest) (n : NativeArray)
      (h : w.callCreate caller r = (v, .ok n)) : Move P (w, ns) (v, n :: ns)
  | notCreated (w v ns) (caller : Caller) (r : AllocationRequest) (f : EngineFault)
      (h : w.callCreate caller r = (v, .error f)) : Move P (w, ns) (v, ns)
  | invoke (w v ns) (caller : Caller) (operation : String) (inputs : List Handle) (ps : Params)
      (made : List NativeArray) (hx : caller = .managers → ∀ x ∈ inputs, w.Live x)
      (h : w.callInvoke caller operation inputs ps = (v, .ok made)) :
      Move P (w, ns) (v, made ++ ns)
  | notInvoked (w v ns) (caller : Caller) (operation : String) (inputs : List Handle)
      (ps : Params) (f : EngineFault) (hx : caller = .managers → ∀ x ∈ inputs, w.Live x)
      (h : w.callInvoke caller operation inputs ps = (v, .error f)) : Move P (w, ns) (v, ns)
  | invokeInto (w ns) (caller : Caller) (operation : String) (inputs outputs : List Handle)
      (ps : Params) (hx : caller = .managers → ∀ x ∈ inputs ++ outputs, w.Live x) :
      Move P (w, ns) ((w.callInvokeInto caller operation inputs outputs ps).1, ns)
  | adopt (w n ns) : Move P (w, n :: ns) ((w.adopt n).1, ns)
  /-- A manager takes an array that has been adopted for it. -/
  | hold (w ns) (m : ManagerId) (r : Manager) (a : ArrayId) (h : w.openManager m = .ok r)
      (ha : w.Has (.array a)) :
      Move P (w, ns) (w.modifyManager m fun r =>
        { r with resources := r.resources.insert (.array a) (.array a) }, ns)
  /-- Nobody will adopt an array. -/
  | lost (w n ns) : Move P (w, n :: ns) (w, ns)

/-- A chain of moves. -/
abbrev Moves (P : List Command → Prop) :
    World × List NativeArray → World × List NativeArray → Prop :=
  Relation.ReflTransGen (Move P)

/-! ### Calls to the engine -/

section Calls

variable {w : World} {caller : Caller}

theorem noteAllocated_eq (w : World) (ns : List NativeArray) :
    w.noteAllocated ns = { w with
      journal := (ns.map fun n => Entry.event (.bufferAllocated n.handle n.shape)).reverse
        ++ w.journal } := by
  unfold noteAllocated
  induction ns generalizing w with
  | nil => simp
  | cons n ns ih =>
      rw [List.foldl_cons, ih]
      simp [note, record]

theorem coreCalls_noteAllocated (w : World) (ns : List NativeArray) :
    (w.noteAllocated ns).coreCalls = w.coreCalls := by
  rw [noteAllocated_eq]
  simp [coreCalls, List.filterMap_append, List.filterMap_eq_nil_iff, Entry.core?]

theorem coreCalls_tell (w : World) (caller : Caller) (c : EngineCall) :
    (w.tell caller c).coreCalls = (if caller = .managers then [c] else []) ++ w.coreCalls := by
  cases caller <;> rfl

theorem heard_callCreate (r : AllocationRequest) :
    w.Heard caller (.create r) (w.callCreate caller r).1 := by
  have hc := coreCalls_tell w caller (.create r)
  have ha := agenda_callCreate w caller r
  simp only [agenda, Agenda.mk.injEq] at ha
  have hk : ((w.tell caller (.create r)).engine.create r).1.kind = w.engine.kind ∧
      ((w.tell caller (.create r)).engine.create r).1.calls = .create r :: w.engine.calls := by
    unfold Engine.create Engine.createHosted
    split
    · exact ⟨rfl, rfl⟩
    · split
      · exact ⟨rfl, rfl⟩
      · split <;> exact ⟨rfl, rfl⟩
  refine ⟨?_, ?_, ?_, ?_, ?_, ?_, ?_, ?_, ?_, ha.2.1, ha.2.2⟩ <;> unfold callCreate <;>
    simp only <;> split <;> rename_i h <;> simp only [h] at hk <;>
    first | rfl | exact hk.1 | exact hk.2 | exact hc

theorem heard_of_callCreate {v : World} {r : AllocationRequest}
    {answer : Except EngineFault NativeArray} (h : w.callCreate caller r = (v, answer)) :
    w.Heard caller (.create r) v := by
  have hv : (w.callCreate caller r).1 = v := by rw [h]
  rw [← hv]
  exact heard_callCreate r

theorem heard_callRelease (x : Handle) :
    w.Heard caller (.release x) (w.callRelease caller x).1 := by
  have hc := coreCalls_tell w caller (.release x)
  have ha := agenda_callRelease w caller x
  simp only [agenda, Agenda.mk.injEq] at ha
  have hk : ((w.tell caller (.release x)).engine.release x).1.kind = w.engine.kind ∧
      ((w.tell caller (.release x)).engine.release x).1.calls = .release x :: w.engine.calls := by
    unfold Engine.release Engine.releaseHosted
    split
    · exact ⟨rfl, rfl⟩
    · split
      · exact ⟨rfl, rfl⟩
      · split
        · exact ⟨rfl, rfl⟩
        · split <;> exact ⟨rfl, rfl⟩
  refine ⟨?_, ?_, ?_, ?_, ?_, ?_, ?_, ?_, ?_, ha.2.1, ha.2.2⟩ <;> unfold callRelease <;>
    simp only <;> split <;> rename_i h <;> simp only [h] at hk <;>
    first | rfl | exact hk.1 | exact hk.2 | exact hc

theorem heard_callRead (x : Handle) : w.Heard caller (.read x) (w.callRead caller x).1 :=
  ⟨rfl, rfl, rfl, rfl, rfl, rfl, coreCalls_tell w caller _, rfl, rfl, rfl, rfl⟩

theorem heard_callInvoke (operation : String) (inputs : List Handle) (ps : Params) :
    w.Heard caller (.invoke operation inputs ps) (w.callInvoke caller operation inputs ps).1 := by
  have hc := coreCalls_tell w caller (.invoke operation inputs ps)
  unfold callInvoke
  simp only
  split
  · rename_i g natives h
    have hg := eq_of_invoke h
    refine ⟨?_, ?_, ?_, ?_, ?_, ?_, ?_, ?_, ?_, ?_, ?_⟩
    case refine_7 =>
      rw [coreCalls_noteAllocated]
      exact hc
    all_goals
      rw [noteAllocated_eq]
      first | rfl | (rw [hg]; rfl)
  · exact ⟨rfl, rfl, rfl, rfl, rfl, rfl, hc, rfl, rfl, rfl, rfl⟩

theorem heard_of_callInvoke {v : World} {operation : String} {inputs : List Handle} {ps : Params}
    {answer : Except EngineFault (List NativeArray)}
    (h : w.callInvoke caller operation inputs ps = (v, answer)) :
    w.Heard caller (.invoke operation inputs ps) v := by
  have hv : (w.callInvoke caller operation inputs ps).1 = v := by rw [h]
  rw [← hv]
  exact heard_callInvoke operation inputs ps

theorem heard_callInvokeInto (operation : String) (inputs outputs : List Handle) (ps : Params) :
    w.Heard caller (.invokeInto operation inputs outputs ps)
      (w.callInvokeInto caller operation inputs outputs ps).1 := by
  have hc := coreCalls_tell w caller (.invokeInto operation inputs outputs ps)
  unfold callInvokeInto
  simp only
  split
  · rename_i g h
    have hg := eq_of_invokeInto h
    refine ⟨rfl, rfl, rfl, rfl, rfl, rfl, hc, ?_, ?_, ?_, ?_⟩ <;>
      first | rfl | (rw [hg]; rfl)
  · exact ⟨rfl, rfl, rfl, rfl, rfl, rfl, hc, rfl, rfl, rfl, rfl⟩

end Calls

end World

end ArrayLifetimes
