/-
A thread has a manager make an array.

Over the host engine one step of the thread is enough, and it gives the reply.  The array is a
new one, known by the name that was asked for, or the reply says what was wrong: the
description of the array, or what the engine was to fill it with.
-/
import ArrayLifetimes.Proofs.Machine.Answers
import ArrayLifetimes.Proofs.World.Making

namespace ArrayLifetimes

namespace Machine

/-- A thread is about to ask an open manager for an array. -/
structure Making (s : Machine) (i : Nat) (m : ManagerId) (name : Name) (allocation : Allocation)
    (below : Stack .reply) : Prop where
  opened : s.world.lifecycle? m = some .opened
  thread : ∃ id manager check, s.world.managerNamed manager = .ok m ∧
    s.threads[i]? = some ⟨id, .perform (.allocate manager name allocation check) below⟩

/-- There is a new array by the name, with these elements. -/
structure Gains (s s' : Machine) (name : Name) (shape : Shape) (t : DataType) (xs : List Element)
    (a : ArrayId) (r : ArrayRecord) : Prop where
  fresh : ¬ s.world.Has (.array a)
  named : s'.world.arrayNamed name = .ok a
  record : s'.world.array? a = some r
  shape : r.shape = shape
  dataType : r.dataType = t
  elements : (s'.world.arrayElements a none).2 = .ok xs

/-- An open manager asks the engine for what an allocation comes to. -/
def Asking (s : Machine) (m : ManagerId) (allocation : Allocation) (q : AllocationRequest) : Prop :=
  ∃ owner d, s.world.openManager m = .ok owner ∧ allocation.descriptor = .ok d ∧
    d.resolve owner.device s.world.config.defaultDataType = q

variable {order : VisitOrder} {s : Machine} {i : Nat} {m : ManagerId} {name : Name}
  {allocation : Allocation} {below : Stack .reply}

/-- A command that is done at once gives its reply in the step in which it is performed. -/
theorem exists_stepAt_of_perform (order : VisitOrder) {id : ThreadId} {c : Command} {v : World}
    {reply : Reply} (hi : s.threads[i]? = some ⟨id, .perform c below⟩)
    (hp : s.world.perform s.running c = (v, .reply reply)) :
    ∃ s', s.stepAt order i = some s' ∧ s'.world = v ∧ s'.Replied i below reply := by
  have hlt := (List.getElem?_eq_some_iff.mp hi).1
  refine ⟨⟨v, s.threads.set i ⟨id, .reply reply below⟩⟩, ?_, rfl, id, List.getElem?_set_self hlt⟩
  simp only [stepAt, hi, Thread.step, Thread.perform, hp, List.append_nil]

namespace Making

/-- **A description that is wrong is refused.** -/
theorem mistaken (order : VisitOrder) (hst : s.Making i m name allocation below) {f : ArgumentFault}
    (hd : allocation.descriptor = .error f) :
    ∃ s', s.stepAt order i = some s' ∧
      s'.Replied i below (.fault (.manager (.invalidArgument f))) := by
  obtain ⟨id, manager, check, hm, hi⟩ := hst.thread
  obtain ⟨s', hstep, -, hreplied⟩ := exists_stepAt_of_perform order hi
    (World.perform_allocate_mistaken s.running name check hm hd)
  exact ⟨s', hstep, hreplied⟩

variable {shape : Shape} {t : DataType} {fill : Fill} {n : Nat}

/-- **What the engine refuses to fill is refused.** -/
theorem refused (hs : Reachable order .host s) (hst : s.Making i m name allocation below)
    (hd : allocation.descriptor = .ok ⟨shape, some t, none, fill⟩) (hl : shape.byteLen t = some n)
    (hle : n ≤ Host.addressSpace) {f : EngineFault}
    (hrun : ∀ draws position, fill.run draws position shape t n = .error f) :
    ∃ s', s.stepAt order i = some s' ∧ s'.Replied i below (.fault f.toFault) := by
  obtain ⟨id, manager, check, hm, hi⟩ := hst.thread
  obtain ⟨owner, ho⟩ := World.lifecycle?_eq_some.mp hst.opened
  have hfill : s.world.engine.host.fill ⟨shape, t, owner.device, fill⟩ = .error f := by
    simp only [Host.fill, hl, if_neg (Nat.not_lt.mpr hle), hrun]
  obtain ⟨v, hv⟩ := World.perform_allocate_refused s.running name check hs.engineKind hm
    (World.openManager_eq_ok.mpr ho) hd rfl hl hfill
  obtain ⟨s', hstep, -, hreplied⟩ := exists_stepAt_of_perform order hi hv
  exact ⟨s', hstep, hreplied⟩

/-- **What the engine fills with elements becomes an array with these elements.** -/
theorem filled_of_run (hs : Reachable order .host s) (hst : s.Making i m name allocation below)
    (hd : allocation.descriptor = .ok ⟨shape, some t, none, fill⟩) (hl : shape.byteLen t = some n)
    (hle : n ≤ Host.addressSpace) {xs : List Element} {drawn : Nat}
    (hx : ∀ x ∈ xs, x.dataType = t)
    (hrun : fill.run s.world.engine.host.draws s.world.engine.host.drawn shape t n =
      .ok ⟨encodeElements xs, drawn⟩) :
    ∃ s' answer a r, s.stepAt order i = some s' ∧ s'.Replied i below (.answer answer) ∧
      Gains s s' name shape t xs a r := by
  obtain ⟨id, manager, check, hm, hi⟩ := hst.thread
  obtain ⟨owner, ho⟩ := World.lifecycle?_eq_some.mp hst.opened
  have hfill : s.world.engine.host.fill ⟨shape, t, owner.device, fill⟩ =
      .ok ⟨encodeElements xs, drawn⟩ := by
    simp only [Host.fill, hl, if_neg (Nat.not_lt.mpr hle), hrun]
  obtain ⟨v, r, contents, hv, hstored, hshape, htype, hname⟩ := World.perform_allocate_filled
    s.running name check hs.engineKind hm (World.openManager_eq_ok.mpr ho) hd rfl hfill rfl hx
  obtain ⟨s', hstep, rfl, hreplied⟩ := exists_stepAt_of_perform order hi hv
  have hkind : s'.world.engine.kind = .host := (hs.leads (.single (.step i hstep))).engineKind
  have helements := World.arrayElements_of_bytes none hstored.record rfl
    (fun x hmem => (hx x hmem).trans htype.symm) (hstored.arrayBytes hkind)
  exact ⟨s', _, _, r, hstep, hreplied, Nat.lt_irrefl _, hname, hstored.record, hshape, htype,
    helements⟩

/-- What is filled without draws is filled with the same elements every time. -/
theorem filled (hs : Reachable order .host s) (hst : s.Making i m name allocation below)
    (hd : allocation.descriptor = .ok ⟨shape, some t, none, fill⟩) (hl : shape.byteLen t = some n)
    (hle : n ≤ Host.addressSpace) {xs : List Element} {drawn : Nat}
    (hx : ∀ x ∈ xs, x.dataType = t)
    (hrun : ∀ draws position,
      fill.run draws position shape t n = .ok ⟨encodeElements xs, drawn⟩) :
    ∃ s' answer a r, s.stepAt order i = some s' ∧ s'.Replied i below (.answer answer) ∧
      Gains s s' name shape t xs a r :=
  hst.filled_of_run hs hd hl hle hx (hrun _ _)

/-- **A panic of the engine is the only one.** -/
theorem exists_reply (hs : Reachable order .host s) (hst : s.Making i m name allocation below) :
    ∃ s' reply, s.stepAt order i = some s' ∧ s'.Replied i below reply ∧
      ∀ p, reply = .fault (.panic p) ↔
        ∃ q, s.Asking m allocation q ∧ s.world.engine.host.fill q = .error (.panic p) := by
  cases hd : allocation.descriptor with
  | error f =>
      obtain ⟨s', hstep, hreplied⟩ := hst.mistaken order hd
      refine ⟨s', _, hstep, hreplied, fun p => iff_of_false (fun h => by cases h) ?_⟩
      rintro ⟨q, ⟨owner, d, -, hd', -⟩, -⟩
      rw [hd] at hd'
      cases hd'
  | ok d =>
      obtain ⟨id, manager, check, hm, hi⟩ := hst.thread
      obtain ⟨owner, ho⟩ := World.lifecycle?_eq_some.mp hst.opened
      have hopen := World.openManager_eq_ok.mpr ho
      let q := d.resolve owner.device s.world.config.defaultDataType
      have hasking : ∀ r, s.Asking m allocation r ↔ r = q := by
        intro r
        constructor
        · rintro ⟨owner', d', ho', hd', rfl⟩
          rw [hopen] at ho'
          rw [hd] at hd'
          cases ho'
          cases hd'
          rfl
        · rintro rfl
          exact ⟨owner, d, hopen, hd, rfl⟩
      simp only [hasking, exists_eq_left]
      cases hf : s.world.engine.host.fill q with
      | ok filled =>
          obtain ⟨v, answer, hv⟩ := World.exists_answer_of_fill s.running name check hs.engineKind hm
            hopen hd rfl hf
          obtain ⟨s', hstep, -, hreplied⟩ := exists_stepAt_of_perform order hi hv
          exact ⟨s', _, hstep, hreplied, fun p => by simp⟩
      | error f =>
          cases hl : q.shape.byteLen q.dataType with
          | none =>
              obtain ⟨s', hstep, -, hreplied⟩ := exists_stepAt_of_perform order hi
                (World.perform_allocate_oversized s.running name check hm hopen hd rfl hl)
              refine ⟨s', _, hstep, hreplied, fun p => iff_of_false (fun h => by cases h) fun h => ?_⟩
              simp only [Host.fill, hl] at hf
              cases hf
              cases h
          | some n =>
              obtain ⟨v, hv⟩ := World.perform_allocate_refused s.running name check hs.engineKind hm
                hopen hd rfl hl hf
              obtain ⟨s', hstep, -, hreplied⟩ := exists_stepAt_of_perform order hi hv
              refine ⟨s', _, hstep, hreplied, fun p => ?_⟩
              cases f <;> simp [EngineFault.toFault]

/-- **What is granted has passed every check.** -/
theorem exists_fill_of_answer (hs : Reachable order .host s)
    (hst : s.Making i m name allocation below) {s' : Machine} (hstep : s.stepAt order i = some s')
    {answer : Answer} (h : s'.Replied i below (.answer answer)) :
    ∃ owner d filled, s.world.openManager m = .ok owner ∧ allocation.descriptor = .ok d ∧
      s.world.engine.host.fill (d.resolve owner.device s.world.config.defaultDataType) =
        .ok filled := by
  obtain ⟨id, manager, check, hm, hi⟩ := hst.thread
  obtain ⟨v, reply, hp⟩ := World.exists_reply_allocate (w := s.world) s.running name check
    hs.engineKind manager allocation
  obtain ⟨s'', hstep', -, hreplied⟩ := exists_stepAt_of_perform order hi hp
  obtain rfl : s' = s'' := Option.some.inj (hstep.symm.trans hstep')
  obtain rfl : reply = .answer answer := hreplied.unique h
  exact World.exists_fill_of_perform_allocate s.running name check hs.engineKind hm hp

end Making

end Machine

end ArrayLifetimes
