/-
Arrays that are made over the host engine.

A request goes from the manager to the engine, which fills a buffer, and the array that the engine
gives back is attached to the manager.  The plain host engine calls nobody in between, so
all of this is one step, in which the manager stays open.  What is left to know is whether
the description of the array is right and what the buffer is filled with: if the engine
fills it with elements, the new array has these elements, and otherwise its fault
is the answer.
-/
import ArrayLifetimes.Proofs.Engine.Encoding
import ArrayLifetimes.Proofs.World.Contents
import ArrayLifetimes.Proofs.World.Outputs

namespace ArrayLifetimes

namespace Host

variable {h : Host} {q : AllocationRequest}

theorem read_insert (h : Host) (b : Buffer) :
    (h.insert b).1.read (h.insert b).2.handle = .ok b.bytes := by
  simp only [read, insert, Keyed.get?_insert, if_true]

/-- The host fills what it has the address space for. -/
theorem fill_eq_ok {filled : Fill.Result} :
    h.fill q = .ok filled ↔ ∃ n, q.shape.byteLen q.dataType = some n ∧ n ≤ addressSpace ∧
      q.fill.run h.draws h.drawn q.shape q.dataType n = .ok filled := by
  cases hl : q.shape.byteLen q.dataType with
  | none => simp [fill, hl]
  | some n =>
      by_cases hle : n ≤ addressSpace
      · simp [fill, hl, Nat.not_lt.mpr hle, hle]
      · simp [fill, hl, Nat.not_le.mp hle, hle]

/-- What a buffer is filled with is read. -/
theorem exists_create_of_fill {filled : Fill.Result} (hf : h.fill q = .ok filled) :
    ∃ p, h.create q = .ok p ∧ p.1.read p.2.handle = .ok filled.bytes ∧ p.2.shape = q.shape ∧
      p.2.dataType = q.dataType := by
  simp only [create, hf]
  exact ⟨_, rfl, read_insert _ _, rfl, rfl⟩

theorem create_of_fill_error {f : EngineFault} (hf : h.fill q = .error f) :
    h.create q = .error f := by
  simp only [create, hf]

end Host

namespace World

variable {w v : World} {m : ManagerId} {a : ArrayId} {r : ArrayRecord} {xs : List Element}

/-- The array holds the elements. -/
structure Stored (w : World) (a : ArrayId) (r : ArrayRecord) (xs : List Element) : Prop where
  record : w.array? a = some r
  unreleased : r.released = false
  read : w.engine.host.read r.handle = .ok (encodeElements xs)

theorem Stored.arrayBytes (hs : w.Stored a r xs) (hk : w.engine.kind = .host) :
    (w.arrayBytes a).2 = .ok (encodeElements xs) := by
  have hlive : w.liveArray a = .ok r := by
    simp only [liveArray, hs.record, hs.unreleased, Bool.false_eq_true, if_false]
  rw [arrayBytes_of_live hk hlive, hs.read]
  rfl

/-- The bytes of elements are read as these elements. -/
theorem arrayElements_of_bytes (asked : Option DataType) (hr : w.array? a = some r)
    (ha : asked.getD r.dataType = r.dataType) (hx : ∀ x ∈ xs, x.dataType = r.dataType)
    (hb : (w.arrayBytes a).2 = .ok (encodeElements xs)) :
    (w.arrayElements a asked).2 = .ok xs := by
  simp only [arrayElements, hr, ha, ne_eq, not_true_eq_false, if_false, hb, Except.map,
    decodeElements_encodeElements hx]

theorem callCreate_host (hk : w.engine.kind = .host) {q : AllocationRequest}
    {p : Host × NativeArray} (hc : w.engine.host.create q = .ok p) (caller : Caller) :
    ∃ v, w.callCreate caller q = (v, .ok p.2) ∧ v.engine.kind = .host ∧ v.engine.host = p.1 ∧
      v.arrays = w.arrays ∧ v.managers = w.managers := by
  have hh : (w.tell caller (.create q)).engine.kind = .host := hk
  have hq : (w.tell caller (.create q)).engine.host.create q = .ok (p.1, p.2) := hc
  simp only [callCreate, Engine.create, hh, Engine.createHosted, Engine.dueError, Engine.isPlain,
    if_true, hq]
  exact ⟨_, rfl, rfl, rfl, rfl, rfl⟩

theorem callCreate_host_error (hk : w.engine.kind = .host) {q : AllocationRequest}
    {f : EngineFault} (hc : w.engine.host.create q = .error f) (caller : Caller) :
    ∃ v, w.callCreate caller q = (v, .error f) := by
  have hh : (w.tell caller (.create q)).engine.kind = .host := hk
  have hq : (w.tell caller (.create q)).engine.host.create q = .error f := hc
  simp only [callCreate, Engine.create, hh, Engine.createHosted, Engine.dueError, Engine.isPlain,
    if_true, hq]
  exact ⟨_, rfl⟩

theorem afterCreate_host (hk : w.engine.kind = .host) (next : AfterCallback) :
    w.afterCreate next = ((w.proceed next).1, .reply (w.proceed next).2) := by
  simp only [afterCreate, Engine.dueAfterCreate, Engine.isPlain, hk, if_true]

/-- Reading an array changes nothing but the journal and what the engine has heard. -/
theorem eq_of_arrayElements (w : World) (a : ArrayId) (asked : Option DataType) :
    (w.arrayElements a asked).1.arrays = w.arrays ∧
      (w.arrayElements a asked).1.client = w.client ∧
      (w.arrayElements a asked).1.engine.host = w.engine.host := by
  unfold arrayElements
  split
  · exact ⟨rfl, rfl, rfl⟩
  · simp only
    split
    · exact ⟨rfl, rfl, rfl⟩
    · unfold World.arrayBytes
      split <;> exact ⟨rfl, rfl, rfl⟩

theorem shownArray_of_elements (hr : w.array? a = some r)
    (hx : (w.arrayElements a none).2 = .ok xs) (check : Option Check) :
    ∃ contents, w.shownArray a check =
      ((w.arrayElements a none).1, .answer (.array r (some contents))) := by
  have hpair : w.arrayElements a none = ((w.arrayElements a none).1, .ok xs) := by rw [← hx]
  rw [shownArray, hr, hpair]
  exact ⟨_, rfl⟩

/-- The engine has a buffer for the array. -/
def Readable (w : World) (n : NativeArray) : Prop := ∃ bytes, w.engine.host.read n.handle = .ok bytes

/-- A manager takes an array that the engine has a buffer for, and the array can be read. -/
theorem exists_elements_of_track (hk : w.engine.kind = .host) {owner : Manager}
    (ho : w.openManager m = .ok owner) {n : NativeArray} (hn : w.Readable n) :
    ∃ v a, w.track m n = (v, .ok a) ∧ ∀ u : World, u.arrays = v.arrays → u.engine = v.engine →
      ∃ r xs, u.array? a = some r ∧ (u.arrayElements a none).2 = .ok xs := by
  obtain ⟨bytes, hbytes⟩ := hn
  refine ⟨_, ⟨w.arrays.size⟩, track_of_open ho n, ?_⟩
  intro u harrays hengine
  let r : ArrayRecord :=
    { handle := n.handle, shape := n.shape, dataType := n.dataType, device := n.device }
  have hr : u.array? ⟨w.arrays.size⟩ = some r := by
    rw [array?, harrays]
    exact Array.getElem?_push_size
  have hkind : u.engine.kind = .host := by
    rw [hengine]
    exact hk
  have hlive : u.liveArray ⟨w.arrays.size⟩ = .ok r := by
    rw [liveArray, hr]
    rfl
  have hread : u.engine.host.read r.handle = .ok bytes := by
    rw [hengine]
    exact hbytes
  have hb : (u.arrayBytes ⟨w.arrays.size⟩).2 = .ok bytes := by
    rw [arrayBytes_of_live hkind hlive, hread]
    rfl
  refine ⟨r, decodeElements r.dataType bytes, hr, ?_⟩
  simp only [arrayElements, hr, Option.getD_none, ne_eq, not_true_eq_false, if_false, hb]
  rfl

theorem exists_answer_of_track (hk : w.engine.kind = .host) {owner : Manager}
    (ho : w.openManager m = .ok owner) {n : NativeArray} (hn : w.Readable n) (name : Name)
    (check : Option Check) :
    ∃ v answer, w.proceed (.track m n name check) = (v, .answer answer) := by
  obtain ⟨u, a, hu, hshown⟩ := exists_elements_of_track hk ho hn
  obtain ⟨r, xs, hr, hx⟩ := hshown (u.nameArray name a) rfl rfl
  obtain ⟨contents, hc⟩ := shownArray_of_elements hr hx check
  have hproceed : w.proceed (.track m n name check) = (u.nameArray name a).shownArray a check := by
    simp only [proceed, hu]
  exact ⟨_, _, hproceed.trans hc⟩

/-- **A new array that the manager takes holds what the engine has put into it.** -/
theorem proceed_track_host (hk : w.engine.kind = .host) {owner : Manager}
    (ho : w.openManager m = .ok owner) {n : NativeArray}
    (hread : w.engine.host.read n.handle = .ok (encodeElements xs))
    (hx : ∀ x ∈ xs, x.dataType = n.dataType) (name : Name) (check : Option Check) :
    ∃ v r contents, w.proceed (.track m n name check) = (v, .answer (.array r (some contents))) ∧
      v.Stored ⟨w.arrays.size⟩ r xs ∧ r.shape = n.shape ∧ r.dataType = n.dataType ∧
      v.arrayNamed name = .ok ⟨w.arrays.size⟩ := by
  let r : ArrayRecord :=
    { handle := n.handle, shape := n.shape, dataType := n.dataType, device := n.device }
  have hopen : (w.adopt n).1.openManager m = .ok owner := ho
  have htrack : ∃ u, w.track m n = (u, .ok ⟨w.arrays.size⟩) ∧ u.engine = w.engine ∧
      u.arrays = w.arrays.push r := by
    simp only [track, hopen]
    exact ⟨_, rfl, rfl, rfl⟩
  obtain ⟨u, hu, hengine, harrays⟩ := htrack
  have hstored : (u.nameArray name ⟨w.arrays.size⟩).Stored ⟨w.arrays.size⟩ r xs := by
    refine ⟨?_, rfl, ?_⟩
    · show u.arrays[w.arrays.size]? = some r
      rw [harrays, Array.getElem?_push_size]
    · show u.engine.host.read r.handle = _
      rw [hengine]
      exact hread
  have hkind : (u.nameArray name ⟨w.arrays.size⟩).engine.kind = .host := by
    show u.engine.kind = _
    rw [hengine, hk]
  have helements := arrayElements_of_bytes none hstored.record rfl hx
    (hstored.arrayBytes hkind)
  obtain ⟨contents, hshown⟩ := shownArray_of_elements hstored.record helements check
  obtain ⟨ha, hc, hh⟩ := eq_of_arrayElements (u.nameArray name ⟨w.arrays.size⟩) ⟨w.arrays.size⟩ none
  refine ⟨_, r, contents, by simp only [proceed, hu]; exact hshown, ⟨?_, rfl, ?_⟩, rfl, rfl, ?_⟩
  · rw [array?, ha]
    exact hstored.record
  · rw [hh]
    exact hstored.read
  · rw [arrayNamed, hc]
    simp [nameArray, named]

/-! ### Allocations -/

section Allocations

variable {manager : Name} {allocation : Allocation} (running : List ManagerId) (name : Name)
  (check : Option Check)

/-- On the host engine an allocation is done at once, well or ill. -/
theorem exists_reply_allocate (hk : w.engine.kind = .host) (manager : Name)
    (allocation : Allocation) :
    ∃ v reply, w.perform running (.allocate manager name allocation check) = (v, .reply reply) := by
  have hp : w.attempt running (.allocate manager name allocation check) =
    w.performAllocate manager name allocation check := rfl
  rw [World.perform, hp]
  cases ha : w.performAllocate manager name allocation check with
  | error f => exact ⟨w, .fault f, rfl⟩
  | ok p =>
      simp only [performAllocate, bind_eq_ok] at ha
      obtain ⟨m, -, d, -, q, -, ha⟩ := ha
      split at ha <;> cases ha
      · exact ⟨_, _, rfl⟩
      · rename_i v n hv
        have hkind : v.engine.kind = .host := (heard_of_callCreate hv).kind.trans hk
        exact ⟨_, _, afterCreate_host hkind _⟩

/-- **A description that is wrong is refused**, and nothing happens. -/
theorem perform_allocate_mistaken (hm : w.managerNamed manager = .ok m) {f : ArgumentFault}
    (hd : allocation.descriptor = .error f) :
    w.perform running (.allocate manager name allocation check) =
      (w, .fault (.manager (.invalidArgument f))) := by
  simp only [World.perform, attempt, performAllocate, hm, hd, bind, Except.bind]
  rfl

variable {owner : Manager} {d : Descriptor} {n : Nat}

/-- **A fault of the engine is the answer.** -/
theorem perform_allocate_refused (hk : w.engine.kind = .host) (hm : w.managerNamed manager = .ok m)
    (ho : w.openManager m = .ok owner) (hd : allocation.descriptor = .ok d) {q : AllocationRequest}
    (hq : d.resolve owner.device w.config.defaultDataType = q)
    (hl : q.shape.byteLen q.dataType = some n) {f : EngineFault}
    (hf : w.engine.host.fill q = .error f) :
    ∃ v, w.perform running (.allocate manager name allocation check) = (v, .fault f.toFault) := by
  obtain ⟨v, hv⟩ := callCreate_host_error hk (Host.create_of_fill_error hf) .managers
  simp only [World.perform, attempt, performAllocate, hm, hd, requestFor, ho, hq, hl,
    Option.isNone_some, Bool.false_eq_true, if_false, bind, Except.bind, pure, Except.pure,
    mapError_ok, hv]
  exact ⟨_, rfl⟩

/-- A size that is beyond every memory is refused before the engine is asked. -/
theorem perform_allocate_oversized (hm : w.managerNamed manager = .ok m)
    (ho : w.openManager m = .ok owner) (hd : allocation.descriptor = .ok d) {q : AllocationRequest}
    (hq : d.resolve owner.device w.config.defaultDataType = q)
    (hl : q.shape.byteLen q.dataType = none) :
    w.perform running (.allocate manager name allocation check) =
      (w, .fault (.manager (.invalidArgument (.tooLarge q.shape q.dataType)))) := by
  simp only [World.perform, attempt, performAllocate, hm, hd, requestFor, ho, hq, hl,
    Option.isNone_none, if_true, bind, Except.bind, mapError_ok]
  rfl

/-- The manager takes the array that the engine has filled. -/
theorem perform_allocate_of_fill (hk : w.engine.kind = .host) (hm : w.managerNamed manager = .ok m)
    (ho : w.openManager m = .ok owner) (hd : allocation.descriptor = .ok d) {q : AllocationRequest}
    (hq : d.resolve owner.device w.config.defaultDataType = q) {filled : Fill.Result}
    (hf : w.engine.host.fill q = .ok filled) :
    ∃ (v : World) (n : NativeArray), w.perform running (.allocate manager name allocation check) =
        ((v.proceed (.track m n name check)).1, .reply (v.proceed (.track m n name check)).2) ∧
      v.engine.kind = .host ∧ v.openManager m = .ok owner ∧ v.arrays = w.arrays ∧
      v.engine.host.read n.handle = .ok filled.bytes ∧ n.shape = q.shape ∧
      n.dataType = q.dataType := by
  obtain ⟨length, hl, -⟩ := Host.fill_eq_ok.mp hf
  obtain ⟨p, hcreate, hread, hshape, htype⟩ := Host.exists_create_of_fill hf
  obtain ⟨v, hv, hkind, hhost, harrays, hmanagers⟩ := callCreate_host hk hcreate .managers
  have hopen : v.openManager m = .ok owner := by
    rw [← ho]
    simp only [openManager, manager?, hmanagers]
  rw [← hhost] at hread
  refine ⟨v, p.2, ?_, hkind, hopen, harrays, hread, hshape, htype⟩
  simp only [World.perform, attempt, performAllocate, hm, hd, requestFor, ho, hq, hl,
    Option.isNone_some, Bool.false_eq_true, if_false, bind, Except.bind, pure, Except.pure,
    mapError_ok, hv, afterCreate_host hkind]

/-- **What the engine can fill becomes an array.** -/
theorem exists_answer_of_fill (hk : w.engine.kind = .host) (hm : w.managerNamed manager = .ok m)
    (ho : w.openManager m = .ok owner) (hd : allocation.descriptor = .ok d) {q : AllocationRequest}
    (hq : d.resolve owner.device w.config.defaultDataType = q) {filled : Fill.Result}
    (hf : w.engine.host.fill q = .ok filled) :
    ∃ v answer, w.perform running (.allocate manager name allocation check) =
      (v, .answer answer) := by
  obtain ⟨v, n, hperform, hkind, hopen, -, hread, -⟩ :=
    perform_allocate_of_fill running name check hk hm ho hd hq hf
  obtain ⟨u, answer, hu⟩ := exists_answer_of_track hkind hopen ⟨_, hread⟩ name check
  exact ⟨u, answer, by rw [hperform, hu]; rfl⟩

/-- **What the engine fills the buffer with is in the new array.** -/
theorem perform_allocate_filled (hk : w.engine.kind = .host) (hm : w.managerNamed manager = .ok m)
    (ho : w.openManager m = .ok owner) (hd : allocation.descriptor = .ok d) {q : AllocationRequest}
    (hq : d.resolve owner.device w.config.defaultDataType = q) {filled : Fill.Result}
    (hf : w.engine.host.fill q = .ok filled) (hb : filled.bytes = encodeElements xs)
    (hx : ∀ x ∈ xs, x.dataType = q.dataType) :
    ∃ v r contents, w.perform running (.allocate manager name allocation check) =
        (v, .answer (.array r (some contents))) ∧
      v.Stored ⟨w.arrays.size⟩ r xs ∧ r.shape = q.shape ∧ r.dataType = q.dataType ∧
      v.arrayNamed name = .ok ⟨w.arrays.size⟩ := by
  obtain ⟨v, n, hperform, hkind, hopen, harrays, hread, hshape, htype⟩ :=
    perform_allocate_of_fill running name check hk hm ho hd hq hf
  rw [hb] at hread
  rw [← htype] at hx
  have hproceed := proceed_track_host hkind hopen hread hx name check
  rw [harrays, hshape, htype] at hproceed
  obtain ⟨u, r, contents, hu, hmade⟩ := hproceed
  exact ⟨u, r, contents, by rw [hperform, hu]; rfl, hmade⟩

/-- **What is granted has passed every check**: the manager is open, the description is right, and
the engine can fill the buffer. -/
theorem exists_fill_of_perform_allocate (hk : w.engine.kind = .host)
    (hm : w.managerNamed manager = .ok m) {answer : Answer}
    (h : w.perform running (.allocate manager name allocation check) = (v, .answer answer)) :
    ∃ owner d filled, w.openManager m = .ok owner ∧ allocation.descriptor = .ok d ∧
      w.engine.host.fill (d.resolve owner.device w.config.defaultDataType) = .ok filled := by
  cases hd : allocation.descriptor with
  | error f =>
      rw [perform_allocate_mistaken running name check hm hd] at h
      cases h
  | ok d =>
      cases ho : w.openManager m with
      | error e =>
          simp only [World.perform, attempt, performAllocate, hm, hd, requestFor, ho, bind,
            Except.bind, mapError_ok] at h
          cases h
      | ok owner =>
          refine ⟨owner, d, ?_⟩
          cases hl : (d.resolve owner.device w.config.defaultDataType).shape.byteLen
              (d.resolve owner.device w.config.defaultDataType).dataType with
          | none =>
              rw [perform_allocate_oversized running name check hm ho hd rfl hl] at h
              cases h
          | some n =>
              cases hf : w.engine.host.fill (d.resolve owner.device w.config.defaultDataType) with
              | ok filled => exact ⟨filled, rfl, rfl, rfl⟩
              | error f =>
                  obtain ⟨u, hu⟩ := perform_allocate_refused running name check hk hm ho hd rfl hl hf
                  rw [hu] at h
                  cases h

end Allocations

end World

end ArrayLifetimes
