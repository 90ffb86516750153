/-
What is stored in an array is read back.

A client gives a slice of elements and a shape for it.  If the shape is not one of so many
elements, that is refused before anything happens.  Otherwise the elements are encoded, the engine
copies the bytes into a buffer that is just as long, and the array is read by decoding
the buffer.  So what is read are the elements, and it stays so as long as the array is not
released and nobody frees or overwrites its buffer.

The array is a new one, so nothing before matters; after it has been made only its record and
its buffer do.  `World.Recalls` is for the one, and `World.Keeps` for the other.
-/
import ArrayLifetimes.Proofs.DetachedStays
import ArrayLifetimes.Proofs.Machine.Answers
import ArrayLifetimes.Proofs.World.Making

namespace ArrayLifetimes

variable {t : DataType} {xs : List Element} {shape : Shape}

namespace Host

variable {h : Host} {d : Device} {bytes : List UInt8}

theorem fill_data (hl : shape.byteLen t = some bytes.length)
    (hle : bytes.length ≤ addressSpace) :
    h.fill ⟨shape, t, d, .data bytes⟩ = .ok ⟨bytes, 0⟩ :=
  fill_eq_ok.mpr ⟨_, hl, hle, if_pos rfl⟩

end Host

namespace World

variable {w v : World} {m : ManagerId} {a : ArrayId} {r : ArrayRecord}

/-! ### Storing a slice -/

section Slice

variable {manager : Name} (running : List ManagerId) (name : Name) (check : Option Check)

/-- **A slice of another length than the shape has is refused**, and nothing happens. -/
theorem perform_fromSlice_refused (hm : w.managerNamed manager = .ok m)
    (hs : shape.checkedSize ≠ some xs.length) :
    w.perform running (.allocate manager name (.fromSlice t xs shape) check) =
      (w, .fault (.manager (.invalidArgument (.elementCount xs.length shape)))) :=
  perform_allocate_mistaken running name check hm (if_neg hs)

/-- What is done with a slice of the right length. -/
theorem perform_fromSlice (hk : w.engine.kind = .host) (hm : w.managerNamed manager = .ok m)
    {owner : Manager} (ho : w.openManager m = .ok owner) (hx : ∀ x ∈ xs, x.dataType = t)
    (hs : shape.checkedSize = some xs.length) {n : Nat} (hl : shape.byteLen t = some n)
    (hle : n ≤ Host.addressSpace) :
    ∃ v r contents, w.perform running (.allocate manager name (.fromSlice t xs shape) check) =
        (v, .answer (.array r (some contents))) ∧
      v.Stored ⟨w.arrays.size⟩ r xs ∧ r.dataType = t ∧ v.arrayNamed name = .ok ⟨w.arrays.size⟩ := by
  have hn : n = (encodeElements xs).length := by
    obtain ⟨k, hk, rfl⟩ := Shape.exists_size_of_byteLen hl
    rw [hs, Option.some.injEq] at hk
    rw [length_encodeElements hx, hk]
  subst hn
  have hd : (Allocation.fromSlice t xs shape).descriptor =
      .ok ⟨shape, some t, none, .data (encodeElements xs)⟩ := if_pos hs
  obtain ⟨v, r, contents, hv, hstored, -, hrest⟩ := perform_allocate_filled running name check hk hm
    ho hd rfl (Host.fill_data hl hle) rfl hx
  exact ⟨v, r, contents, hv, hstored, hrest⟩

/-- What it takes for a slice to be stored. -/
theorem fits_of_perform_fromSlice (hk : w.engine.kind = .host)
    (hm : w.managerNamed manager = .ok m) {answer : Answer}
    (h : w.perform running (.allocate manager name (.fromSlice t xs shape) check) =
      (v, .answer answer)) :
    (∃ owner, w.openManager m = .ok owner) ∧ shape.checkedSize = some xs.length ∧
      ∃ n, shape.byteLen t = some n ∧ n ≤ Host.addressSpace := by
  obtain ⟨owner, d, filled, ho, hd, hf⟩ :=
    exists_fill_of_perform_allocate running name check hk hm h
  by_cases hs : shape.checkedSize = some xs.length
  · rw [Allocation.descriptor, if_pos hs] at hd
    cases hd
    obtain ⟨n, hl, hle, -⟩ := Host.fill_eq_ok.mp hf
    exact ⟨⟨owner, ho⟩, hs, n, hl, hle⟩
  · rw [Allocation.descriptor, if_neg hs] at hd
    cases hd

end Slice

/-- An array that is not released, and whose buffer nobody has spoilt, holds what it held. -/
theorem Stored.recalled (hs : w.Stored a r xs) (hr : w.Recalls v) (hk : w.Keeps r.handle v)
    (hw : w.engine.kind = .host) (hv : v.engine.kind = .host) {ns ms : List NativeArray}
    (hl : w.Ledger ns) (hl' : v.Ledger ms) (hrel : v.isReleased (.array a) = false)
    (hu : w.Unspoilt r.handle v) :
    v.array? a = some r ∧ (v.arrayBytes a).2 = .ok (encodeElements xs) := by
  have hhas : w.Has (.array a) := (Array.getElem?_eq_some_iff.mp hs.record).1
  obtain ⟨q, hq⟩ := exists_of_has_array (hr.has a hhas)
  have hunreleased : q.released = false := by
    rw [isReleased, hq, Option.any_some] at hrel
    exact hrel
  obtain rfl : r = q :=
    Option.some.inj (hs.record.symm.trans (hr.record a q hhas hq hunreleased))
  refine ⟨hq, ?_⟩
  rw [hk.arrayBytes hw hv hl hl' hs.record hq hu]
  exact hs.arrayBytes hw

/-- The journal has grown by the entries in front. -/
theorem unspoilt_of_take {x : Handle}
    (h : ∀ e ∈ v.journal.take (v.journal.length - w.journal.length), e.spoils x = false) :
    w.Unspoilt x v := by
  intro es hj e he
  refine h e ?_
  rw [hj, List.length_append, Nat.add_sub_cancel, List.take_left]
  exact he

end World

namespace Machine

variable {order : VisitOrder} {s s' u : Machine} {i : Nat}

theorem recalls_stepAt (hs : s.Sound) (h : s.stepAt order i = some s') :
    s.world.Recalls s'.world := by
  obtain ⟨before, t, after, v, u, started, -, hst, rfl⟩ := stepAt_eq_some h
  cases hst.turn hs.owned with
  | begins m r rest below task isOpen items => exact .of_eq rfl
  | ends m failures below task => exact World.recalls_endCascade s.world m failures
  | serves _ _ x below hserves => exact (hserves.moves []).recalls
  | goes _ _ _ hgoes => exact (hgoes.moves []).recalls

/-- **A run leaves the records alone**, but for the marks that it sets. -/
theorem Sound.recalls (hs : s.Sound) (h : Leads order s u) : s.world.Recalls u.world := by
  induction h with
  | refl => exact .of_eq rfl
  | tail hst hn ih =>
      cases hn with
      | step i h => exact ih.trans (recalls_stepAt (hs.leads hst) h)
      | command c h => exact ih

/-- A thread is about to store elements of one type in a new array of a manager. -/
structure Storing (s : Machine) (i : Nat) (m : ManagerId) (name : Name) (t : DataType)
    (xs : List Element) (shape : Shape) (below : Stack .reply) : Prop where
  typed : ∀ x ∈ xs, x.dataType = t
  thread : ∃ id manager check, s.world.managerNamed manager = .ok m ∧
    s.threads[i]? = some ⟨id, .perform (.allocate manager name (.fromSlice t xs shape) check) below⟩

/-- What becomes of the elements, from the step on that stores them. -/
structure ReadsBack (order : VisitOrder) (s : Machine) (i : Nat) (m : ManagerId) (name : Name)
    (t : DataType) (xs : List Element) (shape : Shape) (below : Stack .reply) (s' : Machine) :
    Prop where
  /-- A slice that is not as long as the shape says is refused, and nothing happens. -/
  refused : shape.checkedSize ≠ some xs.length → s'.world = s.world ∧
    s'.Replied i below (.fault (.manager (.invalidArgument (.elementCount xs.length shape))))
  /-- One that is gets an array, from an open manager and within the address space. -/
  made : s.world.lifecycle? m = some .opened → shape.checkedSize = some xs.length →
    ∀ n, shape.byteLen t = some n → n ≤ Host.addressSpace →
      ∃ answer, s'.Replied i below (.answer answer)
  /-- The array is a new one.  It is read as the elements in every state to come, until it is
  released, or the engine itself is asked to free its buffer, or an operation writes into it. -/
  kept : ∀ answer, s'.Replied i below (.answer answer) →
    ∃ a r, ¬ s.world.Has (.array a) ∧ s'.world.arrayNamed name = .ok a ∧
      s'.world.array? a = some r ∧
      ∀ u, Leads order s' u → u.world.isReleased (.array a) = false →
        s'.world.Unspoilt r.handle u.world → (u.world.arrayElements a (some t)).2 = .ok xs

/-- **What is stored in an array is read back.**  A slice is refused unless it is as long as its shape
says.  The array that is made of it reads back as just these elements, floating ones
bit by bit, whatever happens in between, as long as the array is not released and its buffer is
neither freed nor written.  And bytes that are decoded and encoded again are what they were, up to
the last whole element, with every byte of a boolean made zero or one. -/
theorem reads_back {m : ManagerId} {name : Name} {t : DataType} {xs : List Element} {shape : Shape}
    {below : Stack .reply} (hs : Reachable order .host s)
    (hst : s.Storing i m name t xs shape below) :
    (∃ s', s.stepAt order i = some s' ∧
      ReadsBack order s i m name t xs shape below s') ∧
    ∀ bytes, encodeElements (decodeElements t bytes) =
      (bytes.take (bytes.length / t.width * t.width)).map (Element.canonical t) := by
  refine ⟨?_, encodeElements_decodeElements t⟩
  obtain ⟨hx, id, manager, check, hm, ht⟩ := hst
  have hf : EngineKind.Fresh .host := trivial
  have hacc := hs.accounted hf
  have hlt := (List.getElem?_eq_some_iff.mp ht).1
  obtain ⟨v, reply, hp⟩ := World.exists_reply_allocate (w := s.world) s.running name check
    hacc.kind manager (.fromSlice t xs shape)
  have hstep : s.stepAt order i = some ⟨v, s.threads.set i ⟨id, .reply reply below⟩⟩ := by
    simp only [stepAt, ht, Thread.step, Thread.perform, hp, List.append_nil]
  have hreplied : ∀ r, Replied ⟨v, s.threads.set i ⟨id, .reply reply below⟩⟩ i below r ↔
      reply = r := by
    intro r
    rw [Replied, List.getElem?_set_self hlt]
    simp
  refine ⟨_, hstep, ?_, ?_, ?_⟩
  · intro hsize
    obtain ⟨rfl, hreply⟩ := Prod.mk.inj
      (hp.symm.trans (World.perform_fromSlice_refused s.running name check hm hsize))
    exact ⟨rfl, (hreplied _).mpr (Action.reply.inj hreply)⟩
  · intro hopen hsize n hl hle
    obtain ⟨owner, howner⟩ := World.lifecycle?_eq_some.mp hopen
    obtain ⟨_, r, contents, hmade, -⟩ := World.perform_fromSlice s.running name check
      hacc.kind hm (World.openManager_eq_ok.mpr howner) hx hsize hl hle
    obtain ⟨-, hreply⟩ := Prod.mk.inj (hp.symm.trans hmade)
    exact ⟨_, (hreplied _).mpr (Action.reply.inj hreply)⟩
  · intro answer hanswer
    obtain rfl := (hreplied _).mp hanswer
    obtain ⟨⟨owner, ho⟩, hsize, n, hl, hle⟩ :=
      World.fits_of_perform_fromSlice s.running name check hacc.kind hm hp
    obtain ⟨_, r, contents, hmade, hstored, rfl, hname⟩ := World.perform_fromSlice s.running
      name check hacc.kind hm ho hx hsize hl hle
    obtain ⟨rfl, -⟩ := Prod.mk.inj (hp.symm.trans hmade)
    refine ⟨_, r, Nat.lt_irrefl _, hname, hstored.record, ?_⟩
    intro u hu hrel hunspoilt
    have hs' := hs.leads (.single (.step i hstep))
    have hsound := hs'.sound
    have hacc' := hs'.accounted hf
    have hacc'' := (hs'.leads hu).accounted hf
    obtain ⟨hrecord, hbytes⟩ := hstored.recalled (hsound.recalls hu) (hsound.keeps hu r.handle)
      hacc'.kind hacc''.kind hacc'.ledger hacc''.ledger hrel hunspoilt
    exact World.arrayElements_of_bytes (some _) hrecord rfl hx hbytes

/-- A manager is about to store two numbers. -/
def storing : List (Command × Nat) :=
  [(.base "p" none, 1), (.allocate "p" "b" (.uninit ⟨[2]⟩ .int32) none, 1),
    (.allocate "p" "a" (.fromSlice .int32 [.int32 (-1), .int32 7] ⟨[2]⟩) none, 0)]

/-- They are copied into another array, and are a further output of that.  Then their array is
detached, and the manager is closed. -/
def stored : Machine :=
  resume .byAge 0
    [(.invokeInto "p" "copy" ["a"] ["b", "a"] [], 1), (.detachArray "p" "a", 1), (.close "p", 9)]
    (onward storing)

/-- An array reads back what was stored in it after its manager is gone. -/
theorem reads_back_stored :
    (session storing).Storing 0 ⟨0⟩ "a" .int32 [.int32 (-1), .int32 7] ⟨[2]⟩ .top ∧
    (session storing).stepAt .byAge 0 = some (onward storing) ∧
    Leads .byAge (onward storing) stored ∧
    stored.world.isReleased (.manager ⟨0⟩) = true ∧
    (stored.world.arrayElements ⟨1⟩ (some .int32)).2 = .ok [.int32 (-1), .int32 7] := by
  have hs : Reachable .byAge .host (session storing) := reachable_replay .byAge _ _ _ _
  have hst : (session storing).Storing 0 ⟨0⟩ "a" .int32 [.int32 (-1), .int32 7] ⟨[2]⟩ .top :=
    ⟨by decide, ⟨0⟩, "p", none, by decide, rfl⟩
  have hi := stepAt_of_isSome .byAge (s := session storing) (by decide)
  have hl : Leads .byAge (onward storing) stored := (takes_resume .byAge 0 _ _).leads
  obtain ⟨⟨s', hs', hreads⟩, -⟩ := reads_back hs hst
  obtain rfl : onward storing = s' := Option.some.inj (hi.symm.trans hs')
  obtain ⟨answer, hanswer⟩ := hreads.made (by decide) (by decide) 8 (by decide) (by decide)
  obtain ⟨a, r, -, ha, hr, hkept⟩ := hreads.kept answer hanswer
  have hname : (onward storing).world.arrayNamed "a" = .ok ⟨1⟩ := by decide +kernel
  obtain rfl : ⟨1⟩ = a := Except.ok.inj (hname.symm.trans ha)
  have hrecord : (onward storing).world.array? ⟨1⟩ = some ⟨⟨2⟩, ⟨[2]⟩, .int32, .cpu, ⟨false⟩⟩ := by
    decide +kernel
  obtain rfl := Option.some.inj (hrecord.symm.trans hr)
  refine ⟨hst, hi, hl, by decide +kernel, hkept stored hl (by decide +kernel) ?_⟩
  exact World.unspoilt_of_take (by decide +kernel)

end Machine

end ArrayLifetimes
