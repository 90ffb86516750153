/-
Failures of nested work are one flat list.

A piece of work that collects failures may consist of parts.  A part starts a collection of its own,
and what it has collected is one error in the end, if it is anything.  Whoever waits for the part
records that error under the part's key.  A close does so with the children of a manager and with
the managers attached to it, and so to any depth.

All the same the outermost list is that of the calls themselves, as if they had been made on a
single collection in the order in which they came.  The reason is that every call only appends, and
that a list which is recorded appends just itself.
-/
import ArrayLifetimes.Fault.Manager

namespace ArrayLifetimes

/-- An error that is no list of failures does not have the code of one. -/
theorem ManagerError.code_ne_of_failures? {e : ManagerError} (h : e.failures? = none) :
    e.code ≠ 1007 := by
  cases e with
  | release fs => cases h
  | engine e => cases e <;> simp [code, EngineError.code]
  | _ => simp [code]

namespace ReleaseFailures

/-- A call on a collection. -/
inductive Call where
  | record (key : Label) (error : ManagerError)
  | push (failure : ReleaseFailure)

/-- The entries that a call stands for.  An error that is a list of failures stands for these, any
other one for an entry with the key of the call and with its own code and text. -/
def Call.entries : Call → List ReleaseFailure
  | record key error => error.failures?.getD [⟨key, error.code, error.phrase⟩]
  | push failure => [failure]

/-- The collection after a call. -/
def receive (fs : ReleaseFailures) : Call → ReleaseFailures
  | .record key error => fs.record key error
  | .push failure => fs.push failure

/-- The collection after another one, complete by now, has been recorded in it. -/
def recordResult (fs : ReleaseFailures) (key : Label) (nested : ReleaseFailures) :
    ReleaseFailures :=
  match nested.error? with
  | none => fs
  | some e => fs.record key e

/-- Work that collects failures: a call, or a part that has a key and work of its own. -/
inductive Gathering where
  | call (c : Call)
  | part (key : Label) (works : List Gathering)

mutual

/-- The collection after a piece of work.  A part starts with a fresh one. -/
def after (fs : ReleaseFailures) : Gathering → ReleaseFailures
  | .call c => fs.receive c
  | .part key works => fs.recordResult key (afterAll [] works)

def afterAll (fs : ReleaseFailures) : List Gathering → ReleaseFailures
  | [] => fs
  | g :: works => afterAll (after fs g) works

end

mutual

/-- All calls that are made in a piece of work, on whatever collection. -/
def Gathering.calls : Gathering → List Call
  | .call c => [c]
  | .part _ works => callsOf works

def callsOf : List Gathering → List Call
  | [] => []
  | g :: works => g.calls ++ callsOf works

end

/-! ### Every call appends -/

theorem receive_eq (fs : ReleaseFailures) (c : Call) : fs.receive c = fs ++ c.entries := by
  cases c with
  | push f => rfl
  | record key e => cases e <;> rfl

theorem foldl_receive (fs : ReleaseFailures) (calls : List Call) :
    calls.foldl receive fs = fs ++ calls.flatMap Call.entries := by
  induction calls generalizing fs with
  | nil => simp
  | cons c calls ih =>
      rw [List.foldl_cons, ih, receive_eq, List.flatMap_cons, List.append_assoc]

/-- What another collection has come to is appended as it is; the key is of no account. -/
theorem recordResult_eq (fs : ReleaseFailures) (key : Label) (nested : ReleaseFailures) :
    fs.recordResult key nested = fs ++ nested := by
  cases nested with
  | nil => exact (List.append_nil fs).symm
  | cons f nested => rfl

mutual

theorem after_eq (fs : ReleaseFailures) :
    ∀ g : Gathering, fs.after g = fs ++ g.calls.flatMap Call.entries
  | .call c => by
      rw [after, receive_eq, Gathering.calls, List.flatMap_singleton]
  | .part key works => by
      rw [after, recordResult_eq, afterAll_eq [] works, Gathering.calls]
      rfl

theorem afterAll_eq (fs : ReleaseFailures) :
    ∀ works : List Gathering, fs.afterAll works = fs ++ (callsOf works).flatMap Call.entries
  | [] => by
      rw [afterAll, callsOf, List.flatMap_nil, List.append_nil]
  | g :: works => by
      rw [afterAll, afterAll_eq _ works, after_eq fs g, callsOf, List.flatMap_append,
        List.append_assoc]

end

/-! ### Codes and results -/

/-- Where an entry with the code of a list comes from: not from a record of a single error. -/
theorem Call.origin {c : Call} {f : ReleaseFailure} (hf : f ∈ c.entries) (hcode : f.code = 1007) :
    c = .push f ∨ ∃ key nested, c = .record key (.release nested) ∧ f ∈ nested := by
  cases c with
  | push g => exact Or.inl (congrArg Call.push (List.mem_singleton.mp hf).symm)
  | record key e =>
      cases he : e.failures? with
      | none =>
          rw [entries, he, Option.getD_none, List.mem_singleton] at hf
          rw [hf] at hcode
          exact absurd hcode (ManagerError.code_ne_of_failures? he)
      | some nested =>
          rw [entries, he, Option.getD_some] at hf
          cases e with
          | release fs =>
              obtain rfl := Option.some.inj he
              exact Or.inr ⟨key, fs, rfl, hf⟩
          | _ => cases he

theorem error?_eq_none {fs : ReleaseFailures} : fs.error? = none ↔ fs = [] := by
  cases fs <;> simp [error?]

theorem eq_of_error? {fs : ReleaseFailures} {e : ManagerError} (h : fs.error? = some e) :
    e = .release fs := by
  unfold error? at h
  split at h
  · cases h
  · exact (Option.some.inj h).symm

/-- What a fresh collection comes to by some work, parts within parts included. -/
structure Flat (works : List Gathering) : Prop where
  /-- The entries of all calls, one call after the other. -/
  entries : afterAll [] works = (callsOf works).flatMap Call.entries
  /-- It makes no difference that the calls are made on different collections. -/
  direct : afterAll [] works = (callsOf works).foldl receive []
  /-- An entry that has the code of a list was pushed, or was in a list that was recorded. -/
  created : ∀ f ∈ afterAll [] works, f.code = 1007 → .push f ∈ callsOf works ∨
    ∃ key nested, .record key (.release nested) ∈ callsOf works ∧ f ∈ nested
  /-- The work has succeeded just when no call stood for anything. -/
  result : (afterAll [] works).error? = none ↔ ∀ c ∈ callsOf works, c.entries = []
  /-- Otherwise there is one error, with all these entries. -/
  reported : ∀ e, (afterAll [] works).error? = some e → e = .release (afterAll [] works)

/-- **Failures are flat**, however deep the work is nested in which they are collected. -/
theorem nested_failures_flat (works : List Gathering) : Flat works := by
  have hentries : afterAll [] works = (callsOf works).flatMap Call.entries := afterAll_eq [] works
  refine ⟨hentries, ?_, ?_, ?_, fun e he => eq_of_error? he⟩
  · rw [hentries, foldl_receive]
    rfl
  · intro f hf hcode
    rw [hentries] at hf
    obtain ⟨c, hc, hfc⟩ := List.mem_flatMap.mp hf
    rcases Call.origin hfc hcode with rfl | ⟨key, nested, rfl, hnested⟩
    · exact Or.inl hc
    · exact Or.inr ⟨key, nested, hc, hnested⟩
  · rw [error?_eq_none, hentries, List.flatMap_eq_nil_iff]

/-- A part in a part, and a part without failures. -/
example : afterAll [] [.part (.text "m") [.call (.record (.text "a") (.engine (.invalidHandle 3))),
      .part (.text "n") [.call (.record (.text "b") (.releasePanicked "boom"))]],
    .part (.text "o") [.call (.record (.text "c") (.release []))]] =
    [⟨.text "a", 2002, [.text "Engine error: Invalid native handle: 3"]⟩,
      ⟨.text "b", 1008, [.text "Release panicked: boom"]⟩] := by decide

end ReleaseFailures

end ArrayLifetimes
