/-
Values under keys, in the order in which the keys came.

`get?` is the view: what an operation does is said by what it does to `get?`.
-/

namespace ArrayLifetimes

/-- Values under keys.  The first entry of a key counts. -/
structure Keyed (κ α : Type) where
  entries : List (κ × α) := []

namespace Keyed

variable {κ α : Type} [DecidableEq κ]

instance : Inhabited (Keyed κ α) := ⟨⟨[]⟩⟩

/-- The value that entries have under a key. -/
def find (k : κ) : List (κ × α) → Option α
  | [] => none
  | (k', a) :: rest => if k' = k then some a else find k rest

/-- Entries with a value under a key, in the place of the old one or at the end. -/
def set (k : κ) (a : α) : List (κ × α) → List (κ × α)
  | [] => [(k, a)]
  | (k', a') :: rest => if k' = k then (k, a) :: rest else (k', a') :: set k a rest

def get? (t : Keyed κ α) (k : κ) : Option α := find k t.entries

def contains (t : Keyed κ α) (k : κ) : Bool := (t.get? k).isSome

def insert (t : Keyed κ α) (k : κ) (a : α) : Keyed κ α := ⟨set k a t.entries⟩

def erase (t : Keyed κ α) (k : κ) : Keyed κ α := ⟨t.entries.filter fun e => e.1 ≠ k⟩

def keys (t : Keyed κ α) : List κ := t.entries.map Prod.fst

def values (t : Keyed κ α) : List α := t.entries.map Prod.snd

def size (t : Keyed κ α) : Nat := t.entries.length

def isEmpty (t : Keyed κ α) : Bool := t.entries.isEmpty

theorem find_set (k : κ) (a : α) (es : List (κ × α)) (k' : κ) :
    find k' (set k a es) = if k = k' then some a else find k' es := by
  induction es with
  | nil => simp [set, find]
  | cons e es ih => grind [set, find]

theorem find_filter (k : κ) (es : List (κ × α)) (k' : κ) :
    find k' (es.filter fun e => e.1 ≠ k) = if k = k' then none else find k' es := by
  induction es with
  | nil => simp [find]
  | cons e es ih => grind [find]

theorem find_eq_none_iff {k : κ} {es : List (κ × α)} : find k es = none ↔ k ∉ es.map Prod.fst := by
  induction es with
  | nil => simp [find]
  | cons e es ih => grind [find]

theorem get?_eq_none_iff {t : Keyed κ α} {k : κ} : t.get? k = none ↔ k ∉ t.keys :=
  find_eq_none_iff

theorem mem_keys_of_get? {t : Keyed κ α} {k : κ} {a : α} (h : t.get? k = some a) : k ∈ t.keys := by
  refine Decidable.byContradiction fun hk => ?_
  rw [get?_eq_none_iff.mpr hk] at h
  cases h

@[simp] theorem get?_insert (t : Keyed κ α) (k : κ) (a : α) (k' : κ) :
    (t.insert k a).get? k' = if k = k' then some a else t.get? k' := find_set k a t.entries k'

@[simp] theorem get?_erase (t : Keyed κ α) (k k' : κ) :
    (t.erase k).get? k' = if k = k' then none else t.get? k' := find_filter k t.entries k'

end Keyed

end ArrayLifetimes
