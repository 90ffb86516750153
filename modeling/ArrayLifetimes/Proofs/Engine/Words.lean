/-
Arithmetic of words, and memory that is looked at by place.

Numbers of the machine are words.  A result that is no word is either cut to one or halts the
program, which depends on how the program was built; a division by zero always halts it, and so do
an item, a slice or a copy that is not where it should be.  The engine computes with numbers and
lists of any size.  Each operation here does what the machine does, with a lemma that says when it
comes to the same as the operation on numbers and lists.
-/
import ArrayLifetimes.Machine.Agenda
import ArrayLifetimes.Proofs.Engine.Lengths

namespace ArrayLifetimes

/-- What is done with a result that is no word. -/
inductive Overflow where
  /-- It is cut to a word. -/
  | wraps
  /-- The program halts. -/
  | halts
  deriving DecidableEq

/-- The program halts with a message. -/
def halt {α : Type} (message : String) : Except EngineFault α := .error (.panic (.text message))

theorem ok_bind {ε α β : Type} (a : α) (f : α → Except ε β) :
    (Except.ok a >>= f) = f a := rfl

theorem error_bind {ε α β : Type} (e : ε) (f : α → Except ε β) :
    ((.error e : Except ε α) >>= f) = .error e := rfl

namespace Word

/-- A result of an operation, which is a word if it fits. -/
def fit (o : Overflow) (operation : String) (n : Nat) : Except EngineFault Nat :=
  if n < Shape.wordLimit then .ok n
  else
    match o with
    | .wraps => .ok (n % Shape.wordLimit)
    | .halts => halt ("attempt to " ++ operation ++ " with overflow")

def add (o : Overflow) (a b : Nat) : Except EngineFault Nat := fit o "add" (a + b)

def mul (o : Overflow) (a b : Nat) : Except EngineFault Nat := fit o "multiply" (a * b)

def sub (o : Overflow) (a b : Nat) : Except EngineFault Nat :=
  if b ≤ a then .ok (a - b)
  else
    match o with
    | .wraps => .ok (Shape.wordLimit + a - b)
    | .halts => halt "attempt to subtract with overflow"

def div (a b : Nat) : Except EngineFault Nat :=
  if b = 0 then halt "attempt to divide by zero" else .ok (a / b)

/-- The bits of a word as a signed number. -/
def signed (a : Nat) : Int := Int.bmod a Shape.wordLimit

variable {o : Overflow} {a b : Nat}

end Word

namespace Memory

variable {α : Type}

/-- The item at a place. -/
def item (xs : List α) (i : Nat) : Except EngineFault α :=
  match xs[i]? with
  | some x => .ok x
  | none =>
    halt ("index out of bounds: the len is " ++ toString xs.length ++ " but the index is " ++
      toString i)

variable {xs piece : List α} {i first last reserved : Nat} {x : α}

/-- **A buffer has room for what it was reserved for**: pieces of one length, as many as fit. -/
theorem foldlM_append {β : Type} {step : List α → β → Except EngineFault (List α)}
    {pieces : β → List α} {width : Nat} {ys : List β}
    (hstep : ∀ y ∈ ys, ∀ out, out.length + width ≤ reserved → step out y = .ok (out ++ pieces y))
    (hwidth : ∀ y ∈ ys, (pieces y).length = width)
    (hfit : xs.length + ys.length * width ≤ reserved) :
    ys.foldlM step xs = .ok (xs ++ ys.flatMap pieces) := by
  induction ys generalizing xs with
  | nil => rw [List.foldlM_nil, List.flatMap_nil, List.append_nil]; rfl
  | cons y ys ih =>
      rw [List.length_cons, Nat.succ_mul] at hfit
      have hy := List.mem_cons_self (a := y) (l := ys)
      have hroom : (xs ++ pieces y).length + ys.length * width ≤ reserved := by
        rw [List.length_append, hwidth y hy]
        omega
      rw [List.foldlM_cons, hstep y hy xs (by omega), ok_bind,
        ih (fun z hz => hstep z (List.mem_cons_of_mem _ hz))
          (fun z hz => hwidth z (List.mem_cons_of_mem _ hz)) hroom,
        List.flatMap_cons, List.append_assoc]

end Memory

end ArrayLifetimes
