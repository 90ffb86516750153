/-
Names: what a client's names stand for, and what it gives names to.

A name that is given again stands for the new thing, but the old one keeps it in texts.
-/
import ArrayLifetimes.World.Closing

namespace ArrayLifetimes

namespace World

/-- A look-up that must succeed. -/
def named {α : Type} (found : Option α) (name : Name) : Except Fault α :=
  match found with
  | some a => .ok a
  | none => .error (.unknownName name)

def managerNamed (w : World) (n : Name) : Except Fault ManagerId :=
  named (w.client.managers.get? n) n

def arrayNamed (w : World) (n : Name) : Except Fault ArrayId := named (w.client.arrays.get? n) n

/-- An array by its name, with what is known of it. -/
def recordNamed (w : World) (n : Name) : Except Fault (ArrayId × ArrayRecord) := do
  let a ← w.arrayNamed n
  return (a, ← named (w.array? a) n)

def keyNamed (w : World) : KeyName → Except Fault Label
  | .text s => .ok (.text s)
  | .uid n => do return .array (← w.arrayNamed n)

/-- The resource that is mentioned.  A release hook is made here. -/
def resourceNamed (w : World) : ResourceName → Except Fault (World × Resource)
  | .array n => do return (w, .array (← w.arrayNamed n))
  | .manager n => do return (w, .manager (← w.managerNamed n))
  | .saved n => do return (w, ← named (w.client.resources.get? n) n)
  | .hook label commands ending =>
    let (w, h) := w.addHook ⟨label, some ⟨commands, ending⟩⟩
    .ok (w, .hook h)

def nameManager (w : World) (n : Name) (m : ManagerId) : World :=
  { w with client := { w.client with
      managers := w.client.managers.insert n m
      managerNames := (m, n) :: w.client.managerNames } }

def nameArray (w : World) (n : Name) (a : ArrayId) : World :=
  { w with client := { w.client with
      arrays := w.client.arrays.insert n a
      arrayNames := (a, n) :: w.client.arrayNames } }

def nameResource (w : World) (n : Name) (r : Resource) : World :=
  { w with client := { w.client with resources := w.client.resources.insert n r } }

/-- Names a resource that a client got back, if it got one and gives it a name. -/
def nameDisplaced (w : World) (n : Option Name) (r : Option Resource) : World :=
  match n, r with
  | some n, some r => w.nameResource n r
  | _, _ => w

/-- Names the arrays of a list: the first as asked for, the others with their place. -/
def nameOutputs (w : World) (n : Name) (as : List ArrayId) : World :=
  as.zipIdx.foldl
    (fun w (a, i) => w.nameArray (if i = 0 then n else n ++ "." ++ toString i) a) w

/-- The texts of identities: their names in angle brackets. -/
def naming (w : World) : Naming where
  manager m := "<" ++ (w.client.managerNames.lookup m).getD "?" ++ ">"
  array a := "<" ++ (w.client.arrayNames.lookup a).getD "?" ++ ">"

end World

end ArrayLifetimes
