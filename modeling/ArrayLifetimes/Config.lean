/-
Configuration of a registry: where arrays go by default, and what happens when a key is
used twice.

A configuration is read from a TOML document or from JSON.  A field that is missing has
its default, and a field that nobody knows is skipped.
-/
import ArrayLifetimes.Fault.Manager
import ArrayLifetimes.Json.Decode
import ArrayLifetimes.Toml.Document

namespace ArrayLifetimes

/-- What an attach does under a key that is in use. -/
inductive DuplicateKeys where
  /-- The new resource takes the key over, and the old one goes back to the caller. -/
  | warn
  | reject
  deriving DecidableEq, Repr

namespace DuplicateKeys

def name : DuplicateKeys → String
  | warn => "warn"
  | reject => "reject"

def ofName? (s : String) : Option DuplicateKeys := [warn, reject].find? fun p => p.name == s

end DuplicateKeys

structure Config where
  defaultDevice : Device := .cpu
  defaultDataType : DataType := .float32
  duplicateKeys : DuplicateKeys := .warn
  /-- A close tells of each resource that it released. -/
  logReleases : Bool := false
  deriving DecidableEq, Repr

namespace Config

open Json

/-- How a configuration is stored. -/
def toJson (c : Config) : Value :=
  .ofMembers
    [("default_device", c.defaultDevice.toJson), ("default_data_type", c.defaultDataType.toJson),
      ("duplicate_keys", .ofText c.duplicateKeys.name), ("log_releases", .bool c.logReleases)]

/-- The fields of a stored configuration, in order. -/
def fieldNames : List String :=
  ["default_device", "default_data_type", "duplicate_keys", "log_releases"]

/-- A field's value, or its default if the field is missing. -/
def orDefault {α β : Type} (default : β) (read : α → Option β) : Option α → Option β
  | none => some default
  | some v => read v

/-- A configuration from its fields in order, given how each of them is read. -/
def ofFields? {α : Type} (device : α → Option Device) (choice : α → Option String)
    (bool : α → Option Bool) (fields : List (Option α)) : Option Config :=
  match fields with
  | [a, b, c, d] => do
    let base : Config := ⟨.cpu, .float32, .warn, false⟩
    return ⟨← orDefault base.defaultDevice device a,
      ← orDefault base.defaultDataType (fun v => (choice v).bind DataType.ofName?) b,
      ← orDefault base.duplicateKeys (fun v => (choice v).bind DuplicateKeys.ofName?) c,
      ← orDefault base.logReleases bool d⟩
  | _ => none

def ofJson? (v : Value) : Option Config :=
  (v.fields? fieldNames).bind (ofFields? Device.ofJson? Value.plainChoice? Value.asBool?)

end Config

namespace Toml

/-- The name of a choice, and its argument: a text alone, or a table with one key. -/
def Node.choice? : Node → Option (String × Option Node)
  | .leaf (.scalar (.text s)) => some (s, none)
  | .leaf (.table [(k, v)]) => some (k, some (.leaf v))
  | .table _ _ [(k, node)] => some (k, some node)
  | _ => none

/-- A table that holds nothing. -/
def Node.isHollow : Node → Bool
  | .leaf (.table members) => members.isEmpty
  | .table _ _ members => members.isEmpty
  | _ => false

/-- The name of a choice that has no argument. -/
def Node.plainChoice? (node : Node) : Option String :=
  match node.choice? with
  | some (name, none) => some name
  | some (name, some argument) => if argument.isHollow then some name else none
  | none => none

def Node.asBool? : Node → Option Bool
  | .leaf (.scalar (.bool b)) => some b
  | _ => none

def Node.asDevice? (node : Node) : Option Device :=
  match node.choice? with
  | some ("gpu", some (.leaf (.scalar (.integer n)))) =>
    if 0 ≤ n ∧ n < 2 ^ 32 then some (.gpu (UInt32.ofNat n.toNat)) else none
  | some ("gpu", _) => none
  | _ => if node.plainChoice? = some "cpu" then some .cpu else none

end Toml

namespace Config

/-- Reads a TOML document. -/
def ofToml (text : String) : Except ConfigError Config :=
  let config := do
    let members ← Toml.parse? text
    ofFields? Toml.Node.asDevice? Toml.Node.plainChoice? Toml.Node.asBool?
      (fieldNames.map fun name => members.lookup name)
  match config with
  | some c => .ok c
  | none => .error (.malformed "the document is not a configuration")

/-- The content of a file as far as a configuration needs it. -/
def ofBytes (path : String) (bytes : List UInt8) : Except ConfigError Config :=
  match String.fromUTF8? ⟨bytes.toArray⟩ with
  | some text => ofToml text
  | none => .error (.unreadable path "stream did not contain valid UTF-8")

/-- The first step of a path that leads down: every other one stays where it is or goes to the
enclosing directory. -/
def firstName? (path : String) : Option String :=
  (path.splitOn "/").find? fun step => !(step == "" || step == "." || step == "..")

/-- The bytes of the longest path and of the longest step of a path. -/
def pathLimit : Nat := 4095

def stepLimit : Nat := 255

/-- The outcome of reading from a place without any file.  A path that leads nowhere down names
a directory whatever it is resolved against; any other one fails at its first name. -/
def ofMissingFile (path : String) : Except ConfigError Config :=
  let missing := "No such file or directory (os error 2)"
  let tooLong := "File name too long (os error 36)"
  .error (.unreadable path
    (if path.contains '\x00' then "file name contained an unexpected NUL byte"
    else if pathLimit < path.utf8ByteSize then tooLong
    else if path == "" then missing
    else
      match firstName? path with
      | none => "Is a directory (os error 21)"
      | some step => if stepLimit < step.utf8ByteSize then tooLong else missing))

end Config

end ArrayLifetimes
