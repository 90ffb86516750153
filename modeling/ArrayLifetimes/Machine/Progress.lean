/-
Why work ends.

The work that is left is measured by three numbers, of which a step makes an earlier one
smaller or keeps it and makes a later one smaller:

* `text`: the commands that have not run yet, in lists that are being run, in release
  hooks and in what the engine was told to run.  A command that runs is used up, and what
  it leaves behind is a part of it.
* the managers that are open.  A cascade starts only with a manager that is open, and
  it is not open any more.
* `frames`: what the pieces of work that have been started still have to visit.
-/
import ArrayLifetimes.Machine.Step

namespace ArrayLifetimes

mutual

/-- The size of a command, with the commands that it brings along. -/
def Command.text : Command → Nat
  | .attach _ _ resource _ | .keep resource _ | .release resource | .isReleased resource =>
    1 + resource.text
  | .scope _ _ _ body _ _ => 1 + Command.texts body
  | .inThread commands => 1 + Command.texts commands
  | .afterCreate _ commands | .afterInvoke _ commands => 3 + Command.texts commands
  | _ => 1

/-- The size of a list of commands. -/
def Command.texts : List Command → Nat
  | [] => 0
  | c :: rest => c.text + Command.texts rest

/-- The size of the release hook that a mention of a resource makes. -/
def ResourceName.text : ResourceName → Nat
  | .hook _ work _ => 1 + Command.texts work
  | _ => 0

end

def HookWork.text (h : HookWork) : Nat := 1 + Command.texts h.commands

def Hook.text (h : Hook) : Nat := (h.work.map HookWork.text).getD 0

def Callback.text (c : Callback) : Nat := 2 + Command.texts c.commands

def callbackText (c : Option Callback) : Nat := (c.map Callback.text).getD 0

namespace World

/-- The commands that release hooks and the engine have yet to run. -/
def text (w : World) : Nat :=
  (w.hooks.toList.map Hook.text).sum + callbackText w.engine.afterCreate +
    callbackText w.engine.afterInvoke

/-- The number of open managers. -/
def openCount (w : World) : Nat := w.managers.toList.countP Manager.isOpen

end World

/-- The commands that a stack has yet to run. -/
def Stack.text {want : Want} : Stack want → Nat
  | .top | .closer _ => 0
  | .cascade _ _ _ _ below => below.text
  | .release _ below => below.text
  | .shutdown _ _ _ below => below.text
  | .closers _ _ _ _ below => below.text
  | .script rest _ _ below => Command.texts rest + below.text
  | .hook _ _ below => below.text
  | .callback _ _ below => 1 + below.text
  | .body _ _ _ below => below.text
  | .joined _ below => below.text

def Task.text : Task → Nat
  | .release _ below | .settle _ below | .sweep _ _ _ below => below.text
  | .shutdown _ _ below | .closers _ _ _ _ below => below.text
  | .perform c below => c.text + below.text
  | .reply _ below => below.text
  | .script commands _ _ below => Command.texts commands + below.text
  | .finish _ _ below => below.text

/-- The number of things in an estate. -/
def Estate.size (e : Estate) : Nat := e.children.length + e.resources.length

/-- What the pieces of work on a stack still have to visit. -/
def Stack.frames {want : Want} : Stack want → Nat
  | .top => 0
  | .closer _ => 1
  | .cascade _ _ rest _ below => 3 * rest.size + 3 + below.frames
  | .release _ below => 1 + below.frames
  | .shutdown _ rest _ below => 3 * rest.length + 2 + below.frames
  | .closers _ left _ _ below => 3 * left + 2 + below.frames
  | .script rest _ _ below => 2 * rest.length + 1 + below.frames
  | .hook _ _ below => 2 + below.frames
  | .callback _ _ below => 2 + below.frames
  | .body _ _ _ below => 4 + below.frames
  | .joined _ below => 2 + below.frames

def Task.frames : Task → Nat
  | .release _ below => 2 + below.frames
  | .settle _ below => 1 + below.frames
  | .sweep _ rest _ below => 3 * rest.size + 3 + below.frames
  | .shutdown roots _ below => 3 * roots.length + 2 + below.frames
  | .closers _ left _ _ below => 3 * left + 2 + below.frames
  | .perform _ below => 1 + below.frames
  | .reply _ below => 1 + below.frames
  | .script commands _ _ below => 2 * commands.length + 1 + below.frames
  | .finish _ _ below => below.frames

attribute [simp] Stack.text Task.text Stack.frames Task.frames

end ArrayLifetimes
