/-
Events: what managers, arrays and the host engine tell about their work.

An event has a level, a message and named fields.
-/
import ArrayLifetimes.Engine.Host
import ArrayLifetimes.Fault.Manager

namespace ArrayLifetimes

/-- How much attention an event asks for. -/
inductive Level where
  | trace
  | debug
  | info
  | warn
  | error
  deriving DecidableEq, Repr

def Level.text : Level → String
  | trace => "TRACE"
  | debug => "DEBUG"
  | info => "INFO"
  | warn => "WARN"
  | error => "ERROR"

inductive Event where
  | rootRegistered (manager : ManagerId) (device : Device) (engine : String)
  | rootUnregistered (manager : ManagerId)
  | shuttingDown (roots : Nat)
  | subCreated (parent child : ManagerId) (device : Device)
  | keyTakenOver (manager : ManagerId) (key : Label)
  | detached (manager : ManagerId) (key : Label)
  | closing (manager : ManagerId) (children resources : Nat)
  | resourceReleased (manager : ManagerId) (key : Label)
  | resourceFailed (manager : ManagerId) (key : Label) (error : ManagerError)
  | closedWithFailures (manager : ManagerId) (failed : Nat)
  | scopeClosedWithErrors (manager : ManagerId) (error : ManagerError)
  | failedScopeClosedWithErrors (error : ManagerError)
  | arrayAttached (manager : ManagerId) (array : ArrayId) (shape : Shape)
  | releasingArray (array : ArrayId) (handle : Handle)
  | lateArrayNotReleased (array : ArrayId) (error : ManagerError)
  | outputNotReleased (array : ArrayId) (error : ManagerError)
  | invoked (manager : ManagerId) (operation : String) (outputs : Nat)
  | bufferAllocated (handle : Handle) (shape : Shape)
  | bufferFreed (handle : Handle)
  deriving DecidableEq, Repr

namespace Event

def level : Event → Level
  | bufferAllocated .. | bufferFreed .. => .trace
  | rootUnregistered .. | subCreated .. | detached .. | closing .. | resourceReleased ..
  | arrayAttached .. | releasingArray .. | invoked .. => .debug
  | rootRegistered .. | shuttingDown .. => .info
  | keyTakenOver .. | resourceFailed .. | scopeClosedWithErrors ..
  | failedScopeClosedWithErrors .. | lateArrayNotReleased .. | outputNotReleased .. => .warn
  | closedWithFailures .. => .error

def message : Event → String
  | rootRegistered .. => "root manager registered"
  | rootUnregistered .. => "root manager unregistered"
  | shuttingDown .. => "shutting down manager registry"
  | subCreated .. => "sub-manager created"
  | keyTakenOver .. =>
    "attach replaced an existing resource; the previous one is no longer tracked"
  | detached .. => "resource detached"
  | closing .. => "closing manager"
  | resourceReleased .. => "resource released"
  | resourceFailed .. => "resource failed to release"
  | closedWithFailures .. => "manager closed with release failures"
  | scopeClosedWithErrors .. => "scoped manager closed with errors"
  | failedScopeClosedWithErrors .. => "scope closed with errors after a failed body"
  | arrayAttached .. => "array attached"
  | releasingArray .. => "releasing array"
  | lateArrayNotReleased .. => "failed to release array allocated during close"
  | outputNotReleased .. => "failed to release invoke output"
  | invoked .. => "invoked engine operation"
  | bufferAllocated .. => "host buffer allocated"
  | bufferFreed .. => "host buffer freed"

/-- The field that names the manager. -/
def managerField (m : ManagerId) : String × Phrase := ("manager", [.manager m])

def arrayField (a : ArrayId) : String × Phrase := ("array", [.array a])

def textField (name value : String) : String × Phrase := (name, .ofText value)

def errorField (e : ManagerError) : String × Phrase := ("error", e.phrase)

def fields : Event → List (String × Phrase)
  | rootRegistered m device engine =>
    [managerField m, textField "device" device.text, textField "engine" engine]
  | rootUnregistered m => [managerField m]
  | shuttingDown roots => [textField "roots" (toString roots)]
  | subCreated parent child device =>
    [("parent", [.manager parent]), ("child", [.manager child]), textField "device" device.text]
  | keyTakenOver m key | detached m key | resourceReleased m key =>
    [managerField m, ("key", [key])]
  | closing m children resources =>
    [managerField m, textField "children" (toString children),
      textField "resources" (toString resources)]
  | resourceFailed m key e => [managerField m, ("key", [key]), errorField e]
  | closedWithFailures m failed => [managerField m, textField "failed" (toString failed)]
  | scopeClosedWithErrors m e => [managerField m, errorField e]
  | failedScopeClosedWithErrors e => [errorField e]
  | arrayAttached m a shape => [managerField m, arrayField a, textField "shape" shape.text]
  | releasingArray a handle => [arrayField a, textField "handle" handle.text]
  | lateArrayNotReleased a e | outputNotReleased a e => [arrayField a, errorField e]
  | invoked m operation outputs =>
    [managerField m, textField "operation" operation, textField "outputs" (toString outputs)]
  | bufferAllocated handle shape =>
    [textField "handle" handle.text, textField "shape" shape.text]
  | bufferFreed handle => [textField "handle" handle.text]

end Event

end ArrayLifetimes
