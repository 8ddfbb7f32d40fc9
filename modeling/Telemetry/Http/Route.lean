import Telemetry.Text.Bytes
import Telemetry.Text.Split

/-!
The paths that are served. A path is cut at its slashes; a part in the place of a parameter may be
anything, but the last one is not empty. Parameters are percent-encoded texts.
-/
namespace Telemetry.Http

/-- The path of a request target, which may have a scheme and a host before it and a query behind
it. -/
def pathOfTarget (target : String) : String :=
  let cs := target.toList.takeWhile fun c => c != '?' && c != '#'
  match cs with
  | '/' :: _ => String.ofList cs
  | _ =>
    match Text.splitAtText? "://".toList cs with
    | none => String.ofList cs
    | some (_, rest) =>
      match rest.dropWhile (· != '/') with
      | [] => "/"
      | path => String.ofList path

/-- A path that is served, with its parameters. -/
inductive Route where
  | updateByPath (kind name value : String)
  | update
  | updateAll
  | index
  | valueByPath (kind name : String)
  | value
  | ping
deriving DecidableEq, Repr

namespace Route

/-- The route of a path, its parameters as they are written there. -/
def ofPath? (path : String) : Option Route :=
  match (Text.split '/' path.toList).map String.ofList with
  | ["", ""] => some index
  | ["", "ping"] => some ping
  | ["", "update", ""] => some update
  | ["", "updates", ""] => some updateAll
  | ["", "value", ""] => some value
  | ["", "update", kind, name, v] => if v = "" then none else some (updateByPath kind name v)
  | ["", "value", kind, name] => if name = "" then none else some (valueByPath kind name)
  | _ => none

def parameter (name part : String) : Except String String :=
  match Text.unescapeText? part with
  | some text => .ok text
  | none => .error name

/-- The route with its parameters decoded, or the name of the first one that is no text. -/
def decode : Route → Except String Route
  | updateByPath kind name v => do
    .ok (updateByPath (← parameter "kind" kind) (← parameter "name" name) (← parameter "value" v))
  | valueByPath kind name => do
    .ok (valueByPath (← parameter "kind" kind) (← parameter "name" name))
  | r => .ok r

def isUpdate : Route → Bool
  | updateByPath _ _ _ | update | updateAll => true
  | _ => false

/-- The methods of a route. What can be got can also be asked for without its body. -/
def methods : Route → List String
  | index | valueByPath _ _ | ping => ["GET", "HEAD"]
  | _ => ["POST"]

def allow (r : Route) : String := ",".intercalate r.methods

end Route
end Telemetry.Http
