import Telemetry.Http.Message
import Telemetry.Http.Route
import Telemetry.Metric.ReportJson
import Telemetry.Server.State

/-!
What a server answers to requests on its routes. Failures of the store are not told in detail. The page that
lists the metrics is a table with a row for each; kinds, names and values hold no character that would have
to be escaped.
-/
namespace Telemetry

namespace Page

def head : String :=
  "<!DOCTYPE html>\n<html>\n<head><title>Metrics</title></head>\n<body>\n<table>\n" ++
    "<tr><th>Type</th><th>Name</th><th>Value</th></tr>\n"

def foot : String := "</table>\n</body>\n</html>\n"

def cell (text : String) : String := "<td>" ++ text ++ "</td>"

def row (m : Metric) : String :=
  "<tr>" ++ cell m.kind.text ++ cell m.name ++ cell m.value.text ++ "</tr>\n"

def render (ms : List Metric) : String := head ++ String.join (ms.map row) ++ foot

end Page

namespace Server
open Http

/-- The greatest body that is taken, without its encoding. -/
def maxBody : Nat := 2 * 1024 * 1024

def refusal (trace : String) : RequestError → Response
  | .invalid e => .failure 400 trace "bad_request" e.message
  | .notFound key => .failure 404 trace "not_found" (RequestError.notFound key).message
  | .store _ => .failure 500 trace "storage_error" "storage failure"

def respond {α : Type} (trace : String) (f : α → Response) : Except RequestError α → Response
  | .ok a => f a
  | .error e => refusal trace e

def valueText (m : Metric) : Response := .ofText 200 .plain m.value.text

def report (m : Metric) : Response := .ofJson (Report.ofMetric m).toJson

def reports (ms : List Metric) : Response := .ofJson (Report.listToJson (ms.map Report.ofMetric))

/-- Reads the body of a request and goes on with what is in it. -/
def withBody {α : Type} (read? : Bytes → Option α) (trace : String) (req : Request)
    (handle : α → Server → Response × Server) (s : Server) : Response × Server :=
  match req.body.read maxBody with
  | .error e => (.ofBodyError e, s)
  | .ok bytes =>
    match read? bytes with
    | none => (.failure 400 trace "bad_request" "invalid JSON body", s)
    | some a => handle a s

def answerReport (trace : String) (r : Report) (s : Server) : Response × Server :=
  let (a, s') := s.update r
  (respond trace report a, s')

/-- Answers an update with a list of reports, which has to have some. -/
def answerReports (trace : String) (rs : List Report) (s : Server) : Response × Server :=
  if rs.isEmpty then (.failure 400 trace "empty_batch" "batch must not be empty", s)
  else
    let (a, s') := s.updateAll rs
    (respond trace reports a, s')

def answerPing (trace : String) (s : Server) : Response :=
  match s.ping with
  | .ok () => { status := 200 }
  | .error (.unsupported _) =>
    .failure 500 trace "unsupported" "storage backend has no liveness check"
  | .error _ => .failure 500 trace "storage_error" "storage unavailable"

/-- Answers a request on a route whose parameters are decoded. -/
def answer (r : Route) : Handler Server := fun trace req s =>
  match r with
  | .updateByPath kind name v =>
    let (a, s') := s.updateByValue kind name (.text v)
    (respond trace valueText a, s')
  | .update => withBody Report.ofJson? trace req (answerReport trace) s
  | .updateAll => withBody Report.listOfJson? trace req (answerReports trace) s
  | .index => (respond trace (fun ms => .ofText 200 .html (Page.render ms)) s.list, s)
  | .valueByPath kind name => (respond trace valueText (s.get kind name), s)
  | .value =>
    withBody Report.keyOfJson? trace req (fun key s =>
      (respond trace report (s.get key.kind.text key.name), s)) s
  | .ping => (answerPing trace s, s)

/-- Answers a request on a route, if the route has its method and the parameters are texts. -/
def answerRoute (r : Route) : Handler Server := fun trace req s =>
  if req.method ∈ r.methods then
    match r.decode with
    | .ok r => answer r trace req s
    | .error name =>
      (.ofText 400 .plain ("Invalid URL: Invalid UTF-8 in \x60" ++ name ++ "\x60"), s)
  else ({ status := 405 }, s)

end Server
end Telemetry
