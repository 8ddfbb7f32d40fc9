import Telemetry.Metric.Report
import Telemetry.Store.Backend

/-!
Requests on a store, whatever transport brings them. An update of a single metric adds the metric if
it is new: it takes up to three steps on the store, and others may come between them. If another one
adds the metric first, the update is applied on top of theirs.
-/
namespace Telemetry

inductive RequestError where
  /-- The request can never succeed as it is. -/
  | invalid (e : ReportError)
  | notFound (key : Key)
  | store (e : StoreError)
deriving DecidableEq, Repr

namespace RequestError

def message : RequestError → String
  | invalid e => e.message
  | notFound key => "metric " ++ key.text ++ " not found"
  | store e => e.message

def ofStore : StoreError → RequestError
  | .notFound key => notFound key
  | .metric e => invalid (.metric e)
  | e => store e

end RequestError

namespace Service

/-- How far an update has come. -/
inductive Stage where
  | updating (fresh : Metric) (input : Input)
  | adding (metric : Metric) (input : Input)
  | updatingAgain (key : Key) (input : Input)
  | done (answer : Except RequestError Metric)

/-- An update before its first step. Kind and name are looked at before the store is. -/
def Stage.start (kind name : String) (i : Input) : Stage :=
  match Metric.parse kind name with
  | .ok fresh => updating fresh i
  | .error e => done (.error (.invalid (.metric e)))

variable {σ : Type}

def Stage.step (b : Backend σ) : Stage → σ → Stage × σ
  | updating fresh i, s =>
    match b.update fresh.key i s with
    | (.ok m, s') => (done (.ok m), s')
    | (.error (.notFound _), s') =>
      match fresh.update i with
      | .ok m => (adding m i, s')
      | .error e => (done (.error (.invalid (.metric e))), s')
    | (.error e, s') => (done (.error (.ofStore e)), s')
  | adding m i, s =>
    match b.add m s with
    | (.ok (), s') => (done (.ok m), s')
    | (.error (.alreadyExists _), s') => (updatingAgain m.key i, s')
    | (.error e, s') => (done (.error (.ofStore e)), s')
  | updatingAgain key i, s =>
    match b.update key i s with
    | (.ok m, s') => (done (.ok m), s')
    | (.error e, s') => (done (.error (.ofStore e)), s')
  | done answer, s => (done answer, s)

/-- At most `n` steps without anything between them. -/
def Stage.run (b : Backend σ) : Nat → Stage → σ → Stage × σ
  | 0, stage, s => (stage, s)
  | n + 1, stage, s =>
    let (stage', s') := stage.step b s
    stage'.run b n s'

/-- The answer of an update. One that has not come to its end has found nothing so far. -/
def Stage.answer : Stage → Except RequestError Metric
  | done answer => answer
  | updating m _ => .error (.notFound m.key)
  | adding m _ => .error (.notFound m.key)
  | updatingAgain key _ => .error (.notFound key)

/-- Updates a metric, adding it if it is new. Three steps always bring it to its end. -/
def updateByValue (b : Backend σ) (kind name : String) (i : Input) (s : σ) :
    Except RequestError Metric × σ :=
  let (stage, s') := (Stage.start kind name i).run b 3 s
  (stage.answer, s')

def update (b : Backend σ) (r : Report) (s : σ) : Except RequestError Metric × σ :=
  match r.input with
  | .error e => (.error (.invalid e), s)
  | .ok i => updateByValue b r.kind.text r.id i s

/-- Updates metrics with reports, all of which have to stand for metrics before the store is
touched. -/
def updateAll (b : Backend σ) (rs : List Report) (s : σ) : Except RequestError (List Metric) × σ :=
  match rs.mapM Report.toMetric with
  | .error e => (.error (.invalid e), s)
  | .ok items =>
    match b.updateBatch items s with
    | (.ok ms, s') => (.ok ms, s')
    | (.error e, s') => (.error (.ofStore e), s')

def get (b : Backend σ) (kind name : String) (s : σ) : Except RequestError Metric :=
  match Kind.ofText? kind with
  | none => .error (.invalid (.metric (.invalidKind kind)))
  | some k => (b.retrieve ⟨k, name⟩ s).mapError .ofStore

def list (b : Backend σ) (s : σ) : Except RequestError (List Metric) :=
  (b.all s).mapError .ofStore

end Service
end Telemetry
