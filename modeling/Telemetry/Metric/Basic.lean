import Telemetry.Binary64.Basic
import Telemetry.Decimal.Layout
import Telemetry.Decimal.Literal
import Telemetry.Text.Blank

/-!
Metrics. A counter adds up integer deltas and a gauge holds its last reading. A metric is identified
by its kind and its name; an update either yields the next state or says why it is refused, and a
refused update leaves nothing behind.
-/
namespace Telemetry

/-- What a metric does with its updates. -/
inductive Kind where
  | counter
  | gauge
deriving DecidableEq, Repr

namespace Kind

def text : Kind → String
  | counter => "counter"
  | gauge => "gauge"

def ofText? (s : String) : Option Kind :=
  if s = "counter" then some counter else if s = "gauge" then some gauge else none

/-- Counters come before gauges. -/
def rank : Kind → Nat
  | counter => 0
  | gauge => 1

@[simp] theorem ofText?_text (k : Kind) : ofText? k.text = some k := by
  cases k <;> decide

theorem text_of_ofText? {s : String} {k : Kind} (h : ofText? s = some k) : s = k.text := by
  unfold ofText? at h
  split at h
  · next hs => cases h; exact hs
  · split at h
    · next hs => cases h; exact hs
    · simp at h

end Kind

/-- The identity of a metric. -/
structure Key where
  kind : Kind
  name : String
deriving DecidableEq, Repr

namespace Key

def text (k : Key) : String := k.kind.text ++ "/" ++ k.name

/-- By kind, then by name. -/
def lt (a b : Key) : Bool :=
  decide (a.kind.rank < b.kind.rank) || (a.kind == b.kind && decide (a.name < b.name))

/-- Puts a key where it belongs in a sorted list that may have it already. -/
def insert (k : Key) : List Key → List Key
  | [] => [k]
  | a :: rest => if k = a then a :: rest else if k.lt a then k :: a :: rest else a :: insert k rest

def sorted (keys : List Key) : List Key := keys.foldr insert []

end Key

inductive MetricError where
  | invalidName (name : String)
  | invalidKind (text : String)
  | invalidValue (kind : Kind) (input : String)
deriving DecidableEq, Repr

def MetricError.message : MetricError → String
  | invalidName name => "invalid metric name '" ++ name ++ "'"
  | invalidKind text => "invalid metric kind '" ++ text ++ "'"
  | invalidValue kind input => "invalid " ++ kind.text ++ " value '" ++ input ++ "'"

def isNameStart (c : Char) : Bool := c.isAlpha || c == '_' || c == ':'

/-- What may follow the first character of a name: the same, or a digit. -/
def isNameRest (c : Char) : Bool := isNameStart c || c.isDigit

/-- The names that metrics may have. -/
def isName (name : String) : Bool :=
  match name.toList with
  | [] => false
  | c :: cs => isNameStart c && cs.all isNameRest

def checkName (name : String) : Except MetricError Unit :=
  if isName name then .ok () else .error (.invalidName name)

/-- The state of a metric. -/
inductive Value where
  | counter (total : Int64)
  | gauge (reading : Binary64)
deriving DecidableEq

namespace Value

def kind : Value → Kind
  | counter _ => .counter
  | gauge _ => .gauge

def zero : Kind → Value
  | .counter => counter 0
  | .gauge => gauge (.zero false)

/-- The plain decimal text of the state. -/
def text : Value → String
  | counter n => String.ofList (Text.int64Digits n)
  | gauge x => String.ofList x.text

def counter? : Value → Option Int64
  | counter n => some n
  | gauge _ => none

def gauge? : Value → Option Binary64
  | counter _ => none
  | gauge x => some x

@[simp] theorem kind_zero (k : Kind) : (zero k).kind = k := by cases k <;> rfl

end Value

/-- What an update brings: a typed number, or a text that is still to be read. -/
inductive Input where
  | int (n : Int64)
  | float (x : Binary64)
  | text (s : String)
deriving DecidableEq

namespace Input

def display : Input → String
  | int n => String.ofList (Text.int64Digits n)
  | float x => String.ofList x.text
  | text s => s

/-- The input as an increment of a counter. A typed fraction never is one. -/
def delta? : Input → Option Int64
  | int n => some n
  | float _ => none
  | text s => (Text.readInt64 (Text.trim s.toList)).toOption

/-- The input as a number that may not be finite. -/
def number? : Input → Option Binary64
  | int n => some (.ofInt n.toInt)
  | float x => some x
  | text s => Binary64.ofText? (Text.trim s.toList)

/-- The input as a reading of a gauge: a finite number. -/
def reading? (i : Input) : Option Binary64 := i.number?.filter Binary64.isFinite

/-- The input that brings a metric from zero to a given state. -/
def ofValue : Value → Input
  | .counter n => int n
  | .gauge x => float x

end Input

def checkedAdd (a b : Int64) : Option Int64 :=
  Text.int64? (a.toInt + b.toInt)

structure Metric where
  name : String
  value : Value
deriving DecidableEq

namespace Metric

def kind (m : Metric) : Kind := m.value.kind

def key (m : Metric) : Key := ⟨m.kind, m.name⟩

def fresh (kind : Kind) (name : String) : Except MetricError Metric :=
  if isName name then .ok ⟨name, .zero kind⟩ else .error (.invalidName name)

/-- A metric before any update, its kind given by name. The kind is looked at first. -/
def parse (kind name : String) : Except MetricError Metric :=
  match Kind.ofText? kind with
  | none => .error (.invalidKind kind)
  | some k => fresh k name

/-- A metric with a given state; a gauge has to be finite. The name is looked at first. -/
def withValue (name : String) (v : Value) : Except MetricError Metric :=
  if isName name then
    match v with
    | .gauge x =>
      if x.isFinite then .ok ⟨name, v⟩ else .error (.invalidValue .gauge (String.ofList x.text))
    | .counter _ => .ok ⟨name, v⟩
  else .error (.invalidName name)

/-- The next state of a value: a counter adds the delta, a gauge takes the reading. -/
def nextValue? (i : Input) : Value → Option Value
  | .counter n => (i.delta?.bind (checkedAdd n)).map .counter
  | .gauge _ => i.reading?.map .gauge

def update (m : Metric) (i : Input) : Except MetricError Metric :=
  match nextValue? i m.value with
  | some v => .ok { m with value := v }
  | none => .error (.invalidValue m.kind i.display)

@[simp] theorem key_mk (name : String) (v : Value) : (Metric.mk name v).key = ⟨v.kind, name⟩ := rfl

theorem fresh_eq_ok_iff {k : Kind} {name : String} {m : Metric} :
    fresh k name = .ok m ↔ isName name ∧ m = ⟨name, .zero k⟩ := by
  unfold fresh
  split
  · next h => simp [h, eq_comm]
  · next h => simp [h]

theorem key_of_fresh {k : Kind} {name : String} {m : Metric} (h : fresh k name = .ok m) :
    m.key = ⟨k, name⟩ := by
  obtain ⟨-, rfl⟩ := fresh_eq_ok_iff.1 h
  simp

theorem kind_nextValue? {i : Input} {v w : Value} (h : nextValue? i v = some w) :
    w.kind = v.kind := by
  cases v with
  | counter n =>
    obtain ⟨_, -, rfl⟩ := Option.map_eq_some_iff.1 h
    rfl
  | gauge x =>
    obtain ⟨_, -, rfl⟩ := Option.map_eq_some_iff.1 h
    rfl

theorem key_update {m m' : Metric} {i : Input} (h : m.update i = .ok m') : m'.key = m.key := by
  unfold update at h
  split at h
  · next v hv => cases h; simp [key, kind, kind_nextValue? hv]
  · simp at h

end Metric
end Telemetry
