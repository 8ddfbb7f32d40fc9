import Telemetry.Metric.Report
import Telemetry.Wire.Field

/-!
The messages of the metric service. Texts are left out when empty and optional numbers when absent;
of a field that comes twice the last one counts. Fields with other numbers are passed over, but a
field in the wrong form makes the whole message unreadable.
-/
namespace Telemetry

/-- A single update with its value as text. -/
structure UpdateRequest where
  kind : String
  name : String
  value : String
deriving DecidableEq, Repr

namespace Wire

/-- How deep messages and groups may be nested. -/
def maxDepth : Nat := 100

def Payload.string? : Payload → Option String
  | text b => b.toText?
  | _ => none

def Payload.int64? : Payload → Option Int64
  | varint n => some (Int64.ofInt n)
  | _ => none

def Payload.binary64? : Payload → Option Binary64
  | word64 b => some (.ofBits (Bytes.ofLittleEndian b))
  | _ => none

def Payload.bytes? : Payload → Option Bytes
  | text b => some b
  | _ => none

end Wire

namespace UpdateRequest
open Wire

def encode (r : UpdateRequest) : Bytes :=
  writeString 1 r.kind ++ writeString 2 r.name ++ writeString 3 r.value

def addField? (r : UpdateRequest) (f : Field) : Option UpdateRequest :=
  match f.number with
  | 1 => f.payload.string?.map fun s => { r with kind := s }
  | 2 => f.payload.string?.map fun s => { r with name := s }
  | 3 => f.payload.string?.map fun s => { r with value := s }
  | _ => some r

def decode? (bs : Bytes) : Option UpdateRequest :=
  (fields? maxDepth bs).bind fun fs => fs.foldlM addField? ⟨"", "", ""⟩

end UpdateRequest

namespace Record
open Wire

def encode (r : Record) : Bytes :=
  writeString 1 r.id ++ writeString 2 r.kind ++
    (match r.delta with
      | some n => writeVarint 3 n.toUInt64.toNat
      | none => []) ++
    (match r.value with
      | some x => writeWord64 4 x.toBits
      | none => [])

def addField? (r : Record) (f : Field) : Option Record :=
  match f.number with
  | 1 => f.payload.string?.map fun s => { r with id := s }
  | 2 => f.payload.string?.map fun s => { r with kind := s }
  | 3 => f.payload.int64?.map fun n => { r with delta := some n }
  | 4 => f.payload.binary64?.map fun x => { r with value := some x }
  | _ => some r

/-- A record, nested `depth` levels below the limit. -/
def decode? (depth : Nat) (bs : Bytes) : Option Record :=
  (fields? depth bs).bind fun fs => fs.foldlM addField? ⟨"", "", none, none⟩

def encodeList (rs : List Record) : Bytes := rs.flatMap fun r => writeText 1 r.encode

/-- Takes one field into a list of records, the last first. -/
def addRecord? (rs : List Record) (f : Field) : Option (List Record) :=
  match f.number with
  | 1 => (f.payload.bytes?.bind (decode? (maxDepth - 1))).map (· :: rs)
  | _ => some rs

def decodeList? (bs : Bytes) : Option (List Record) :=
  ((fields? maxDepth bs).bind fun fs => fs.foldlM addRecord? []).map List.reverse

end Record
end Telemetry
