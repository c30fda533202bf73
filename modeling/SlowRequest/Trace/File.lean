import SlowRequest.Results.NameTable
import SlowRequest.Schema.Occurrences
import SlowRequest.Trace.Span
namespace SlowRequest

open Json

structure TraceFile where
  methods : List (UInt64 × String)
  applications : List (UInt32 × String)
  root : Span
  deriving Repr, Inhabited

/-- Puts a name in its place; it replaces one of the same number. -/
def placeName (number : Nat) (name : String) : List (Nat × String) → List (Nat × String)
  | [] => [(number, name)]
  | (n, other) :: rest =>
    if number < n then (number, name) :: (n, other) :: rest
    else if number = n then (number, name) :: rest
    else (n, other) :: placeName number name rest

def namesInOrder (names : List (Nat × String)) : List (Nat × String) :=
  names.foldl (fun placed (n, name) => placeName n name placed) []

namespace Span

abbrev SpanField := RecordField (SpanRecord × List Span)

def recordFields : List SpanField :=
  [.required "method" word64 fun x s => ({ s.1 with method := x }, s.2),
    .required "duration" float fun x s => ({ s.1 with duration := x }, s.2),
    .defaulted "exclusive" (nullable float) fun x s => ({ s.1 with exclusive := x }, s.2),
    .defaulted "sql" (nullable string) fun x s => ({ s.1 with statement := x }, s.2),
    .defaulted "http_uri" (nullable string) fun x s => ({ s.1 with uri := x }, s.2),
    .defaulted "invocation_id" (nullable word64) fun x s => ({ s.1 with invocationId := x }, s.2),
    .defaulted "timestamp" (nullable Instant.reader) fun x s => ({ s.1 with timestamp := x }, s.2),
    .defaulted "application_id" word32 fun x s => ({ s.1 with application := x }, s.2),
    .defaulted "business_transaction_id" word32 fun x s =>
      ({ s.1 with businessTransaction := x }, s.2)]

def childrenField (room : Nat) (read : Reader Span) : SpanField :=
  .defaulted "children" (list room read) fun x s => (s.1, x.toList)

def fields (children : SpanField) : List SpanField := recordFields ++ [children]

def reader : Nat → Reader Span
  | 0 => mapped (fun s => mk s.1 s.2) (record 0 [] (default, []))
  | 1 =>
    let childless := childrenField 0 fun _ => .error .malformed
    mapped (fun s => mk s.1 s.2) (record 1 (fields childless) (default, []))
  | room + 2 =>
    let children := childrenField (room + 1) (reader room)
    mapped (fun s => mk s.1 s.2) (record (room + 2) (fields children) (default, []))

mutual

def toJson : Span → Value
  | mk r cs =>
    .object [
      ("method", .natural r.method.toNat),
      ("duration", .float r.duration),
      ("exclusive", .ofOption .float r.exclusive),
      ("sql", .ofOption .string r.statement),
      ("http_uri", .ofOption .string r.uri),
      ("invocation_id", .ofOption (fun n => .natural n.toNat) r.invocationId),
      ("timestamp", .ofOption Instant.toJson r.timestamp),
      ("application_id", .natural r.application.toNat),
      ("business_transaction_id", .natural r.businessTransaction.toNat),
      ("children", .array (allToJson cs))]

def allToJson : List Span → List Value
  | [] => []
  | s :: ss => s.toJson :: allToJson ss

end

end Span

namespace TraceFile

def names (limit : Nat) : Reader (List (Nat × String)) :=
  mapped namesInOrder (numericMap (nestingLimit - 1) limit string)

def reader : Reader TraceFile :=
  record nestingLimit [
    .defaulted "methods" (names Word.limit64) fun x f =>
      { f with methods := x.map fun (n, name) => (UInt64.ofNat n, name) },
    .defaulted "applications" (names Word.limit32) fun x f =>
      { f with applications := x.map fun (n, name) => (UInt32.ofNat n, name) },
    .required "root" (Span.reader (nestingLimit - 1)) fun x f => { f with root := x }]
    default

def read (text : String) : Except Fault TraceFile := parse reader text

def toJson (f : TraceFile) : Value :=
  .object [
    ("methods", .object (f.methods.map fun (n, name) => (toString n, .string name))),
    ("applications", .object (f.applications.map fun (n, name) => (toString n, .string name))),
    ("root", f.root.toJson)]

def addNames (f : TraceFile) (t : NameTable) : NameTable :=
  let t := f.methods.foldl (fun t (n, name) => t.insertMethod n name) t
  f.applications.foldl (fun t (n, name) => t.insertApplication n name) t

end TraceFile
end SlowRequest
