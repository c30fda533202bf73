import SlowRequest.Instant.Rfc3339
import SlowRequest.Occurrence.Basic
import SlowRequest.Schema.Findings
namespace SlowRequest

open Json

namespace Instant

def toJson (i : Instant) : Value := .string i.text

def reader : Reader Instant := checked string ofText?

end Instant

namespace CallReference

def toJson (c : CallReference) : Value :=
  .object [
    ("invocation_id", .natural c.invocationId.toNat),
    ("node", c.node.toJson),
    ("method_ident", .natural c.method.toNat),
    ("timer", c.timer.toJson)]

def reader : Reader CallReference :=
  record nestingLimit [
    .required "invocation_id" word64 fun x c => { c with invocationId := x },
    .required "node" NodeId.reader fun x c => { c with node := x },
    .required "method_ident" word64 fun x c => { c with method := x },
    .required "timer" Timer.reader fun x c => { c with timer := x }]
    default

end CallReference

namespace CauseReference

def toJson (c : CauseReference) : Value :=
  .object [
    ("method_ident", .natural c.method.toNat),
    ("sql", .ofOption .string c.statement),
    ("http_uri", .ofOption .string c.uri),
    ("invocation_ids", .array (c.invocationIds.map fun id => .natural id.toNat)),
    ("nodes", .array (c.nodes.map NodeId.toJson)),
    ("exclusive_time", .float c.exclusiveTime),
    ("duration", .float c.duration),
    ("count", .natural c.count)]

def invocations : Reader (List UInt64) := mapped Array.toList (list nestingLimit word64)

def reader : Reader CauseReference :=
  record nestingLimit [
    .required "method_ident" word64 fun x c => { c with method := x },
    .optional "sql" (nullable string) fun x c => { c with statement := x },
    .optional "http_uri" (nullable string) fun x c => { c with uri := x },
    .required "invocation_ids" invocations fun x c => { c with invocationIds := x },
    .required "nodes" nodeIds fun x c => { c with nodes := x },
    .required "exclusive_time" float fun x c => { c with exclusiveTime := x },
    .required "duration" float fun x c => { c with duration := x },
    .required "count" (natural Word.limit64) fun x c => { c with count := x }]
    default

end CauseReference

namespace Occurrence

def toJson (o : Occurrence) : Value :=
  .object [
    ("id", .natural o.id.toNat),
    ("timestamp", o.timestamp.toJson),
    ("request_root", o.requestRoot.toJson),
    ("global_context", o.globalContext.toJson),
    ("problem_context", o.problemContext.toJson),
    ("root_cause", o.rootCause.toJson),
    ("cause_structure", o.causeStructure.toJson),
    ("application_id", .natural o.application.toNat),
    ("business_transaction_id", .natural o.businessTransaction.toNat)]

def reader : Reader Occurrence :=
  record nestingLimit [
    .required "id" word64 fun x o => { o with id := x },
    .required "timestamp" Instant.reader fun x o => { o with timestamp := x },
    .required "request_root" CallReference.reader fun x o => { o with requestRoot := x },
    .required "global_context" CallReference.reader fun x o => { o with globalContext := x },
    .required "problem_context" CallReference.reader fun x o => { o with problemContext := x },
    .required "root_cause" CauseReference.reader fun x o => { o with rootCause := x },
    .required "cause_structure" CauseStructure.reader fun x o => { o with causeStructure := x },
    .required "application_id" word32 fun x o => { o with application := x },
    .required "business_transaction_id" word32 fun x o => { o with businessTransaction := x }]
    default

def write (o : Occurrence) : String := o.toJson.text

def read (text : String) : Except Fault Occurrence := parse reader text

end Occurrence
end SlowRequest
