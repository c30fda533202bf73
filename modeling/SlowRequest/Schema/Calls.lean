import SlowRequest.Aggregate
import SlowRequest.Json.Record
import SlowRequest.Json.Value
namespace SlowRequest

open Json

def NodeId.toJson (id : NodeId) : Value := .natural id.index

def NodeId.reader : Reader NodeId := mapped NodeId.mk (natural Word.limit32)

def nodeIds : Reader (List NodeId) := mapped Array.toList (list nestingLimit NodeId.reader)

namespace Timer

def toJson (t : Timer) : Value :=
  .object [
    ("duration", .float t.duration),
    ("exclusive_duration", .ofOption .float t.exclusive),
    ("cpu_duration", .float t.cpu),
    ("count", .natural t.count.toNat)]

def reader : Reader Timer :=
  record nestingLimit [
    .required "duration" float fun x t => { t with duration := x },
    .optional "exclusive_duration" (nullable float) fun x t => { t with exclusive := x },
    .required "cpu_duration" float fun x t => { t with cpu := x },
    .required "count" word64 fun x t => { t with count := x }]
    default

end Timer

namespace Measurement

def toJson : Measurement → Value
  | none => .string "None"
  | timer t => .object [("Timer", t.toJson)]
  | sql t s => .object [("Sql", .object [("timer", t.toJson), ("sql", .string s)])]
  | http t uri requestMethod =>
    .object [("Http", .object [
      ("timer", t.toJson),
      ("uri", .string uri),
      ("request_method", .string requestMethod)])]

def sqlReader : Reader Measurement :=
  mapped (fun (t, s) => .sql t s) (record nestingLimit [
    .required "timer" Timer.reader fun x m => (x, m.2),
    .required "sql" string fun x m => (m.1, x)]
    (default, ""))

def httpReader : Reader Measurement :=
  mapped (fun (t, uri, requestMethod) => .http t uri requestMethod) (record nestingLimit [
    .required "timer" Timer.reader fun x m => (x, m.2),
    .required "uri" string fun x m => (m.1, x, m.2.2),
    .required "request_method" string fun x m => (m.1, m.2.1, x)]
    (default, "", ""))

def reader : Reader Measurement :=
  tagged [
    ("None", .bare .none),
    ("Timer", .carrying (mapped .timer Timer.reader)),
    ("Sql", .carrying sqlReader),
    ("Http", .carrying httpReader)]

end Measurement

namespace OperationKey

def toJson (k : OperationKey) : Value :=
  .object [
    ("method_ident", .natural k.method.toNat),
    ("sql", .ofOption .string k.statement),
    ("http_uri", .ofOption .string k.uri)]

def reader : Reader OperationKey :=
  record nestingLimit [
    .required "method_ident" word64 fun x k => { k with method := x },
    .optional "sql" (nullable string) fun x k => { k with statement := x },
    .optional "http_uri" (nullable string) fun x k => { k with uri := x }]
    default

end OperationKey

namespace Aggregate

def toJson (a : Aggregate) : Value :=
  .object [
    ("key", a.key.toJson),
    ("members", .array (a.members.toList.map NodeId.toJson)),
    ("exclusive_times", .array (a.exclusiveTimes.toList.map .float)),
    ("exclusive_time", .float a.exclusiveTime),
    ("duration", .float a.duration)]

def reader : Reader Aggregate :=
  record nestingLimit [
    .required "key" OperationKey.reader fun x a => { a with key := x },
    .required "members" (list nestingLimit NodeId.reader) fun x a => { a with members := x },
    .required "exclusive_times" (list nestingLimit float) fun x a => { a with exclusiveTimes := x },
    .required "exclusive_time" float fun x a => { a with exclusiveTime := x },
    .required "duration" float fun x a => { a with duration := x }]
    default

end Aggregate
end SlowRequest
