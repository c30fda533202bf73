import SlowRequest.Results.Store
import SlowRequest.Schema.Occurrences
import SlowRequest.Service.Metrics
import SlowRequest.Service.Settings
namespace SlowRequest

open Json

namespace ServiceSettings

def toJson (s : ServiceSettings) : Value :=
  .object [
    ("session_workers", .natural s.workers),
    ("queue_capacity", .natural s.queueCapacity),
    ("enqueue_timeout_ms", .natural s.enqueueTimeout.toNat),
    ("enqueue_attempts", .natural s.enqueueAttempts.toNat),
    ("result_capacity", .natural s.resultCapacity)]

def reader : Reader ServiceSettings :=
  record nestingLimit [
    .required "session_workers" (natural Word.limit64) fun x s => { s with workers := x },
    .required "queue_capacity" (natural Word.limit64) fun x s => { s with queueCapacity := x },
    .required "enqueue_timeout_ms" word64 fun x s => { s with enqueueTimeout := x },
    .required "enqueue_attempts" word32 fun x s => { s with enqueueAttempts := x },
    .required "result_capacity" (natural Word.limit64) fun x s => { s with resultCapacity := x }]
    default

end ServiceSettings

namespace Metrics

def toJson (m : Metrics) : Value :=
  .object [
    ("accepted", .natural m.accepted.toNat),
    ("rejected", .natural m.rejected.toNat),
    ("diagnosed", .natural m.diagnosed.toNat),
    ("failed", .natural m.failed.toNat),
    ("results", .natural m.results.toNat)]

def reader : Reader Metrics :=
  record nestingLimit [
    .required "accepted" word64 fun x m => { m with accepted := x },
    .required "rejected" word64 fun x m => { m with rejected := x },
    .required "diagnosed" word64 fun x m => { m with diagnosed := x },
    .required "failed" word64 fun x m => { m with failed := x },
    .required "results" word64 fun x m => { m with results := x }]
    default

end Metrics

namespace OccurrenceQuery

def toJson (q : OccurrenceQuery) : Value :=
  .object [
    ("application_id", .ofOption (fun n => .natural n.toNat) q.application),
    ("business_transaction_id", .ofOption (fun n => .natural n.toNat) q.businessTransaction),
    ("from", .ofOption Instant.toJson q.earliest),
    ("to", .ofOption Instant.toJson q.latest)]

def reader : Reader OccurrenceQuery :=
  record nestingLimit [
    .optional "application_id" (nullable word32) fun x q => { q with application := x },
    .optional "business_transaction_id" (nullable word32) fun x q =>
      { q with businessTransaction := x },
    .optional "from" (nullable Instant.reader) fun x q => { q with earliest := x },
    .optional "to" (nullable Instant.reader) fun x q => { q with latest := x }]
    default

end OccurrenceQuery
end SlowRequest
