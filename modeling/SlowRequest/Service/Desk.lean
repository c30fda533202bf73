import SlowRequest.Service.Basic
namespace SlowRequest

/-- What one worker works with: its session, the counters, a listener, and the number that the next
occurrence gets. -/
structure Desk (L : Type) where
  session : DiagnosisSession
  metrics : Metrics
  listener : L
  next : UInt64

namespace Desk

/-- Diagnoses a request, counts it, and tells the listener if there is anything to tell. -/
def process {L : Type} (receive : L → Notice → L) (d : Desk L) (r : DiagnosisRequest) : Desk L :=
  let found := d.session.diagnose d.next r
  ⟨found.session, found.outcome.count d.metrics,
    found.outcome.notice?.elim d.listener (receive d.listener), found.next⟩

end Desk

/-- The desk of a worker with this session, whose listener keeps what it was told. -/
def Service.desk (s : Service) (session : DiagnosisSession) : Desk (Audience × List Notice) :=
  ⟨session, s.metrics, (s.audience, s.notices), s.next⟩

def Audience.hear (heard : Audience × List Notice) (notice : Notice) : Audience × List Notice :=
  ((Audience.notify notice heard.1).1, heard.2 ++ [notice])

end SlowRequest
