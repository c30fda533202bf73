import SlowRequest.Results.Listener
namespace SlowRequest

def Notice.occurrences : Notice → List Occurrence
  | result o => [o]
  | results batch => batch
  | failure _ => []

/-- What befalls an audience: it is told of something, or its stores are cleared. -/
inductive Happening where
  | told (notice : Notice)
  | cleared

def OccurrenceStore.meet (s : OccurrenceStore) : Happening → OccurrenceStore
  | .told notice => notice.occurrences.foldl insert s
  | .cleared => s.clear

namespace Listener

def hear (l : Listener) (o : Occurrence) : Listener := (l.takeOne o).1

def clear : Listener → Listener
  | store s => store s.clear
  | l => l

def meet (l : Listener) : Happening → Listener
  | .told notice => (l.receive notice).1
  | .cleared => l.clear

def after (l : Listener) (happenings : List Happening) : Listener := happenings.foldl meet l

end Listener

namespace Audience

def told (audience : Audience) (notices : List Notice) : Audience :=
  notices.foldl (fun audience notice => (notify notice audience).1) audience

def meet (audience : Audience) : Happening → Audience
  | .told notice => (notify notice audience).1
  | .cleared => audience.map Listener.clear

/-- The audience after all that befell it. -/
def after (audience : Audience) (happenings : List Happening) : Audience :=
  happenings.foldl meet audience

end Audience
end SlowRequest
