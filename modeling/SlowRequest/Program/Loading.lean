import SlowRequest.Log.Event
import SlowRequest.Trace.File
namespace SlowRequest

structure TextFile where
  name : String
  text : String
  deriving Repr

/-- A name with the extension of trace files; the extension alone is no such name. -/
def isTraceName (name : String) : Bool :=
  let extension := ".json".toList
  extension.isSuffixOf name.toList && decide (extension.length < name.length)

def pathIn (directory name : String) : String :=
  if directory.isEmpty || directory.toList.getLast? == some '/' then directory ++ name
  else directory ++ "/" ++ name

def traceTexts (files : List TextFile) : List TextFile :=
  (files.filter fun f => isTraceName f.name).mergeSort fun a b => decide (a.name ≤ b.name)

structure LoadedTrace where
  path : String
  trace : TraceFile

def unreadable (path : String) (e : Json.Fault) : Log.Event :=
  ⟨.warn, .commandLine, "⚠️ Failed to parse " ++ path ++ ": " ++ e.message, []⟩

def readTraces (directory : String) : List TextFile → List LoadedTrace × List Log.Event
  | [] => ([], [])
  | f :: fs =>
    let (traces, events) := readTraces directory fs
    let path := pathIn directory f.name
    match TraceFile.read f.text with
    | .ok trace => (⟨path, trace⟩ :: traces, events)
    | .error e => (traces, unreadable path e :: events)

def loadTraces (directory : String) (files : List TextFile) :
    List LoadedTrace × List Log.Event :=
  readTraces directory (traceTexts files)

/-- The names given by traces; later traces have the last word. -/
def namesOf (traces : List LoadedTrace) : NameTable :=
  traces.foldl (fun t loaded => loaded.trace.addNames t) .empty

end SlowRequest
