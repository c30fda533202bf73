import SlowRequest.Config.File
import SlowRequest.Desktop
import SlowRequest.Log.Line
import SlowRequest.Program.Run
namespace SlowRequest.CommandLine

open scoped SlowRequest.Desktop

def stoppedCode : UInt32 := 134

def exitCode (e : Program.Fault) : UInt32 := e.exitCode?.getD stoppedCode

def instantOf (t : IO.FS.SystemTime) : Instant := ⟨t.sec, t.nsec.toNat⟩

def now : IO Instant := do
  let (_, path) ← IO.FS.createTempFile
  let status ← path.metadata
  IO.FS.removeFile path
  return instantOf status.modified

def processors : IO Nat := do
  match ← (IO.FS.readFile "/proc/cpuinfo").toBaseIO with
  | .ok text =>
    let listed := (text.splitOn "\n").filter fun l => l.startsWith "processor"
    return max 1 listed.length
  | .error _ => return 1

def describe : IO.Error → String
  | .noFileOrDirectory .. => "No such file or directory (os error 2)"
  | .permissionDenied .. => "Permission denied (os error 13)"
  | e => toString e

def readConfiguration (path : String) : IO (Except String Configuration) := do
  match ← (IO.FS.readFile path).toBaseIO with
  | .ok text => return (Configuration.read text).mapError ConfigFault.message
  | .error e => return .error ("Failed to read config file: " ++ describe e)

def loadConfiguration (path : String) : IO Configuration := do
  match ← readConfiguration path with
  | .ok c =>
    IO.println ("✅ Loaded configuration from " ++ path)
    return c
  | .error reason =>
    IO.println ("⚠️ Failed to load " ++ path ++ ": " ++ reason ++ ". Using default configuration")
    return .default

/-- A directory on the disk, seen from the run's own one. -/
def folder (directory : String) : Log.Folder IO IO.Error IO.FS.DirEntry where
  listing := do
    let here ← IO.currentDir
    match ← (here / directory).readDir.toBaseIO with
    | .ok entries => return .items (entries.toList.map .named)
    | .error (.noFileOrDirectory ..) => return .missing
    | .error reason => return .closed reason
  name e := e.fileName
  status e := do
    let status ← e.path.symlinkMetadata.toBaseIO
    return status.map fun m => ⟨m.type == .file, instantOf m.modified⟩
  remove e := (IO.FS.removeFile e.path).toBaseIO

def cleanUpLogs (start : Instant) (settings : LogSettings) : IO (List Log.Event) := do
  let directory := settings.directory
  match ← Log.sweep (folder directory) describe directory start settings.retentionDays with
  | .ok cleaned => return cleaned.events
  | .error e =>
    return [Program.say .warn ("⚠️ Failed to clean up old log files: " ++ describe e) []]

def traceFiles (directory : String) : IO (List TextFile) := do
  let here ← IO.currentDir
  let entries ← (here / directory).readDir
  (entries.toList.filter fun e => isTraceName e.fileName).mapM fun e => do
    return ⟨e.fileName, ← IO.FS.readFile e.path⟩

def setup (start : Instant) (c : Configuration) : IO Program.Setup := do
  let files ← (traceFiles c.traceDirectory).toBaseIO
  return ⟨c, Desktop.machine, ← processors, start, files.mapError describe⟩

def writeLog (start : Instant) (settings : LogSettings) (filter : Log.Filter)
    (entries : List LogEntry) : IO Unit := do
  let entries := Program.visible filter entries
  entries.forM fun e => IO.println (Log.consoleLine e.event)
  let here ← IO.currentDir
  let path := here / settings.directory / Log.currentFile start settings.rotation
  let lines := entries.map fun e => Log.fileLine start e.event (Program.shownRequest filter e)
  let written ← (IO.FS.withFile path .append fun h => lines.forM h.putStrLn).toBaseIO
  if let .error e := written then
    IO.eprintln ("❌ Failed to initialize logging system: " ++ describe e)

def runLogged (start : Instant) (c : Configuration) (filter : Log.Filter) : IO UInt32 := do
  let cleaned ← cleanUpLogs start c.logging
  let (entries, fault) := Program.entries (← setup start c)
  writeLog start c.logging filter (cleaned.map (⟨·, none⟩) ++ entries)
  match fault with
  | none => return 0
  | some e =>
    if !e.isReported then IO.eprintln e.message
    return exitCode e

def run (args : List String) : IO UInt32 := do
  let c ← loadConfiguration (args.headD "config.toml")
  let start ← now
  let here ← IO.currentDir
  let _ ← (IO.FS.createDirAll (here / c.logging.directory)).toBaseIO
  match Program.filter? c with
  | .ok filter => runLogged start c filter
  | .error e =>
    IO.eprintln e.message
    return exitCode e

end SlowRequest.CommandLine

def main (args : List String) : IO UInt32 := SlowRequest.CommandLine.run args
