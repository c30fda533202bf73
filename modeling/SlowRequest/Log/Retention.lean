import SlowRequest.Instant
import SlowRequest.Log.Event
import SlowRequest.Word
/-!
# Log retention

Log files that have not been touched for some days are removed. All of the directory is looked at
before anything is removed, and files of other names stay. What a clean-up does is written over the
operations of a file system; a directory kept in memory has them too.
-/
namespace SlowRequest.Log

def fileName : String := "trace_diagnosis.log"

/-- The log file and its parts, which carry their period behind a point. -/
def isLogFile (name : String) : Bool :=
  name == fileName || (fileName.toList ++ ['.']).isPrefixOf name.toList

structure FileStatus where
  isFile : Bool
  modified : Instant
  deriving Repr

inductive Item (E H : Type) where
  | named (entry : H)
  /-- An entry whose name is no text. -/
  | nameless
  /-- An entry that cannot be read. -/
  | fault (reason : E)

def Item.handle? {E H : Type} : Item E H → Option H
  | named entry => some entry
  | _ => none

inductive Listing (E H : Type) where
  | missing
  | closed (reason : E)
  | items (items : List (Item E H))

structure Folder (m : Type → Type) (E H : Type) where
  listing : m (Listing E H)
  name : H → String
  status : H → m (Except E FileStatus)
  remove : H → m (Except E Unit)

def secondsPerDay : Nat := 86400

def firstSecond : Int := -(Word.signBit : Int)

/-- Files last touched before this instant are removed. There is none if it cannot be told. -/
def cutoff? (now : Instant) (retentionDays : Nat) : Option Instant :=
  let seconds := now.seconds - (retentionDays * secondsPerDay : Nat)
  if seconds < firstSecond then none else some { now with seconds := seconds }

structure Cleanup where
  removed : List String
  events : List Event

namespace Cleanup

def nothing : Cleanup := ⟨[], []⟩

def after {E : Type} (describe : E → String) (directory name : String) (result : Except E Unit)
    (later : Cleanup) : Cleanup :=
  let path := ("path", Json.Value.string (directory ++ "/" ++ name))
  match result with
  | .ok _ =>
    ⟨name :: later.removed,
      ⟨.debug, .retention, "Removed expired log file", [path]⟩ :: later.events⟩
  | .error reason =>
    ⟨later.removed, ⟨.warn, .retention, "⚠️ Could not remove log file",
      [path, ("error", .string (describe reason))]⟩ :: later.events⟩

def summarized (retentionDays : Nat) (c : Cleanup) : Cleanup :=
  if c.removed.isEmpty then c
  else { c with events := c.events ++ [⟨.info, .retention, "🧹 Expired log files removed",
    [("removed", .natural c.removed.length), ("retention_days", .natural retentionDays)]⟩] }

end Cleanup

section

variable {m : Type → Type} [Monad m] {E H : Type} (folder : Folder m E H)

/-- The log files among items, with the times they were last touched. An entry that cannot be read,
or a log file that does not tell its status, ends the search. -/
def collect : List (Item E H) → ExceptT E m (List (H × Instant))
  | [] => return []
  | .named entry :: items =>
    if isLogFile (folder.name entry) then do
      let status ← ExceptT.mk (folder.status entry)
      let files ← collect items
      return if status.isFile then (entry, status.modified) :: files else files
    else collect items
  | .nameless :: items => collect items
  | .fault reason :: _ => throw reason

/-- A missing directory has no files. -/
def logFiles : ExceptT E m (List (H × Instant)) := do
  match ← ExceptT.lift folder.listing with
  | .missing => return []
  | .closed reason => throw reason
  | .items items => collect folder items

def expired (limit : Instant) (files : List (H × Instant)) : List H :=
  let ordered := files.mergeSort fun a b => decide (folder.name a.1 ≤ folder.name b.1)
  (ordered.filter fun f => !limit.le f.2).map Prod.fst

def removeAll (describe : E → String) (directory : String) : List H → m Cleanup
  | [] => return .nothing
  | entry :: entries => do
    let result ← folder.remove entry
    let later ← removeAll describe directory entries
    return later.after describe directory (folder.name entry) result

def sweep (describe : E → String) (directory : String) (now : Instant) (retentionDays : Nat) :
    ExceptT E m Cleanup :=
  if retentionDays = 0 then return .nothing
  else match cutoff? now retentionDays with
  | none => return .nothing
  | some limit => do
    let files ← logFiles folder
    let cleaned ← ExceptT.lift (removeAll folder describe directory (expired folder limit files))
    return cleaned.summarized retentionDays

end

/-! ## Directories in memory -/

/-- A directory entry, with what the file system answers when asked about it. -/
structure DirectoryEntry (E : Type) where
  name : String
  status : Except E FileStatus
  /-- Why it cannot be removed, if so. -/
  obstacle : Option E

def Directory (E : Type) : Type := Listing E (DirectoryEntry E)

namespace Directory

variable {E : Type}

def ok (entries : List (DirectoryEntry E)) : Directory E := Listing.items (entries.map .named)

def without (name : String) : Directory E → Directory E
  | .items items =>
    Listing.items (items.filter fun item => item.handle?.all fun e => e.name != name)
  | d => d

def folder : Folder (StateM (Directory E)) E (DirectoryEntry E) where
  listing := get
  name e := e.name
  status e := return e.status
  remove e := do
    match e.obstacle with
    | none =>
      modify (without e.name)
      return .ok ()
    | some reason => return .error reason

end Directory

def cleanUp {E : Type} (describe : E → String) (directory : String) (now : Instant)
    (retentionDays : Nat) (d : Directory E) : Except E Cleanup :=
  ((sweep Directory.folder describe directory now retentionDays).run.run d).1

end SlowRequest.Log
