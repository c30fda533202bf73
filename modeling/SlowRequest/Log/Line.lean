import SlowRequest.Config.Basic
import SlowRequest.Instant.Rfc3339
import SlowRequest.Log.Retention
namespace SlowRequest.Log

def stamp (now : Instant) (parts : Nat) : String :=
  let date := Calendar.ofDays (now.seconds / Instant.secondsPerDay)
  let time := (now.seconds % Instant.secondsPerDay).toNat
  let two := fun n => String.ofList (Instant.padded 2 n)
  let year := String.ofList (Instant.writeYear date.year)
  "-".intercalate
    ([year, two date.month, two date.day, two (time / 3600), two (time / 60 % 60)].take parts)

def currentFile (now : Instant) : LogRotation → String
  | .never => fileName
  | .daily => fileName ++ "." ++ stamp now 3
  | .hourly => fileName ++ "." ++ stamp now 4
  | .minutely => fileName ++ "." ++ stamp now 5

def fileLine (now : Instant) (e : Event) (request : Option UInt64) : String :=
  let span := match request with
    | some request =>
      [("span", Json.Value.object
        [("request_root", .natural request.toNat), ("name", .string "diagnosis")])]
    | none => []
  let fields := ("message", Json.Value.string e.message) :: e.fields
  (Json.Value.object ([("timestamp", .string now.text), ("level", .string e.level.label),
    ("fields", .object fields), ("target", .string e.source.target)] ++ span)).text

def consoleField : String × Json.Value → String
  | (name, .string s) => " " ++ name ++ "=" ++ s
  | (name, v) => " " ++ name ++ "=" ++ v.text

def consoleLine (e : Event) : String :=
  e.level.label ++ " " ++ e.source.target ++ ": " ++ e.message ++
    String.join (e.fields.map consoleField)

end SlowRequest.Log
