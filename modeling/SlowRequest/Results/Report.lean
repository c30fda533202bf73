import SlowRequest.Decimal.Notation
import SlowRequest.Occurrence.Basic
import SlowRequest.Results.NameTable
namespace SlowRequest

namespace NameTable

def methodText (t : NameTable) (method : UInt64) : String :=
  (t.method? method).getD ("<method " ++ toString method ++ ">")

def applicationText (t : NameTable) (application : UInt32) : String :=
  (t.application? application).getD ("<application " ++ toString application ++ ">")

def businessTransactionText (t : NameTable) (application transaction : UInt32) : String :=
  (t.businessTransaction? application transaction).getD
    ("<business transaction " ++ toString transaction ++ ">")

def callLine (t : NameTable) (label : String) (c : CallReference) : String :=
  "  " ++ label ++ " " ++ t.methodText c.method ++ " ("
    ++ Decimal.oneDecimal c.timer.duration ++ " ms)"

def bracketed : Option String → String
  | some text => " [" ++ text ++ "]"
  | none => ""

def causeLine (t : NameTable) (c : CauseReference) : String :=
  "  root cause:      " ++ t.methodText c.method ++ " x" ++ toString c.count ++ " ("
    ++ Decimal.oneDecimal c.exclusiveTime ++ " ms exclusive)" ++ bracketed c.statement
    ++ bracketed c.uri

def report (t : NameTable) (o : Occurrence) : String :=
  "\n".intercalate [
    "Problem occurrence " ++ toString o.id ++ " in " ++ t.applicationText o.application ++ " / "
      ++ t.businessTransactionText o.application o.businessTransaction,
    t.callLine "request root:   " o.requestRoot,
    t.callLine "global context: " o.globalContext,
    t.callLine "problem context:" o.problemContext,
    t.causeLine o.rootCause,
    "  structure:       " ++ o.causeStructure.type.label ++ " (depth "
      ++ toString o.causeStructure.depth ++ ")"]

end NameTable
end SlowRequest
