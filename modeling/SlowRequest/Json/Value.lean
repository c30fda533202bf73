import SlowRequest.Decimal.Notation
namespace SlowRequest.Json

inductive Value where
  | null
  | bool (b : Bool)
  | integer (n : Int)
  | float (x : Float)
  | string (s : String)
  | array (xs : List Value)
  | object (members : List (String × Value))
  deriving Repr, Inhabited

def hexDigit (n : Nat) : Char := if n < 10 then Char.ofNat (n + 48) else Char.ofNat (n + 87)

/-- Quotes, backslashes and control characters are escaped, all else stands for itself. -/
def escapeChar (c : Char) : List Char :=
  match c with
  | '"' => ['\\', '"']
  | '\\' => ['\\', '\\']
  | '\x08' => ['\\', 'b']
  | '\x0c' => ['\\', 'f']
  | '\n' => ['\\', 'n']
  | '\r' => ['\\', 'r']
  | '\t' => ['\\', 't']
  | c => if c < ' ' then ['\\', 'u', '0', '0', hexDigit (c.toNat / 16), hexDigit (c.toNat % 16)]
    else [c]

def writeString (s : String) : List Char := '"' :: (s.toList.flatMap escapeChar ++ ['"'])

def writeFloat (x : Float) : List Char :=
  if x.isNaN || x.isInf then "null".toList else Decimal.json x

namespace Value

def natural (n : Nat) : Value := integer n

def ofOption {α : Type} (f : α → Value) : Option α → Value
  | some x => f x
  | none => null

mutual

def render : Value → List Char
  | null => "null".toList
  | bool true => "true".toList
  | bool false => "false".toList
  | integer n => (toString n).toList
  | float x => writeFloat x
  | string s => writeString s
  | array xs => '[' :: (renderElements xs ++ [']'])
  | object ms => '\x7b' :: (renderMembers ms ++ ['\x7d'])

def renderElements : List Value → List Char
  | [] => []
  | [x] => x.render
  | x :: y :: xs => x.render ++ ',' :: renderElements (y :: xs)

def renderMembers : List (String × Value) → List Char
  | [] => []
  | [(name, x)] => writeString name ++ ':' :: x.render
  | (name, x) :: m :: ms => writeString name ++ ':' :: (x.render ++ ',' :: renderMembers (m :: ms))

end

def text (v : Value) : String := String.ofList v.render

end Value
end SlowRequest.Json
