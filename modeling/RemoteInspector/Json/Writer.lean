import RemoteInspector.Json.Basic
/-!
The text of a JSON value.
-/
namespace RemoteInspector

namespace Json

/-- Doubles are positional from `1e-5` up to `1e16`, beyond that with a signed exponent, and always
told from integers by a point or an exponent; of two equally near decimals the even one is written. -/
def doubleLayout : Double.Layout where
  tie := .even
  positionalUpTo := some 16
  positionalDownTo := some 5
  positiveMark := "e+"
  negativeMark := "e-"
  wholeTail := ".0"

def hexDigit (n : Nat) : Char :=
  if n < 10 then Char.ofNat (48 + n) else Char.ofNat (87 + n)

def escape (c : Char) : List Char :=
  if c = '"' then ['\\', '"']
  else if c = '\\' then ['\\', '\\']
  else if c = '\n' then ['\\', 'n']
  else if c = '\r' then ['\\', 'r']
  else if c = '\t' then ['\\', 't']
  else if c.toNat = 8 then ['\\', 'b']
  else if c.toNat = 12 then ['\\', 'f']
  else if c.toNat < 32 then
    ['\\', 'u', '0', '0', hexDigit (c.toNat / 16), hexDigit (c.toNat % 16)]
  else [c]

def quote (s : String) : List Char := '"' :: (s.toList.flatMap escape ++ ['"'])

def Number.chars : Number → List Char
  | .int i => (toString i).toList
  | .float d => (doubleLayout.render d).toList

mutual

/-- The text of a value, put before `rest`. -/
def write : Json → List Char → List Char
  | .null, rest => "null".toList ++ rest
  | .bool true, rest => "true".toList ++ rest
  | .bool false, rest => "false".toList ++ rest
  | .num n, rest => Number.chars n ++ rest
  | .str s, rest => quote s ++ rest
  | .arr items, rest => '[' :: writeItems true items (']' :: rest)
  | .obj fields, rest => '\x7b' :: writeFields true fields ('\x7d' :: rest)

def writeItems : Bool → List Json → List Char → List Char
  | _, [], rest => rest
  | true, j :: items, rest => write j (writeItems false items rest)
  | false, j :: items, rest => ',' :: write j (writeItems false items rest)

def writeFields : Bool → List (String × Json) → List Char → List Char
  | _, [], rest => rest
  | true, (key, j) :: fields, rest => quote key ++ ':' :: write j (writeFields false fields rest)
  | false, (key, j) :: fields, rest =>
    ',' :: (quote key ++ ':' :: write j (writeFields false fields rest))

end

def text (j : Json) : String := String.ofList (j.write [])

end Json

end RemoteInspector
