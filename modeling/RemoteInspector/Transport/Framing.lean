import RemoteInspector.Json.Reader
import RemoteInspector.Json.Writer
import RemoteInspector.Text.Blank
/-!
Packets in a stream of bytes: the length of the text in bytes, in decimal, a colon, and the text.
-/
namespace RemoteInspector

namespace Framing

abbrev Bytes := List UInt8

def colon : UInt8 := 58

def utf8 (s : String) : Bytes := s.toUTF8.toList

def text? (bytes : Bytes) : Option String := String.fromUTF8? ⟨bytes.toArray⟩

def encode (packet : Json) : Bytes :=
  let text := utf8 packet.text
  utf8 (toString text.length) ++ colon :: text

def decimal (digits : List Char) : Nat := digits.foldl (fun n c => 10 * n + (c.toNat - 48)) 0

/-- A length of at most 64 bits; a plus sign may stand before it. -/
def length? (bytes : Bytes) : Option Nat := do
  let text ← text? bytes
  let digits :=
    match (Text.trim text).toList with
    | '+' :: rest => rest
    | cs => cs
  if digits.isEmpty || !digits.all Char.isDigit then none
  else if decimal digits < UInt64.size then some (decimal digits)
  else none

inductive BadPart
  | length
  | encoding
  | json
  deriving DecidableEq, Repr

def BadPart.complaint? : BadPart → Option String
  | length => some "packet length missing / not parsable"
  | encoding => some "stream did not contain valid UTF-8"
  | json => none

inductive Reading
  | packet (packet : Json)
  | malformed (part : BadPart)
  | ended
  deriving Repr

def parse (bytes : Bytes) : Reading :=
  match text? bytes with
  | none => .malformed .encoding
  | some text =>
    match Json.parse text with
    | .ok packet => .packet packet
    | .error _ => .malformed .json

/-- The next packet of a stream, and what is left of it. A stream that ends before a colon has no
more packets. -/
def next (bytes : Bytes) : Reading × Bytes :=
  match bytes.dropWhile (· ≠ colon) with
  | [] => (.ended, [])
  | _ :: rest =>
    match length? (bytes.takeWhile (· ≠ colon)) with
    | none => (.malformed .length, rest)
    | some n => (parse (rest.take n), rest.drop n)

/-- Up to `limit` readings, the last of them the end of the stream if it is reached. -/
def readAll : Nat → Bytes → List Reading
  | 0, _ => []
  | limit + 1, bytes =>
    match next bytes with
    | (.ended, _) => [.ended]
    | (reading, rest) => reading :: readAll limit rest

end Framing

end RemoteInspector
