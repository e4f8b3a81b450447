import RemoteInspector.Json.Basic
/-!
Reading JSON text: the first fault in reading order decides. `readValue` holds a value to the nesting
limit, `skipValue` passes over one and checks the grammar alone.
-/
namespace RemoteInspector

/-- Why a text is refused: it is not JSON, it ends early, or it is JSON of another shape. -/
inductive Fault
  | malformed
  | truncated
  | mismatch
  deriving DecidableEq, Repr

namespace Json

def depthLimit : Nat := 127

def isBlank (c : Char) : Bool := c = ' ' || c = '\n' || c = '\t' || c = '\r'

def skipBlanks (cs : List Char) : List Char := cs.dropWhile isBlank

def expect : List Char → List Char → Except Fault (List Char)
  | [], cs => .ok cs
  | _ :: _, [] => .error .truncated
  | e :: es, c :: cs => if c = e then expect es cs else .error .malformed

def digitValue (c : Char) : Nat := c.toNat - 48

def hexValue? (c : Char) : Option Nat :=
  if c.isDigit then some (c.toNat - 48)
  else if 'a' ≤ c ∧ c ≤ 'f' then some (c.toNat - 87)
  else if 'A' ≤ c ∧ c ≤ 'F' then some (c.toNat - 55)
  else none

def byteLength (cs : List Char) : Nat := cs.foldl (fun n c => n + c.utf8Size) 0

/-- Where a reader of strings stands: in plain text, after a backslash, inside the four digits of an
escape, or between the two halves of a surrogate pair. -/
inductive StringMode
  | plain
  | escape
  | hex (count value : Nat) (high : Option Nat)
  | low (high : Nat)
  | lowMark (high : Nat)

def simpleEscape? (c : Char) : Option Char :=
  if c = '"' ∨ c = '\\' ∨ c = '/' then some c
  else if c = 'b' then some (Char.ofNat 8)
  else if c = 'f' then some (Char.ofNat 12)
  else if c = 'n' then some '\n'
  else if c = 'r' then some '\r'
  else if c = 't' then some '\t'
  else none

def isHighSurrogate (n : Nat) : Bool := 0xd800 ≤ n && n ≤ 0xdbff

def isLowSurrogate (n : Nat) : Bool := 0xdc00 ≤ n && n ≤ 0xdfff

def joinSurrogates (high low : Nat) : Char :=
  Char.ofNat ((high - 0xd800) * 0x400 + (low - 0xdc00) + 0x10000)

/-- The text of a string whose opening quote has been taken, from the characters read so far in
reverse. An escape with a wrong digit is malformed if four bytes are left for it and truncated
otherwise. -/
def readChars : StringMode → List Char → List Char → Except Fault (String × List Char)
  | _, _, [] => .error .truncated
  | .plain, acc, c :: cs =>
    if c = '"' then .ok (String.ofList acc.reverse, cs)
    else if c = '\\' then readChars .escape acc cs
    else if c.toNat < 32 then .error .malformed
    else readChars .plain (c :: acc) cs
  | .escape, acc, c :: cs =>
    if c = 'u' then readChars (.hex 0 0 none) acc cs
    else
      match simpleEscape? c with
      | some e => readChars .plain (e :: acc) cs
      | none => .error .malformed
  | .hex count value high, acc, c :: cs =>
    match hexValue? c with
    | none => .error (if count + byteLength (c :: cs) < 4 then .truncated else .malformed)
    | some d =>
      let n := value * 16 + d
      if count < 3 then readChars (.hex (count + 1) n high) acc cs
      else
        match high with
        | some h =>
          if isLowSurrogate n then readChars .plain (joinSurrogates h n :: acc) cs
          else .error .malformed
        | none =>
          if isHighSurrogate n then readChars (.low n) acc cs
          else if isLowSurrogate n then .error .malformed
          else readChars .plain (Char.ofNat n :: acc) cs
  | .low high, acc, c :: cs =>
    if c = '\\' then readChars (.lowMark high) acc cs else .error .malformed
  | .lowMark high, acc, c :: cs =>
    if c = 'u' then readChars (.hex 0 0 (some high)) acc cs else .error .malformed

def readString (cs : List Char) : Except Fault (String × List Char) := readChars .plain [] cs

def skipChars : StringMode → List Char → Except Fault (List Char)
  | _, [] => .error .truncated
  | .escape, c :: cs =>
    if c = 'u' then skipChars (.hex 0 0 none) cs
    else if (simpleEscape? c).isSome then skipChars .plain cs
    else .error .malformed
  | .hex count value high, c :: cs =>
    match hexValue? c with
    | none => .error (if count + byteLength (c :: cs) < 4 then .truncated else .malformed)
    | some _ => if count < 3 then skipChars (.hex (count + 1) value high) cs else skipChars .plain cs
  | _, c :: cs =>
    if c = '"' then .ok cs
    else if c = '\\' then skipChars .escape cs
    else if c.toNat < 32 then .error .malformed
    else skipChars .plain cs

def skipString (cs : List Char) : Except Fault (List Char) := skipChars .plain cs

/-- Appends decimal digits to `n` while the result stays within `limit`; how many were taken. -/
def takeDigits (limit : Nat) : Nat → Nat → List Char → Nat × Nat × List Char
  | n, taken, [] => (n, taken, [])
  | n, taken, c :: cs =>
    if c.isDigit && n * 10 + digitValue c ≤ limit then
      takeDigits limit (n * 10 + digitValue c) (taken + 1) cs
    else (n, taken, c :: cs)

def countDigits (cs : List Char) : Nat := (cs.takeWhile Char.isDigit).length

def skipDigits (cs : List Char) : List Char := cs.dropWhile Char.isDigit

def startsWithDigit : List Char → Bool
  | c :: _ => c.isDigit
  | [] => false

def digitFault : List Char → Fault
  | [] => .truncated
  | _ :: _ => .malformed

def maxWord : Nat := UInt64.size - 1

/-- A decimal that ends here; one beyond the finite doubles is malformed. -/
def finishDouble (negative : Bool) (significand : Nat) (exponent : Int) (cs : List Char) :
    Except Fault (Number × List Char) :=
  match Double.ofDecimal? (Double.ofNat significand) exponent with
  | some d => .ok (.float (if negative then d.neg else d), cs)
  | none => .error .malformed

/-- The exponent of a number, after its mark. One of more than 31 bits makes the number zero or too
large. -/
def readExponent (negative : Bool) (significand : Nat) (exponent : Int) (cs : List Char) :
    Except Fault (Number × List Char) :=
  let (down, cs) :=
    match cs with
    | '+' :: rest => (false, rest)
    | '-' :: rest => (true, rest)
    | _ => (false, cs)
  if startsWithDigit cs then
    let (n, _, rest) := takeDigits (Nat.pow 2 31 - 1) 0 0 cs
    if startsWithDigit rest then
      if significand ≠ 0 && !down then .error .malformed
      else .ok (.float (Double.zero negative), skipDigits rest)
    else finishDouble negative significand (if down then exponent - n else exponent + n) rest
  else .error (digitFault cs)

/-- A number whose mantissa has been read, down to an exponent if there is one. -/
def finishMantissa (negative : Bool) (significand : Nat) (exponent : Int) (cs : List Char) :
    Except Fault (Number × List Char) :=
  match cs with
  | 'e' :: rest | 'E' :: rest => readExponent negative significand exponent rest
  | _ => finishDouble negative significand exponent cs

/-- The places after the point. Digits that no longer fit into 64 bits are dropped. -/
def readPlaces (negative : Bool) (significand : Nat) (exponent : Int) (cs : List Char) :
    Except Fault (Number × List Char) :=
  let (n, taken, rest) := takeDigits maxWord significand 0 cs
  if taken = 0 && !startsWithDigit rest then .error (digitFault rest)
  else finishMantissa negative n (exponent - taken) (skipDigits rest)

def wholeNumber (negative : Bool) (significand : Nat) : Number :=
  if !negative then .int significand
  else if 0 < significand && significand ≤ Nat.pow 2 63 then .int (-significand)
  else .float (Double.ofQuotient true significand 1)

def readNumber (negative : Bool) (cs : List Char) : Except Fault (Number × List Char) :=
  match cs with
  | '0' :: c :: rest =>
    if c.isDigit then .error .malformed else afterWhole 0 0 (c :: rest)
  | _ =>
    if startsWithDigit cs then
      let (n, _, rest) := takeDigits maxWord 0 0 cs
      afterWhole n (countDigits rest) (skipDigits rest)
    else .error (digitFault cs)
where
  afterWhole (n dropped : Nat) : List Char → Except Fault (Number × List Char)
    | '.' :: rest => readPlaces negative n dropped rest
    | cs =>
      match cs with
      | 'e' :: rest | 'E' :: rest => readExponent negative n dropped rest
      | _ =>
        if dropped = 0 then .ok (wholeNumber negative n, cs)
        else finishDouble negative n dropped cs

/-- Passes over a number whose sign has been taken. A digit that is missing makes it malformed, also
at the end of the text. -/
def skipNumber (cs : List Char) : Except Fault (List Char) := do
  let whole ←
    match cs with
    | '0' :: rest => if startsWithDigit rest then .error .malformed else .ok rest
    | _ => if startsWithDigit cs then .ok (skipDigits cs) else .error .malformed
  let places ←
    match whole with
    | '.' :: rest => if startsWithDigit rest then .ok (skipDigits rest) else .error .malformed
    | _ => .ok whole
  match places with
  | 'e' :: rest | 'E' :: rest =>
    let rest :=
      match rest with
      | '+' :: r | '-' :: r => r
      | _ => rest
    if startsWithDigit rest then .ok (skipDigits rest) else .error .malformed
  | _ => .ok places

/-- The next item of an array: `none` at its end, else where the item begins. -/
def nextItem (first : Bool) (cs : List Char) : Except Fault (Option (List Char)) :=
  match skipBlanks cs with
  | [] => .error .truncated
  | ']' :: _ => .ok none
  | ',' :: rest =>
    if first then .ok (some (',' :: rest))
    else
      match skipBlanks rest with
      | [] => .error .truncated
      | ']' :: _ => .error .malformed
      | rest => .ok (some rest)
  | cs => if first then .ok (some cs) else .error .malformed

/-- The next key of an object, its quote taken; `none` at the end of the object. -/
def nextKey (first : Bool) (cs : List Char) : Except Fault (Option (List Char)) :=
  match skipBlanks cs with
  | [] => .error .truncated
  | '\x7d' :: _ => .ok none
  | ',' :: rest => if first then .error .malformed else key (skipBlanks rest)
  | cs => if first then key cs else .error .malformed
where
  key : List Char → Except Fault (Option (List Char))
    | [] => .error .truncated
    | '"' :: rest => .ok (some rest)
    | _ => .error .malformed

def readColon (cs : List Char) : Except Fault (List Char) :=
  match skipBlanks cs with
  | [] => .error .truncated
  | ':' :: rest => .ok rest
  | _ => .error .malformed

/-- The closing mark of an array or object of which nothing is left. -/
def closeWith (mark : Char) (cs : List Char) : Except Fault (List Char) :=
  match skipBlanks cs with
  | [] => .error .truncated
  | c :: rest => if c = mark then .ok rest else .error .malformed

mutual

/-- A value, with at most `depth` levels of nesting. The first argument bounds the steps; the length
of the text is enough. -/
def readValue : Nat → Nat → List Char → Except Fault (Json × List Char)
  | 0, _, _ => .error .truncated
  | fuel + 1, depth, cs =>
    match skipBlanks cs with
    | [] => .error .truncated
    | '"' :: rest => do
        let (s, rest) ← readString rest
        return (.str s, rest)
    | '[' :: rest =>
      match depth with
      | 0 => .error .malformed
      | depth + 1 => do
          let (items, rest) ← readItems fuel depth true rest
          return (.arr items, rest)
    | '\x7b' :: rest =>
      match depth with
      | 0 => .error .malformed
      | depth + 1 => do
          let (fields, rest) ← readFields fuel depth true [] rest
          return (.obj fields, rest)
    | 'n' :: rest => do return (.null, ← expect "ull".toList rest)
    | 't' :: rest => do return (.bool true, ← expect "rue".toList rest)
    | 'f' :: rest => do return (.bool false, ← expect "alse".toList rest)
    | '-' :: rest => do
        let (n, rest) ← readNumber true rest
        return (.num n, rest)
    | c :: rest =>
      if c.isDigit then do
        let (n, rest) ← readNumber false (c :: rest)
        return (.num n, rest)
      else .error .malformed

def readItems : Nat → Nat → Bool → List Char → Except Fault (List Json × List Char)
  | 0, _, _, _ => .error .truncated
  | fuel + 1, depth, first, cs => do
      match ← nextItem first cs with
      | none => return ([], ← closeWith ']' cs)
      | some rest =>
        let (item, rest) ← readValue fuel depth rest
        let (items, rest) ← readItems fuel depth false rest
        return (item :: items, rest)

/-- The later of two members of one key wins. -/
def readFields : Nat → Nat → Bool → Fields → List Char → Except Fault (Fields × List Char)
  | 0, _, _, _, _ => .error .truncated
  | fuel + 1, depth, first, fields, cs => do
      match ← nextKey first cs with
      | none => return (fields, ← closeWith '\x7d' cs)
      | some rest =>
        let (key, rest) ← readString rest
        let (value, rest) ← readValue fuel depth (← readColon rest)
        readFields fuel depth false (fields.insert key value) rest

end

mutual

/-- Passes over a value. The first argument bounds the steps; the length of the text is enough. -/
def skipValue : Nat → List Char → Except Fault (List Char)
  | 0, _ => .error .truncated
  | fuel + 1, cs =>
    match skipBlanks cs with
    | [] => .error .truncated
    | '"' :: rest => skipString rest
    | '[' :: rest => skipItems fuel true rest
    | '\x7b' :: rest => skipFields fuel true rest
    | 'n' :: rest => expect "ull".toList rest
    | 't' :: rest => expect "rue".toList rest
    | 'f' :: rest => expect "alse".toList rest
    | '-' :: rest => skipNumber rest
    | c :: rest => if c.isDigit then skipNumber (c :: rest) else .error .malformed

def skipItems : Nat → Bool → List Char → Except Fault (List Char)
  | 0, _, _ => .error .truncated
  | fuel + 1, first, cs => do
      match ← nextItem first cs with
      | none => closeWith ']' cs
      | some rest => skipItems fuel false (← skipValue fuel rest)

def skipFields : Nat → Bool → List Char → Except Fault (List Char)
  | 0, _, _ => .error .truncated
  | fuel + 1, first, cs => do
      match ← nextKey first cs with
      | none => closeWith '\x7d' cs
      | some rest => skipFields fuel false (← skipValue fuel (← readColon (← skipString rest)))

end

def finish (cs : List Char) : Except Fault Unit :=
  if (skipBlanks cs).isEmpty then .ok () else .error .malformed

def ofChars (cs : List Char) : Except Fault Json := do
  let (value, rest) ← readValue (cs.length + 1) depthLimit cs
  finish rest
  return value

def parse (text : String) : Except Fault Json := ofChars text.toList

end Json

end RemoteInspector
