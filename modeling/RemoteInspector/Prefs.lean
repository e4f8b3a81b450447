import RemoteInspector.Json.Reader
/-!
The settings of a server, read from JSON text as an object, whose missing members keep their defaults,
or as an array, cut short at will.
-/
namespace RemoteInspector

structure Prefs where
  bindAddress : String := "127.0.0.1"
  port : Nat := 6080
  /-- Longer node values are cut and marked incomplete. -/
  valueSummaryLength : Nat := 50
  /-- Strings of at least this length are handed out in slices. -/
  longStringLength : Nat := 10000
  /-- How much of a long string is sent at once. -/
  longStringInitialLength : Nat := 1000
  cacheConsoleMessages : Bool := true
  /-- The most messages kept for a page; older ones go first. -/
  consoleCacheLimit : Nat := 1000
  deriving DecidableEq, Repr, Inhabited

namespace Prefs

inductive Setting
  | bindAddress
  | port
  | valueSummaryLength
  | longStringLength
  | longStringInitialLength
  | cacheConsoleMessages
  | consoleCacheLimit
  deriving DecidableEq, Repr

namespace Setting

def all : List Setting :=
  [bindAddress, port, valueSummaryLength, longStringLength, longStringInitialLength,
    cacheConsoleMessages, consoleCacheLimit]

def key : Setting → String
  | bindAddress => "bind_address"
  | port => "port"
  | valueSummaryLength => "value_summary_length"
  | longStringLength => "long_string_length"
  | longStringInitialLength => "long_string_initial_length"
  | cacheConsoleMessages => "cache_console_messages"
  | consoleCacheLimit => "console_cache_limit"

def ofKey? (key : String) : Option Setting := all.find? (·.key = key)

end Setting

def toJson (p : Prefs) : Json :=
  .object [("bind_address", .str p.bindAddress), ("port", .nat p.port),
    ("value_summary_length", .nat p.valueSummaryLength),
    ("long_string_length", .nat p.longStringLength),
    ("long_string_initial_length", .nat p.longStringInitialLength),
    ("cache_console_messages", .bool p.cacheConsoleMessages),
    ("console_cache_limit", .nat p.consoleCacheLimit)]

/-- Reads as much of a value as its kind needs to be told, and refuses it. -/
def refuse {α : Type} (cs : List Char) : Except Fault α :=
  match cs with
  | '[' :: _ | '\x7b' :: _ => .error .mismatch
  | _ => do
      let _ ← Json.readValue 1 0 cs
      .error .mismatch

def readText (cs : List Char) : Except Fault (String × List Char) :=
  match Json.skipBlanks cs with
  | '"' :: rest => Json.readString rest
  | cs => refuse cs

def readFlag (cs : List Char) : Except Fault (Bool × List Char) :=
  match Json.skipBlanks cs with
  | 't' :: rest => do return (true, ← Json.expect "rue".toList rest)
  | 'f' :: rest => do return (false, ← Json.expect "alse".toList rest)
  | cs => refuse cs

def readCount (limit : Nat) (cs : List Char) : Except Fault (Nat × List Char) := do
  let cs := Json.skipBlanks cs
  let (number, rest) ←
    match cs with
    | '-' :: rest => Json.readNumber true rest
    | _ => if Json.startsWithDigit cs then Json.readNumber false cs else refuse cs
  match number with
  | .int (.ofNat n) => if n ≤ limit then return (n, rest) else .error .mismatch
  | _ => .error .mismatch

def readSetting (p : Prefs) (cs : List Char) : Setting → Except Fault (Prefs × List Char)
  | .bindAddress => do
      let (s, rest) ← readText cs
      return ({ p with bindAddress := s }, rest)
  | .port => do
      let (n, rest) ← readCount 65535 cs
      return ({ p with port := n }, rest)
  | .valueSummaryLength => do
      let (n, rest) ← readCount Json.maxWord cs
      return ({ p with valueSummaryLength := n }, rest)
  | .longStringLength => do
      let (n, rest) ← readCount Json.maxWord cs
      return ({ p with longStringLength := n }, rest)
  | .longStringInitialLength => do
      let (n, rest) ← readCount Json.maxWord cs
      return ({ p with longStringInitialLength := n }, rest)
  | .cacheConsoleMessages => do
      let (b, rest) ← readFlag cs
      return ({ p with cacheConsoleMessages := b }, rest)
  | .consoleCacheLimit => do
      let (n, rest) ← readCount Json.maxWord cs
      return ({ p with consoleCacheLimit := n }, rest)

/-- The members of an object. A setting given twice is refused at its second key, a member that is
no setting is passed over. -/
def readMembers : Nat → Bool → List Setting → Prefs → List Char → Except Fault (Prefs × List Char)
  | 0, _, _, _, _ => .error .truncated
  | fuel + 1, first, seen, p, cs => do
      match ← Json.nextKey first cs with
      | none => return (p, ← Json.closeWith '\x7d' cs)
      | some rest =>
        let (key, rest) ← Json.readString rest
        match Setting.ofKey? key with
        | none =>
          let rest ← Json.skipValue fuel (← Json.readColon rest)
          readMembers fuel false seen p rest
        | some setting =>
          if setting ∈ seen then .error .mismatch
          else
            let (p, rest) ← readSetting p (← Json.readColon rest) setting
            readMembers fuel false (setting :: seen) p rest

/-- The items of an array, as many as there are up to one for each setting. -/
def readItems : List Setting → Bool → Prefs → List Char → Except Fault (Prefs × List Char)
  | [], _, p, cs => do return (p, ← Json.closeWith ']' cs)
  | setting :: rest, first, p, cs => do
      match ← Json.nextItem first cs with
      | none => return (p, ← Json.closeWith ']' cs)
      | some item =>
        let (p, cs) ← readSetting p item setting
        readItems rest false p cs

def ofChars (cs : List Char) : Except Fault Prefs := do
  let (p, rest) ←
    match Json.skipBlanks cs with
    | '[' :: rest => readItems Setting.all true {} rest
    | '\x7b' :: rest => readMembers (cs.length + 1) true [] {} rest
    | cs => refuse cs
  Json.finish rest
  return p

def parse (text : String) : Except Fault Prefs := ofChars text.toList

/-- The settings of a file's bytes: the defaults if they are no text or do not parse. -/
def ofBytes (bytes : ByteArray) : Prefs :=
  match String.fromUTF8? bytes with
  | some text => (parse text).toOption.getD {}
  | none => {}

end Prefs

end RemoteInspector
