import RemoteInspector.Console.Message
/-!
Pages: what a server knows of one tab from the moment its host announced it. A tab announced again is
a new page, with a cache of its own.
-/
namespace RemoteInspector

abbrev TabId := Nat

def TabId.label (tab : TabId) : String := "tab" ++ toString tab

structure PageInfo where
  title : String
  url : String
  deriving DecidableEq, Repr

namespace PageInfo

def toJson (i : PageInfo) : Json := .object [("title", .str i.title), ("url", .str i.url)]

def ofJson? (j : Json) : Option PageInfo := do
  let r ← Record.ofJson? 2 j
  return { title := ← r.required 0 "title" Json.string?, url := ← r.required 1 "url" Json.string? }

end PageInfo

abbrev PageId := Nat

structure Page where
  tab : TabId
  host : String
  info : PageInfo
  /-- The messages kept, oldest first. -/
  cache : List CachedMessage := []
  deriving DecidableEq, Repr

namespace Page

/-- Keeps one more message, and of all no more than the last `limit`. -/
def remember (p : Page) (message : CachedMessage) (limit : Nat) : Page :=
  let cache := p.cache ++ [message]
  { p with cache := cache.drop (cache.length - limit) }

/-- The messages in order of their time stamps, those of one time in order of arrival. -/
def inOrder (p : Page) : List CachedMessage :=
  p.cache.mergeSort fun a b => decide (a.timeStamp ≤ b.timeStamp)

end Page

end RemoteInspector
