import TradingLoad.Json.Token
import TradingLoad.Text.Utf8

namespace TradingLoad.Url

open Text

/-- An octet as a percent sign and two digits. -/
def escapeOctet (b : UInt8) : List Char :=
  ['%', (Nat.digitChar (b.toNat / 16)).toUpper, (Nat.digitChar (b.toNat % 16)).toUpper]

def escapeChar (c : Char) : List Char := (String.utf8EncodeChar c).flatMap escapeOctet

/-- Control characters, and all characters outside of ASCII: no part of a URL holds them. -/
def isControl (c : Char) : Bool := c.toNat < 32 || 127 ≤ c.toNat

/-- The characters that are escaped in a part of a URL. -/
structure EscapeSet where
  /-- The visible ones; those that no part holds come on top. -/
  visible : List Char

namespace EscapeSet

def contains (e : EscapeSet) (c : Char) : Bool := isControl c || e.visible.contains c

def control : EscapeSet := ⟨[]⟩

def fragment : EscapeSet := ⟨[' ', '"', '<', '>', '\x60']⟩

def path : EscapeSet := ⟨fragment.visible ++ ['#', '?', '\x7b', '\x7d']⟩

def userinfo : EscapeSet :=
  ⟨path.visible ++ ['/', ':', ';', '=', '@', '[', '\\', ']', '^', '|']⟩

def query : EscapeSet := ⟨[' ', '"', '#', '<', '>']⟩

/-- Queries of the schemes of the web. -/
def specialQuery : EscapeSet := ⟨query.visible ++ ['\'']⟩

end EscapeSet

/-- A text with the characters of a set escaped. -/
def escape (e : EscapeSet) (cs : List Char) : List Char :=
  cs.flatMap fun c => if e.contains c then escapeChar c else [c]

theorem escape_append (e : EscapeSet) (as bs : List Char) :
    escape e (as ++ bs) = escape e as ++ escape e bs := by
  simp [escape]

/-- A text without characters of the set stays as it is. -/
theorem escape_eq_self {e : EscapeSet} {cs : List Char} (h : ∀ c ∈ cs, e.contains c = false) :
    escape e cs = cs := by
  induction cs with
  | nil => rfl
  | cons c r ih =>
    have hc := h c List.mem_cons_self
    have hr := ih fun d hd => h d (List.mem_cons_of_mem _ hd)
    simp only [escape, List.flatMap_cons, hc, Bool.false_eq_true, if_false] at hr ⊢
    rw [hr]
    rfl

/-- The octets of a text in which octets may be escaped. -/
def unescape : List Char → Octets
  | '%' :: a :: b :: r =>
    match JsonToken.hexValue? a, JsonToken.hexValue? b with
    | some x, some y => UInt8.ofNat (16 * x + y) :: unescape r
    | _, _ => 0x25 :: unescape (a :: b :: r)
  | c :: r => String.utf8EncodeChar c ++ unescape r
  | [] => []

end TradingLoad.Url
