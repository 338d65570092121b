import Earliest.Text.Hidden

/-! Quoted text. A quoted string stands between double quotes, shows each visible
character as itself, and writes every other one as an escape, so that what is
read on a terminal names the string exactly. -/

namespace Earliest.Text

def visible (c : Char) : Bool :=
  !Hidden.ranges.any fun r => r.1 ≤ c.toNat && c.toNat ≤ r.2

/-- The code point in hexadecimal between braces. -/
def codePoint (c : Char) : List Char :=
  '\\' :: 'u' :: '\x7b' :: Nat.toDigits 16 c.toNat ++ ['\x7d']

def escape (c : Char) : List Char :=
  match c with
  | '\x00' => ['\\', '0']
  | '\t' => ['\\', 't']
  | '\n' => ['\\', 'n']
  | '\r' => ['\\', 'r']
  | '"' => ['\\', '"']
  | '\\' => ['\\', '\\']
  | c => if visible c then [c] else codePoint c

def quoted (s : String) : String :=
  String.ofList ('"' :: s.toList.flatMap escape ++ ['"'])

end Earliest.Text
