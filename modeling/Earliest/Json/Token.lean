/-! Splitting a JSON text into tokens. Blanks are the space, tab, line feed and
carriage return. A number token keeps its value only when it is written as plain
digits, and a string token keeps its text only when its surrogate escapes stand in
pairs; either way the token itself is well formed. -/

namespace Earliest.Json

inductive Token where
  | leftBrace
  | rightBrace
  | leftBracket
  | rightBracket
  | colon
  | comma
  | null
  | bool (b : Bool)
  | number (natural : Option Nat)
  | string (text : Option String)
  deriving DecidableEq

def blank (c : Char) : Bool := c == ' ' || c == '\t' || c == '\n' || c == '\r'

/-! ### Numbers -/

def natural (digits : List Char) : Nat :=
  digits.foldl (fun n c => n * 10 + (c.toNat - '0'.toNat)) 0

/-- The digits in front; at least one. -/
def lexDigits (cs : List Char) : Option (List Char × List Char) :=
  match cs.takeWhile Char.isDigit with
  | [] => none
  | d :: ds => some (d :: ds, cs.dropWhile Char.isDigit)

/-- Whether there is a fraction, and what follows it. -/
def lexFraction (cs : List Char) : Option (Bool × List Char) :=
  match cs with
  | '.' :: rest => (lexDigits rest).map fun r => (true, r.2)
  | cs => some (false, cs)

/-- The digits of an exponent, after its sign. -/
def lexScale (cs : List Char) : Option (List Char × List Char) :=
  match cs with
  | '+' :: rest => lexDigits rest
  | '-' :: rest => lexDigits rest
  | cs => lexDigits cs

/-- Whether there is an exponent, and what follows it. -/
def lexExponent (cs : List Char) : Option (Bool × List Char) :=
  match cs with
  | 'e' :: rest => (lexScale rest).map fun r => (true, r.2)
  | 'E' :: rest => (lexScale rest).map fun r => (true, r.2)
  | cs => some (false, cs)

/-- A number without its sign; zero alone may begin with a zero. -/
def lexNumber (signed : Bool) (cs : List Char) : Option (Token × List Char) :=
  match lexDigits cs with
  | none => none
  | some (ds, rest) =>
    if ds.head? = some '0' ∧ ds.length ≠ 1 then none
    else
      match lexFraction rest with
      | none => none
      | some (fractional, rest) =>
        match lexExponent rest with
        | none => none
        | some (scaled, rest) =>
          some (.number (if signed || fractional || scaled then none else some (natural ds)), rest)

/-! ### Strings -/

/-- A character, or the code unit of a `\u` escape. -/
inductive Piece where
  | char (c : Char)
  | unit (n : Nat)
  deriving DecidableEq

def hexDigit? (c : Char) : Option Nat :=
  if c.isDigit then some (c.toNat - '0'.toNat)
  else if 'a' ≤ c ∧ c ≤ 'f' then some (c.toNat - 'a'.toNat + 10)
  else if 'A' ≤ c ∧ c ≤ 'F' then some (c.toNat - 'A'.toNat + 10)
  else none

def unit? (a b c d : Char) : Option Nat :=
  match hexDigit? a, hexDigit? b, hexDigit? c, hexDigit? d with
  | some a, some b, some c, some d => some (((a * 16 + b) * 16 + c) * 16 + d)
  | _, _, _, _ => none

def escaped? : Char → Option Char
  | '"' => some '"'
  | '\\' => some '\\'
  | '/' => some '/'
  | 'b' => some '\x08'
  | 'f' => some '\x0c'
  | 'n' => some '\n'
  | 'r' => some '\r'
  | 't' => some '\t'
  | _ => none

/-- The pieces up to the closing quote, and what follows it. Control characters have to
be escaped. -/
def lexPieces : List Char → Option (List Piece × List Char)
  | '"' :: rest => some ([], rest)
  | '\\' :: 'u' :: a :: b :: c :: d :: rest =>
    match unit? a b c d, lexPieces rest with
    | some n, some (ps, rest) => some (.unit n :: ps, rest)
    | _, _ => none
  | '\\' :: c :: rest =>
    match escaped? c, lexPieces rest with
    | some c, some (ps, rest) => some (.char c :: ps, rest)
    | _, _ => none
  | c :: rest =>
    if c < ' ' then none
    else
      match lexPieces rest with
      | some (ps, rest) => some (.char c :: ps, rest)
      | none => none
  | [] => none

def isHigh (n : Nat) : Bool := 0xD800 ≤ n && n < 0xDC00

def isLow (n : Nat) : Bool := 0xDC00 ≤ n && n < 0xE000

/-- The text of the pieces; a high surrogate has to be followed by a low one, and a low
one may not stand alone. -/
def textOf : List Piece → Option (List Char)
  | [] => some []
  | .char c :: rest => (textOf rest).map (c :: ·)
  | .unit n :: rest =>
    if isHigh n then
      match rest with
      | .unit m :: rest =>
        if isLow m then
          (textOf rest).map (Char.ofNat (0x10000 + (n - 0xD800) * 0x400 + (m - 0xDC00)) :: ·)
        else none
      | _ => none
    else if isLow n then none
    else (textOf rest).map (Char.ofNat n :: ·)

/-! ### Tokens -/

/-- The token in front, and what follows it. -/
def lex : List Char → Option (Token × List Char)
  | '{' :: rest => some (.leftBrace, rest)
  | '}' :: rest => some (.rightBrace, rest)
  | '[' :: rest => some (.leftBracket, rest)
  | ']' :: rest => some (.rightBracket, rest)
  | ':' :: rest => some (.colon, rest)
  | ',' :: rest => some (.comma, rest)
  | 'n' :: 'u' :: 'l' :: 'l' :: rest => some (.null, rest)
  | 't' :: 'r' :: 'u' :: 'e' :: rest => some (.bool true, rest)
  | 'f' :: 'a' :: 'l' :: 's' :: 'e' :: rest => some (.bool false, rest)
  | '"' :: rest =>
    (lexPieces rest).map fun r => (.string ((textOf r.1).map String.ofList), r.2)
  | '-' :: rest => lexNumber true rest
  | cs => lexNumber false cs

theorem length_lt_of_lexDigits {cs ds rest : List Char} (h : lexDigits cs = some (ds, rest)) :
    rest.length < cs.length := by
  have hsplit := congrArg List.length (List.takeWhile_append_dropWhile (p := Char.isDigit) (l := cs))
  unfold lexDigits at h
  split at h
  · simp at h
  · next d t ht =>
    cases h
    simp only [List.length_append, ht, List.length_cons] at hsplit
    omega

theorem length_le_of_lexFraction {cs rest : List Char} {b : Bool}
    (h : lexFraction cs = some (b, rest)) : rest.length ≤ cs.length := by
  unfold lexFraction at h
  split at h
  · obtain ⟨⟨ds, r⟩, hd, he⟩ := Option.map_eq_some_iff.1 h
    cases he
    have := length_lt_of_lexDigits hd
    simp only [List.length_cons]
    omega
  · cases h
    exact Nat.le_refl _

theorem length_lt_of_lexScale {cs ds rest : List Char} (h : lexScale cs = some (ds, rest)) :
    rest.length < cs.length := by
  unfold lexScale at h
  split at h
  case h_3 => exact length_lt_of_lexDigits h
  all_goals
    have := length_lt_of_lexDigits h
    simp only [List.length_cons]
    omega

theorem length_le_of_lexExponent {cs rest : List Char} {b : Bool}
    (h : lexExponent cs = some (b, rest)) : rest.length ≤ cs.length := by
  unfold lexExponent at h
  split at h
  case h_3 =>
    cases h
    exact Nat.le_refl _
  all_goals
    obtain ⟨⟨ds, r⟩, hd, he⟩ := Option.map_eq_some_iff.1 h
    cases he
    have := length_lt_of_lexScale hd
    simp only [List.length_cons]
    omega

theorem length_lt_of_lexNumber {signed : Bool} {cs rest : List Char} {t : Token}
    (h : lexNumber signed cs = some (t, rest)) : rest.length < cs.length := by
  unfold lexNumber at h
  split at h
  · simp at h
  · next ds r hd =>
    split at h
    · simp at h
    · split at h
      · simp at h
      · next hf =>
        split at h
        · simp at h
        · next he =>
          cases h
          have := length_lt_of_lexDigits hd
          have := length_le_of_lexFraction hf
          have := length_le_of_lexExponent he
          omega

theorem length_lt_of_lexPieces {cs rest : List Char} {ps : List Piece}
    (h : lexPieces cs = some (ps, rest)) : rest.length < cs.length := by
  fun_induction lexPieces cs generalizing ps rest <;> simp_all <;> grind

theorem length_lt_of_lex {cs rest : List Char} {t : Token} (h : lex cs = some (t, rest)) :
    rest.length < cs.length := by
  unfold lex at h
  split at h
  case h_10 =>
    obtain ⟨⟨ps, r⟩, hp, he⟩ := Option.map_eq_some_iff.1 h
    cases he
    have := length_lt_of_lexPieces hp
    simp only [List.length_cons]
    omega
  case h_11 =>
    have := length_lt_of_lexNumber h
    simp only [List.length_cons]
    omega
  case h_12 => exact length_lt_of_lexNumber h
  all_goals
    cases h
    simp only [List.length_cons]
    omega

def tokens : List Char → Option (List Token)
  | [] => some []
  | c :: cs =>
    if blank c then tokens cs
    else
      match _h : lex (c :: cs) with
      | none => none
      | some (t, rest) => (tokens rest).map (t :: ·)
  termination_by cs => cs.length
  decreasing_by
    · simp
    · exact length_lt_of_lex _h

end Earliest.Json
