/-! Reading UTF-8. A text is accepted when it is a sequence of shortest encodings
of Unicode scalar values. A defect names the length of the longest readable
prefix and, unless the input merely ends too early, the length of the offending
sequence: the lead byte with those of its continuation bytes that are in order. -/

namespace Earliest.Utf8

structure Defect where
  /-- Bytes that can be read. -/
  valid : Nat
  /-- Bytes of the offending sequence; absent when the input ends inside one. -/
  offending : Option Nat
  deriving DecidableEq

def Defect.text (d : Defect) : String :=
  match d.offending with
  | some n =>
    "invalid utf-8 sequence of " ++ toString n ++ " bytes from index " ++ toString d.valid
  | none => "incomplete utf-8 byte sequence from index " ++ toString d.valid

/-- What the bytes at one position are. -/
inductive Step where
  | char (c : Char) (rest : List UInt8)
  | offending (n : Nat)
  | cut

def continuation (b : UInt8) : Bool := 0x80 ≤ b && b ≤ 0xBF

/-- The bytes that may follow a lead byte: the ends of the range keep out longer
encodings than needed, surrogates, and what lies above U+10FFFF. -/
def second (lead b : UInt8) : Bool :=
  if lead = 0xE0 then 0xA0 ≤ b && b ≤ 0xBF
  else if lead = 0xED then 0x80 ≤ b && b ≤ 0x9F
  else if lead = 0xF0 then 0x90 ≤ b && b ≤ 0xBF
  else if lead = 0xF4 then 0x80 ≤ b && b ≤ 0x8F
  else continuation b

/-- The scalar value whose lead byte carries `top` and whose continuation bytes
are `tail`, six bits each. -/
def scalar (top : Nat) (tail : List UInt8) : Char :=
  Char.ofNat (tail.foldl (fun n b => n * 64 + b.toNat % 64) top)

def twoBytes (lead : UInt8) : List UInt8 → Step
  | [] => .cut
  | b :: rest =>
    if second lead b then .char (scalar (lead.toNat - 0xC0) [b]) rest else .offending 1

def threeBytes (lead : UInt8) : List UInt8 → Step
  | [] => .cut
  | b :: rest =>
    if second lead b then
      match rest with
      | [] => .cut
      | c :: rest =>
        if continuation c then .char (scalar (lead.toNat - 0xE0) [b, c]) rest
        else .offending 2
    else .offending 1

def fourBytes (lead : UInt8) : List UInt8 → Step
  | [] => .cut
  | b :: rest =>
    if second lead b then
      match rest with
      | [] => .cut
      | c :: rest =>
        if continuation c then
          match rest with
          | [] => .cut
          | d :: rest =>
            if continuation d then .char (scalar (lead.toNat - 0xF0) [b, c, d]) rest
            else .offending 3
        else .offending 2
    else .offending 1

def step (lead : UInt8) (rest : List UInt8) : Step :=
  if lead < 0x80 then .char (Char.ofNat lead.toNat) rest
  else if lead < 0xC2 then .offending 1
  else if lead < 0xE0 then twoBytes lead rest
  else if lead < 0xF0 then threeBytes lead rest
  else if lead < 0xF5 then fourBytes lead rest
  else .offending 1

theorem length_le_of_step {lead : UInt8} {bytes rest : List UInt8} {c : Char}
    (h : step lead bytes = .char c rest) : rest.length ≤ bytes.length := by
  unfold step twoBytes threeBytes fourBytes at h
  repeat' split at h
  all_goals first
    | (cases h; simp <;> omega)
    | simp at h

/-- Reads the bytes that follow the first `valid` ones. -/
def read (valid : Nat) : List UInt8 → Except Defect (List Char)
  | [] => .ok []
  | lead :: bytes =>
    match _h : step lead bytes with
    | .char c rest =>
      match read (valid + c.utf8Size) rest with
      | .ok chars => .ok (c :: chars)
      | .error d => .error d
    | .offending n => .error ⟨valid, some n⟩
    | .cut => .error ⟨valid, none⟩
  termination_by bytes => bytes.length
  decreasing_by
    have := length_le_of_step _h
    simp only [List.length_cons]
    omega

def decode (bytes : List UInt8) : Except Defect String :=
  (read 0 bytes).map String.ofList

def encode (s : String) : List UInt8 := s.toList.flatMap String.utf8EncodeChar

end Earliest.Utf8
