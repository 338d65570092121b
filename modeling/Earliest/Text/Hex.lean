/-! Bytes in hexadecimal, two lower-case digits each. -/

namespace Earliest.Text

def hexByte (b : UInt8) : List Char :=
  [Nat.digitChar (b.toNat / 16), Nat.digitChar (b.toNat % 16)]

def hex (bytes : List UInt8) : String := String.ofList (bytes.flatMap hexByte)

end Earliest.Text
