/-!
# Reading bytes as text

Bytes that are no UTF-8 read as replacement characters: one for each longest run that begins a
character and cannot be completed, and one for each byte that begins none.
-/

namespace FileChores.Text.Utf8

/-- A character that has been begun: how many bytes are still owed, the range of the next one, and
the bits so far. -/
structure Pending where
  owed : Nat
  low : UInt8
  high : UInt8
  bits : Nat

def replacement : Char := '\uFFFD'

/-- What a byte between characters begins or is. -/
def first (b : UInt8) : Option Pending × List Char :=
  if b < 0x80 then (none, [Char.ofNat b.toNat])
  else if b < 0xC2 then (none, [replacement])
  else if b < 0xE0 then (some ⟨1, 0x80, 0xBF, b.toNat % 32⟩, [])
  else if b = 0xE0 then (some ⟨2, 0xA0, 0xBF, 0⟩, [])
  else if b = 0xED then (some ⟨2, 0x80, 0x9F, 13⟩, [])
  else if b < 0xF0 then (some ⟨2, 0x80, 0xBF, b.toNat % 16⟩, [])
  else if b = 0xF0 then (some ⟨3, 0x90, 0xBF, 0⟩, [])
  else if b < 0xF4 then (some ⟨3, 0x80, 0xBF, b.toNat % 8⟩, [])
  else if b = 0xF4 then (some ⟨3, 0x80, 0x8F, 4⟩, [])
  else (none, [replacement])

/-- The characters that the next byte completes or breaks off. -/
def next : Option Pending → UInt8 → Option Pending × List Char
  | none, b => first b
  | some pending, b =>
      if pending.low ≤ b && b ≤ pending.high then
        let bits := pending.bits * 64 + b.toNat % 64
        if pending.owed = 1 then (none, [Char.ofNat bits])
        else (some ⟨pending.owed - 1, 0x80, 0xBF, bits⟩, [])
      else
        let (begun, chars) := first b
        (begun, replacement :: chars)

def decodeFrom (pending : Option Pending) : List UInt8 → List Char
  | [] => if pending.isSome then [replacement] else []
  | b :: rest =>
      let (begun, chars) := next pending b
      chars ++ decodeFrom begun rest

/-- The text of bytes, with replacement characters where they are no UTF-8. -/
def decode (bytes : ByteArray) : String :=
  .ofList (decodeFrom none bytes.toList)

end FileChores.Text.Utf8
