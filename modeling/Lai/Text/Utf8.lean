/-!
# Texts as bytes

Texts are written as UTF-8. Bytes are read as UTF-8 without ever failing: a byte that does not begin a
well-formed sequence is read on its own as the replacement character, and reading goes on with the next
byte.
-/

namespace Lai.Text

/-- The bytes that the text is stored as. -/
def bytes (s : String) : List UInt8 :=
  s.toUTF8.data.toList

/-- The payload of a continuation byte. -/
def continuation? (b : UInt8) : Option Nat :=
  if 0x80 ≤ b.toNat ∧ b.toNat < 0xc0 then some (b.toNat - 0x80) else none

/-- The character with the given code, if it is one and needs the length it was written in. -/
def scalar? (least code : Nat) : Option Char :=
  if least ≤ code ∧ code.isValidChar then some (Char.ofNat code) else none

/-- The character that the bytes begin with and the number of bytes after the first that belong to
it. -/
def decodeChar? (b : UInt8) (rest : List UInt8) : Option (Char × Nat) :=
  let lead := b.toNat
  if lead < 0x80 then
    some (Char.ofNat lead, 0)
  else if 0xc0 ≤ lead ∧ lead < 0xe0 then do
    let x ← rest[0]? >>= continuation?
    let c ← scalar? 0x80 ((lead - 0xc0) * 0x40 + x)
    return (c, 1)
  else if 0xe0 ≤ lead ∧ lead < 0xf0 then do
    let x ← rest[0]? >>= continuation?
    let y ← rest[1]? >>= continuation?
    let c ← scalar? 0x800 (((lead - 0xe0) * 0x40 + x) * 0x40 + y)
    return (c, 2)
  else if 0xf0 ≤ lead then do
    let x ← rest[0]? >>= continuation?
    let y ← rest[1]? >>= continuation?
    let z ← rest[2]? >>= continuation?
    let c ← scalar? 0x10000 ((((lead - 0xf0) * 0x40 + x) * 0x40 + y) * 0x40 + z)
    return (c, 3)
  else none

/-- The characters of a byte sequence. -/
def decodeChars : List UInt8 → List Char
  | [] => []
  | b :: rest =>
    match decodeChar? b rest with
    | some (c, more) => c :: decodeChars (rest.drop more)
    | none => Char.ofNat 0xfffd :: decodeChars rest
termination_by bytes => bytes.length
decreasing_by
  · simp only [List.length_drop, List.length_cons]; omega
  · simp

/-- The text of a byte sequence. -/
def decode (bytes : List UInt8) : String :=
  String.ofList (decodeChars bytes)

end Lai.Text
