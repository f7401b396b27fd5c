/-! Octets as text, and the place where a sequence of octets stops being UTF-8. -/
namespace GatewayRules.Text

/-- Where decoding fails: the octets before the fault, and how many octets at it no character can
begin with, or nothing when the octets end within a character. -/
structure Utf8Fault where
  index : Nat
  length : Option Nat
  deriving DecidableEq, Repr

def Utf8Fault.message (f : Utf8Fault) : String :=
  match f.length with
  | some n => s!"invalid utf-8 sequence of {n} bytes from index {f.index}"
  | none => s!"incomplete utf-8 byte sequence from index {f.index}"

private def isTail (b : UInt8) : Bool := 0x80 ≤ b && b ≤ 0xbf

/-- The octets that may come second after a first octet of a character of three or four. -/
private def isSecond (a b : UInt8) : Bool :=
  if a = 0xe0 then 0xa0 ≤ b && b ≤ 0xbf
  else if a = 0xed then 0x80 ≤ b && b ≤ 0x9f
  else if a = 0xf0 then 0x90 ≤ b && b ≤ 0xbf
  else if a = 0xf4 then 0x80 ≤ b && b ≤ 0x8f
  else isTail b

/-- How many octets the character takes that begins with the octet, or none if no character does. -/
private def width (a : UInt8) : Option Nat :=
  if a ≤ 0x7f then some 1
  else if 0xc2 ≤ a && a ≤ 0xdf then some 2
  else if 0xe0 ≤ a && a ≤ 0xef then some 3
  else if 0xf0 ≤ a && a ≤ 0xf4 then some 4
  else none

/-- The fault in the octets after a first octet, when `more` of them must follow. -/
private def tailFault (index seen : Nat) : Nat → List UInt8 → Option Utf8Fault
  | 0, _ => none
  | _ + 1, [] => some ⟨index, none⟩
  | more + 1, b :: rest =>
    if isTail b then tailFault index (seen + 1) more rest else some ⟨index, some seen⟩

private def charFault (index : Nat) (a : UInt8) (rest : List UInt8) : Option Utf8Fault :=
  match width a with
  | none => some ⟨index, some 1⟩
  | some 1 => none
  | some (more + 1) =>
    match rest with
    | [] => some ⟨index, none⟩
    | b :: rest =>
      if isSecond a b then tailFault index 2 (more - 1) rest else some ⟨index, some 1⟩
  | some 0 => none

/-- The first fault from `index` on; `skip` octets belong to a character that was looked at. -/
private def firstFault : (index skip : Nat) → List UInt8 → Option Utf8Fault
  | _, _, [] => none
  | index, skip + 1, _ :: rest => firstFault (index + 1) skip rest
  | index, 0, a :: rest =>
    match charFault index a rest with
    | some fault => some fault
    | none => firstFault (index + 1) ((width a).getD 1 - 1) rest

def utf8Fault (bytes : List UInt8) : Utf8Fault :=
  (firstFault 0 0 bytes).getD ⟨0, some 1⟩

/-- The characters of the octets, or the place where they are not UTF-8. -/
def ofUtf8 (bytes : List UInt8) : Except Utf8Fault (List Char) :=
  match bytes.toByteArray.utf8Decode? with
  | some chars => .ok chars.toList
  | none => .error (utf8Fault bytes)

def toUtf8 (s : List Char) : List UInt8 := s.flatMap String.utf8EncodeChar

theorem toUtf8_append (s t : List Char) : toUtf8 (s ++ t) = toUtf8 s ++ toUtf8 t :=
  List.flatMap_append

@[simp] theorem ofUtf8_toUtf8 (s : List Char) : ofUtf8 (toUtf8 s) = .ok s := by
  have decoded : (toUtf8 s).toByteArray.utf8Decode? = some s.toArray :=
    List.utf8Decode?_utf8Encode
  simp [ofUtf8, decoded]

end GatewayRules.Text
