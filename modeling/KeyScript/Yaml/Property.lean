import KeyScript.Yaml.Scalar
import KeyScript.Yaml.Token

/-!
The properties of nodes, anchors and tags, and the directives in front of a
document, as they are written.
-/

namespace KeyScript
namespace Yaml

def isNameChar (c : Char) : Bool :=
  ('0' ≤ c && c ≤ '9') || ('A' ≤ c && c ≤ 'Z') || ('a' ≤ c && c ≤ 'z') || c == '_' || c == '-'

def readName (s : Source) : Option (Text × Source) := do
  let (name, s) ← s.takeWhile isNameChar
  if name.isEmpty then none
  else if s.blankAhead 0 || s.peek.any fun c => "?:,]\x7d%@`".toList.contains c then
    some (Text.ofChars name, s)
  else none

namespace Tag

def isUriChar (c : Char) : Bool :=
  isNameChar c || ";/?:@&=+$,.!~*'()[]".toList.contains c

def readOctet (s : Source) : Option (Nat × Source) := do
  let s ← s.need 3
  match s.rest with
  | '%' :: b :: c :: _ =>
    let high ← Quoted.hexValue b
    let low ← Quoted.hexValue c
    return (high * 16 + low, Source.skipMany 3 s)
  | _ => none

def readTails : Nat → Array UInt8 → Source → Option (Array UInt8 × Source)
  | 0, found, s => some (found, s)
  | n + 1, found, s => do
    let (byte, s) ← readOctet s
    if byte / 64 = 2 then readTails n (found.push byte.toUInt8) s else none

def readEscaped (found : Array UInt8) (s : Source) : Option (Array UInt8 × Source) := do
  let (byte, s) ← readOctet s
  if leadWidth byte = 0 then none
  else readTails (leadWidth byte - 1) (found.push byte.toUInt8) s

def uri : Nat → Array UInt8 → Source → Option (Array UInt8 × Source)
  | 0, found, s => some (found, s)
  | fuel + 1, found, s =>
    match s.peek with
    | none => some (found, s)
    | some c =>
      if c == '%' then do
        let (found, s) ← readEscaped found s
        let s ← s.need 1
        uri fuel found s
      else if isUriChar c then do
        let s ← s.skip.need 1
        uri fuel (found ++ (String.utf8EncodeChar c).toArray) s
      else some (found, s)

/-- Reads a tag or a part of one, which must not be empty unless it `mayBeEmpty`. -/
def readUri (mayBeEmpty : Bool) (s : Source) : Option (Text × Source) := do
  let s ← s.need 1
  let (found, s) ← uri (s.size + 1) #[] s
  if found.isEmpty && !mayBeEmpty then none else some (found.toList, s)

/-- The start of a tag: an exclamation mark, a name, and a second mark if there is one. -/
structure Handle where
  name : Text
  closed : Bool

def Handle.text (h : Handle) : Text :=
  utf8 "!" ++ h.name ++ (if h.closed then utf8 "!" else [])

def readHandle (s : Source) : Option (Handle × Source) := do
  let s ← s.need 1
  if s.peek != some '!' then none
  else
    let (name, s) ← s.skip.takeWhile isNameChar
    if s.peek == some '!' then some (⟨Text.ofChars name, true⟩, s.skip)
    else some (⟨Text.ofChars name, false⟩, s)

def readFull (s : Source) : Option (Token × Source) := do
  let (suffix, s) ← readUri false s
  if s.peek == some '>' then some (.tag [] suffix, s.skip) else none

def readShort (s : Source) : Option (Token × Source) := do
  let (h, s) ← readHandle s
  if h.closed then
    let (suffix, s) ← readUri false s
    return (.tag h.text suffix, s)
  else
    let (more, s) ← readUri true s
    let suffix := h.name ++ more
    return (if suffix.isEmpty then .tag [] (utf8 "!") else .tag (utf8 "!") suffix, s)

def read (s : Source) : Option (Token × Source) := do
  let s ← s.need 2
  let (t, s) ← if s.hasAt 1 '<' then readFull s.skip.skip else readShort s
  let s ← s.need 1
  if s.blankAhead 0 then some (t, s) else none

end Tag

namespace Directive

def readNumber (s : Source) : Option (Nat × Source) := do
  let (digits, s) ← s.takeWhile Char.isDigit
  if digits.isEmpty || 2 < digits.length then none
  else some (digits.foldl (fun n c => n * 10 + (c.toNat - 48)) 0, s)

def readVersion (s : Source) : Option (Token × Source) := do
  let s ← s.skipWhile isBlank
  let (major, s) ← readNumber s
  if s.peek != some '.' then none
  else
    let (minor, s) ← readNumber s.skip
    return (.version major minor, s)

def readTagHandle (s : Source) : Option (Token × Source) := do
  let s ← s.skipWhile isBlank
  let (h, s) ← Tag.readHandle s
  let s ← s.need 1
  if (!h.closed && !h.name.isEmpty) || !(s.peek.any isBlank) then none
  else
    let s ← s.skipWhile isBlank
    let (expansion, s) ← Tag.readUri false s
    if s.blankAhead 0 then some (.tagHandle h.text expansion, s) else none

def read (s : Source) : Option (Token × Source) := do
  let (name, s) ← s.takeWhile isNameChar
  if name.isEmpty || !s.blankAhead 0 then none
  else
    let (t, s) ←
      if name = "YAML".toList then readVersion s
      else if name = "TAG".toList then readTagHandle s
      else none
    let s ← s.skipWhile isBlank
    let s ← if s.peek == some '#' then s.toLineEnd else some s
    if s.atLineEnd then (s.passLineEnd).map fun s => (t, s) else none

end Directive
end Yaml
end KeyScript
