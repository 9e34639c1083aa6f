import KeyScript.Text.Glyph

/-!
Items of the binary format CBOR, and their reading. Every item starts with a
head: a kind, and a number that is a value, a length or a count. Strings, arrays
and maps may leave out their length and end with a mark instead. Items are read
to a limited depth and with limited counts.
-/

namespace KeyScript
namespace Cbor

/-- A data item. A string is kept in the chunks it was written in. -/
inductive Item where
  | unsigned (n : Nat)
  /-- The number `-1 - n`. -/
  | negative (n : Nat)
  | bytes (chunks : List Text)
  | text (chunks : List Text)
  | array (items : List Item)
  | map (entries : List (Item × Item))
  | tag (n : Nat) (content : Item)
  /-- A value known by its number, such as true and null. -/
  | simple (n : Nat)
  | float (bits : Nat)
deriving Repr

inductive Kind where
  | unsigned
  | negative
  | bytes
  | text
  | array
  | map
  | tag
  | other
deriving DecidableEq, Repr

def Kind.ofByte (b : UInt8) : Kind :=
  match b.toNat / 32 with
  | 0 => .unsigned
  | 1 => .negative
  | 2 => .bytes
  | 3 => .text
  | 4 => .array
  | 5 => .map
  | 6 => .tag
  | _ => .other

def Kind.bits : Kind → Nat
  | .unsigned => 0
  | .negative => 32
  | .bytes => 64
  | .text => 96
  | .array => 128
  | .map => 160
  | .tag => 192
  | .other => 224

/-- How the number of a head is written: in the head itself, in so many bytes behind it, or not at
all. -/
inductive Width where
  | inside
  | behind (bytes : Nat)
  | missing
deriving DecidableEq, Repr

structure Head where
  kind : Kind
  width : Width
  number : Nat
deriving DecidableEq, Repr

def natOfBytes (t : Text) : Nat :=
  t.foldl (fun n b => n * 256 + b.toNat) 0

def takeBytes (n : Nat) (t : Text) : Option (Text × Text) :=
  let found := t.take n
  if found.length = n then some (found, t.drop n) else none

def readHead : Text → Option (Head × Text)
  | [] => none
  | b :: rest =>
    let kind := Kind.ofByte b
    let low := b.toNat % 32
    if low < 24 then some (⟨kind, .inside, low⟩, rest)
    else if low < 28 then
      let size := Nat.pow 2 (low - 24)
      match takeBytes size rest with
      | some (digits, rest) => some (⟨kind, .behind size, natOfBytes digits⟩, rest)
      | none => none
    else if low = 31 then some (⟨kind, .missing, 0⟩, rest)
    else none

/-- Ends a string, an array or a map that was written without its length. -/
def breakByte : UInt8 := 0xFF

def maxCount : Nat := 131072

def maxLevels : Nat := 32

abbrev Reader := Text → Option (Item × Text)

def readMany (read : Reader) : Nat → Array Item → Text → Option (List Item × Text)
  | 0, found, t => some (found.toList, t)
  | n + 1, found, t =>
    match read t with
    | some (item, rest) => readMany read n (found.push item) rest
    | none => none

def readToBreak (read : Reader) : Nat → Array Item → Text → Option (List Item × Text)
  | _, _, [] => none
  | n, found, b :: rest =>
    if b = breakByte then some (found.toList, rest)
    else
      match n with
      | 0 => none
      | n + 1 =>
        match read (b :: rest) with
        | some (item, rest) => readToBreak read n (found.push item) rest
        | none => none

/-- Reads the items of an array, or of a map when there are two for each entry, up to `limit` of
them; without a reader for them not even an empty array can be read. -/
def readItems (limit : Nat) (inner : Option Reader) (each : Nat) (head : Head) (t : Text) :
    Option (List Item × Text) :=
  match inner with
  | none => none
  | some read =>
    if head.width = .missing then readToBreak read (each * limit) #[] t
    else if limit < head.number then none
    else readMany read (each * head.number) #[] t

def pairUp (found : Array (Item × Item)) : List Item → Option (List (Item × Item))
  | [] => some found.toList
  | [_] => none
  | key :: value :: rest => pairUp (found.push (key, value)) rest

/-- Reads the chunks of a string up to the end mark, each a string of the same kind with its
length. At most `n` bytes are looked at. -/
def readChunks (kind : Kind) : Nat → Array Text → Text → Option (List Text × Text)
  | 0, _, _ => none
  | n + 1, found, t =>
    if t.head? = some breakByte then some (found.toList, t.tail)
    else
      match readHead t with
      | some (head, rest) =>
        if head.kind = kind ∧ head.width ≠ .missing then
          match takeBytes head.number rest with
          | some (chunk, rest) => readChunks kind n (found.push chunk) rest
          | none => none
        else none
      | none => none

def readString (head : Head) (t : Text) : Option (List Text × Text) :=
  if head.width = .missing then readChunks head.kind (t.length + 1) #[] t
  else
    match takeBytes head.number t with
    | some (chunk, rest) => some ([chunk], rest)
    | none => none

def readBody (limit : Nat) (inner : Option Reader) (head : Head) (t : Text) :
    Option (Item × Text) :=
  match head.kind with
  | .unsigned => if head.width = .missing then none else some (.unsigned head.number, t)
  | .negative => if head.width = .missing then none else some (.negative head.number, t)
  | .bytes =>
    match readString head t with
    | some (chunks, rest) => some (.bytes chunks, rest)
    | none => none
  | .text =>
    match readString head t with
    | some (chunks, rest) => some (.text chunks, rest)
    | none => none
  | .array =>
    match readItems limit inner 1 head t with
    | some (items, rest) => some (.array items, rest)
    | none => none
  | .map =>
    match readItems limit inner 2 head t with
    | some (items, rest) =>
      match pairUp #[] items with
      | some entries => some (.map entries, rest)
      | none => none
    | none => none
  | .tag => none
  | .other =>
    match head.width with
    | .inside => some (.simple head.number, t)
    | .behind 1 => if head.number < 32 then none else some (.simple head.number, t)
    | .behind _ => some (.float head.number, t)
    | .missing => none

/-- Reads an item: the content of a tag with `content`, items inside another with `inner`. -/
def readItem (limit : Nat) (content : Reader) (inner : Option Reader) (t : Text) :
    Option (Item × Text) :=
  match readHead t with
  | none => none
  | some (head, rest) =>
    if head.kind = .tag then
      if head.width = .missing then none
      else
        match content rest with
        | some (item, rest) => some (.tag head.number item, rest)
        | none => none
    else readBody limit inner head rest

structure Readers where
  item : Reader
  content : Reader

/-- The readers one level above `inner`. A tag takes a level only as the content of another. -/
def Readers.above (limit : Nat) (inner : Option Readers) : Readers :=
  let innerContent : Reader := fun t => inner.bind fun r => r.content t
  let innerItem := inner.map Readers.item
  let content := readItem limit innerContent innerItem
  ⟨readItem limit content innerItem, content⟩

/-- The readers with a number of levels left, for arrays and maps of up to `limit`; on the last
level there is no further one. -/
def readers (limit : Nat) : Nat → Readers
  | 0 => Readers.above limit none
  | n + 1 => Readers.above limit (some (readers limit n))

def Item.read (t : Text) : Option Item :=
  match (readers maxCount maxLevels).item t with
  | some (item, []) => some item
  | _ => none

end Cbor
end KeyScript
