import KeyScript.Cbor.Item

/-!
Writing items in their one shortest form: every head holds its number in as few
bytes as possible, and every length is written.
-/

namespace KeyScript
namespace Cbor

def bytesOfNat : Nat → Nat → Text
  | 0, _ => []
  | size + 1, n => bytesOfNat size (n / 256) ++ [(n % 256).toUInt8]

def writeHead (kind : Kind) (n : Nat) : Text :=
  if n < 24 then [(kind.bits + n).toUInt8]
  else if n < 256 then (kind.bits + 24).toUInt8 :: bytesOfNat 1 n
  else if n < 65536 then (kind.bits + 25).toUInt8 :: bytesOfNat 2 n
  else if n < 4294967296 then (kind.bits + 26).toUInt8 :: bytesOfNat 4 n
  else (kind.bits + 27).toUInt8 :: bytesOfNat 8 n

def writeInt : Int → Text
  | .ofNat n => writeHead .unsigned n
  | .negSucc n => writeHead .negative n

def writeText (t : Text) : Text :=
  writeHead .text t.length ++ t

def writeTrue : Text := [0xF5]

def writeArray (items : List Text) : Text :=
  writeHead .array items.length ++ items.flatten

/-- A map with small numbers as keys, in the order given, and values that are written already. -/
def writeMap (entries : List (Nat × Text)) : Text :=
  writeHead .map entries.length ++
    entries.flatMap fun (key, value) => writeHead .unsigned key ++ value

end Cbor
end KeyScript
