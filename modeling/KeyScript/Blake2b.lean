import KeyScript.Text.Basic

/-!
The hash BLAKE2b with a result of 32 bytes and no key. The text is taken in
blocks of 128 bytes; each block is mixed into a chain of eight words together
with the number of bytes taken so far.
-/

namespace KeyScript
namespace Blake2b

abbrev Chain := Vector UInt64 8

abbrev Work := Vector UInt64 16

def blockSize : Nat := 128

def start : Chain :=
  #v[0x6a09e667f3bcc908, 0xbb67ae8584caa73b, 0x3c6ef372fe94f82b, 0xa54ff53a5f1d36f1,
     0x510e527fade682d1, 0x9b05688c2b3e6c1f, 0x1f83d9abfb41bd6b, 0x5be0cd19137e2179]

/-- The order in which each of the twelve rounds takes the words of the block. -/
def rounds : List (Vector (Fin 16) 16) :=
  [#v[0, 1, 2, 3, 4, 5, 6, 7, 8, 9, 10, 11, 12, 13, 14, 15],
   #v[14, 10, 4, 8, 9, 15, 13, 6, 1, 12, 0, 2, 11, 7, 5, 3],
   #v[11, 8, 12, 0, 5, 2, 15, 13, 10, 14, 3, 6, 7, 1, 9, 4],
   #v[7, 9, 3, 1, 13, 12, 11, 14, 2, 6, 5, 10, 4, 0, 15, 8],
   #v[9, 0, 5, 7, 2, 4, 10, 15, 14, 1, 11, 12, 6, 8, 3, 13],
   #v[2, 12, 6, 10, 0, 11, 8, 3, 4, 13, 7, 5, 15, 14, 1, 9],
   #v[12, 5, 1, 15, 14, 13, 4, 10, 0, 7, 6, 3, 9, 2, 8, 11],
   #v[13, 11, 7, 14, 12, 1, 3, 9, 5, 0, 15, 4, 8, 6, 2, 10],
   #v[6, 15, 14, 9, 11, 3, 0, 8, 12, 2, 13, 7, 1, 4, 10, 5],
   #v[10, 2, 8, 4, 7, 6, 1, 5, 15, 11, 9, 14, 3, 12, 13, 0],
   #v[0, 1, 2, 3, 4, 5, 6, 7, 8, 9, 10, 11, 12, 13, 14, 15],
   #v[14, 10, 4, 8, 9, 15, 13, 6, 1, 12, 0, 2, 11, 7, 5, 3]]

def rotate (w : UInt64) (n : UInt64) : UInt64 :=
  (w >>> n) ||| (w <<< (64 - n))

def mix (v : Work) (a b c d : Fin 16) (x y : UInt64) : Work :=
  let v := v.set a (v[a] + v[b] + x)
  let v := v.set d (rotate (v[d] ^^^ v[a]) 32)
  let v := v.set c (v[c] + v[d])
  let v := v.set b (rotate (v[b] ^^^ v[c]) 24)
  let v := v.set a (v[a] + v[b] + y)
  let v := v.set d (rotate (v[d] ^^^ v[a]) 16)
  let v := v.set c (v[c] + v[d])
  v.set b (rotate (v[b] ^^^ v[c]) 63)

/-- One round: the columns of the work, then its diagonals. -/
def round (block : Work) (v : Work) (order : Vector (Fin 16) 16) : Work :=
  let m (i : Fin 16) : UInt64 := block[order[i]]
  let v := mix v 0 4 8 12 (m 0) (m 1)
  let v := mix v 1 5 9 13 (m 2) (m 3)
  let v := mix v 2 6 10 14 (m 4) (m 5)
  let v := mix v 3 7 11 15 (m 6) (m 7)
  let v := mix v 0 5 10 15 (m 8) (m 9)
  let v := mix v 1 6 11 12 (m 10) (m 11)
  let v := mix v 2 7 8 13 (m 12) (m 13)
  mix v 3 4 9 14 (m 14) (m 15)

def wordOfBytes (bytes : Text) : UInt64 :=
  bytes.foldr (fun b w => (w <<< 8) ||| b.toUInt64) 0

def bytesOfWord (w : UInt64) : Text :=
  (List.range 8).map fun i => (w >>> (8 * i).toUInt64).toUInt8

/-- The words of a block; a short block is filled up with zeros. -/
def wordsOfBlock (bytes : Text) : Work :=
  Vector.ofFn fun i => wordOfBytes ((bytes.drop (8 * i.val)).take 8)

/-- Mixes a block into the chain; `count` bytes have been taken with it. -/
def compress (h : Chain) (bytes : Text) (count : Nat) (last : Bool) : Chain :=
  let block := wordsOfBlock bytes
  let v : Work := h ++ start
  let v := v.set 12 (v[12] ^^^ count.toUInt64)
  let v := v.set 13 (v[13] ^^^ (count / 18446744073709551616).toUInt64)
  let v := if last then v.set 14 (v[14] ^^^ 0xffffffffffffffff) else v
  let v := rounds.foldl (round block) v
  Vector.ofFn fun i => h[i] ^^^ v[i] ^^^ v[i.val + 8]

/-- Takes the rest of a text, of which `count` bytes have been taken. The last block is never
empty unless the text is. -/
def absorb (h : Chain) (count : Nat) (t : Text) : Chain :=
  if (t.drop blockSize).isEmpty then compress h t (count + t.length) true
  else
    absorb (compress h (t.take blockSize) (count + blockSize) false) (count + blockSize)
      (t.drop blockSize)
termination_by t.length
decreasing_by
  rename_i rest
  simp only [List.isEmpty_iff, List.drop_eq_nil_iff, Nat.not_le] at rest
  have : 0 < blockSize := by decide
  simp only [List.length_drop]
  omega

end Blake2b

def blake2b256 (t : Text) : Text :=
  let first := Blake2b.start.set 0 (Blake2b.start[0] ^^^ 0x01010020)
  ((Blake2b.absorb first 0 t).toList.flatMap Blake2b.bytesOfWord).take 32

example : (blake2b256 (utf8 "abc")).hex =
    utf8 "bddd813c634239723171ef3fee98579b94964e3bb1cb3e427262c8c068d52319" := by
  rw [blake2b256, Blake2b.absorb]
  decide +kernel

end KeyScript
