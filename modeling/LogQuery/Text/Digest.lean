/-!
# Digests of texts

A text is condensed into 64 bits by SipHash with a key of zeros, one round for each word of the text
and three rounds at the end. The text is taken as its UTF-8 bytes and one byte more that occurs in
no such text, so that texts which run on into each other are told apart. Two texts may well have the
same digest.
-/

namespace LogQuery.Text

/-- What a digest is computed in. -/
structure DigestState where
  v0 : UInt64
  v1 : UInt64
  v2 : UInt64
  v3 : UInt64

namespace DigestState

/-- The state before any word. -/
def start : DigestState :=
  ⟨0x736f6d6570736575, 0x646f72616e646f6d, 0x6c7967656e657261, 0x7465646279746573⟩

/-- The word turned left by `n` bits. -/
def rotate (x n : UInt64) : UInt64 := (x <<< n) ||| (x >>> (64 - n))

/-- Mixes the four words of the state. -/
def round (s : DigestState) : DigestState :=
  let v0 := s.v0 + s.v1
  let v1 := rotate s.v1 13 ^^^ v0
  let v2 := s.v2 + s.v3
  let v3 := rotate s.v3 16 ^^^ v2
  let v0 := rotate v0 32 + v3
  let v2 := v2 + v1
  ⟨v0, rotate v1 17 ^^^ v2, rotate v2 32, rotate v3 21 ^^^ v0⟩

/-- Takes in a word of the text. -/
def absorb (s : DigestState) (word : UInt64) : DigestState :=
  let s := { s with v3 := s.v3 ^^^ word }.round
  { s with v0 := s.v0 ^^^ word }

/-- The digest, once all words are taken in. -/
def finish (s : DigestState) : UInt64 :=
  let s := { s with v2 := s.v2 ^^^ 0xff }.round.round.round
  s.v0 ^^^ s.v1 ^^^ s.v2 ^^^ s.v3

/-- The word of at most eight bytes, the lowest of them first. -/
def word (bytes : List UInt8) : UInt64 := bytes.foldr (fun b w => (w <<< 8) ||| b.toUInt64) 0

/-- Takes in a text of which `length` bytes are known; the last word ends in that number. -/
def absorbBytes (s : DigestState) (length : Nat) : List UInt8 → DigestState
  | a :: b :: c :: d :: e :: f :: g :: h :: rest =>
    (s.absorb (word [a, b, c, d, e, f, g, h])).absorbBytes length rest
  | tail => s.absorb (word tail ||| (UInt64.ofNat length <<< 56))

end DigestState

/-- The digest of a text. -/
def digest (text : String) : UInt64 :=
  let bytes := text.toList.flatMap String.utf8EncodeChar ++ [0xff]
  (DigestState.start.absorbBytes bytes.length bytes).finish

end LogQuery.Text
