import VpnBot.Python.Text

/-!
# SHA-256

`hashlib.sha256(t.encode("utf-8")).hexdigest()` of the Python language: the UTF-8 bytes of a text,
the padded message in blocks of sixteen words, the message schedule and the compression rounds.
Words are natural numbers below `2 ^ 32`.
-/

namespace Py

namespace Sha256

/-! ### Bytes -/

/-- The UTF-8 encoding of a character. -/
def utf8 (c : Char) : List ℕ :=
  let n := c.toNat
  if n < 0x80 then [n]
  else if n < 0x800 then [0xC0 + n / 64, 0x80 + n % 64]
  else if n < 0x10000 then [0xE0 + n / 4096, 0x80 + n / 64 % 64, 0x80 + n % 64]
  else [0xF0 + n / 262144, 0x80 + n / 4096 % 64, 0x80 + n / 64 % 64, 0x80 + n % 64]

/-- The big-endian bytes of the message length. -/
def lengthBytes (bits : ℕ) : List ℕ := (List.range 8).map fun i => bits / 256 ^ (7 - i) % 256

/-- The message with the padding that fills the last block. -/
def pad (bytes : List ℕ) : List ℕ :=
  bytes ++ [0x80] ++ List.replicate ((119 - bytes.length % 64) % 64) 0 ++
    lengthBytes (8 * bytes.length)

/-- The big-endian words of a list of bytes. -/
def wordsOf : List ℕ → List ℕ
  | a :: b :: c :: d :: l => (a * 2 ^ 24 + b * 2 ^ 16 + c * 2 ^ 8 + d) :: wordsOf l
  | _ => []

/-- The blocks of sixteen words. -/
def blocks : ℕ → List ℕ → List (List ℕ)
  | 0, _ => []
  | n + 1, l => l.take 16 :: blocks n (l.drop 16)

/-! ### Rounds -/

/-- Addition of words. -/
def add (x y : ℕ) : ℕ := (x + y) % 2 ^ 32

/-- Rotation of a word to the right. -/
def rotr (n x : ℕ) : ℕ := (x >>> n) ||| (x <<< (32 - n)) % 2 ^ 32

def roundConstants : List ℕ :=
  [0x428a2f98, 0x71374491, 0xb5c0fbcf, 0xe9b5dba5, 0x3956c25b, 0x59f111f1, 0x923f82a4, 0xab1c5ed5,
   0xd807aa98, 0x12835b01, 0x243185be, 0x550c7dc3, 0x72be5d74, 0x80deb1fe, 0x9bdc06a7, 0xc19bf174,
   0xe49b69c1, 0xefbe4786, 0x0fc19dc6, 0x240ca1cc, 0x2de92c6f, 0x4a7484aa, 0x5cb0a9dc, 0x76f988da,
   0x983e5152, 0xa831c66d, 0xb00327c8, 0xbf597fc7, 0xc6e00bf3, 0xd5a79147, 0x06ca6351, 0x14292967,
   0x27b70a85, 0x2e1b2138, 0x4d2c6dfc, 0x53380d13, 0x650a7354, 0x766a0abb, 0x81c2c92e, 0x92722c85,
   0xa2bfe8a1, 0xa81a664b, 0xc24b8b70, 0xc76c51a3, 0xd192e819, 0xd6990624, 0xf40e3585, 0x106aa070,
   0x19a4c116, 0x1e376c08, 0x2748774c, 0x34b0bcb5, 0x391c0cb3, 0x4ed8aa4a, 0x5b9cca4f, 0x682e6ff3,
   0x748f82ee, 0x78a5636f, 0x84c87814, 0x8cc70208, 0x90befffa, 0xa4506ceb, 0xbef9a3f7, 0xc67178f2]

/-- The eight working words. -/
structure Digest where
  a : ℕ
  b : ℕ
  c : ℕ
  d : ℕ
  e : ℕ
  f : ℕ
  g : ℕ
  h : ℕ

/-- The words before the first block. -/
def initial : Digest :=
  ⟨0x6a09e667, 0xbb67ae85, 0x3c6ef372, 0xa54ff53a, 0x510e527f, 0x9b05688c, 0x1f83d9ab, 0x5be0cd19⟩

/-- The message schedule, with its last word in front: `n` further words. -/
def extend : ℕ → List ℕ → List ℕ
  | 0, w => w
  | n + 1, w =>
    let w2 := w.getD 1 0
    let w15 := w.getD 14 0
    let s0 := rotr 7 w15 ^^^ rotr 18 w15 ^^^ (w15 >>> 3)
    let s1 := rotr 17 w2 ^^^ rotr 19 w2 ^^^ (w2 >>> 10)
    extend n (add (add (w.getD 15 0) s0) (add (w.getD 6 0) s1) :: w)

/-- One round on a constant and a word of the schedule. -/
def round (v : Digest) (kw : ℕ × ℕ) : Digest :=
  let s1 := rotr 6 v.e ^^^ rotr 11 v.e ^^^ rotr 25 v.e
  let ch := (v.e &&& v.f) ^^^ ((2 ^ 32 - 1 - v.e) &&& v.g)
  let t1 := add (add v.h s1) (add ch (add kw.1 kw.2))
  let s0 := rotr 2 v.a ^^^ rotr 13 v.a ^^^ rotr 22 v.a
  let maj := (v.a &&& v.b) ^^^ (v.a &&& v.c) ^^^ (v.b &&& v.c)
  ⟨add t1 (add s0 maj), v.a, v.b, v.c, add v.d t1, v.e, v.f, v.g⟩

/-- One block. -/
def compress (v : Digest) (block : List ℕ) : Digest :=
  let u := (roundConstants.zip (extend 48 block.reverse).reverse).foldl round v
  ⟨add v.a u.a, add v.b u.b, add v.c u.c, add v.d u.d, add v.e u.e, add v.f u.f, add v.g u.g,
    add v.h u.h⟩

/-- The eight hexadecimal digits of a word. -/
def hexWord (x : ℕ) : Text :=
  (List.range 8).map fun i => Nat.digitChar (x / 16 ^ (7 - i) % 16)

/-- The hexadecimal digest of the UTF-8 bytes of a text. -/
def hexdigest (t : Text) : Text :=
  let message := wordsOf (pad (t.flatMap utf8))
  let v := (blocks (message.length / 16) message).foldl compress initial
  [v.a, v.b, v.c, v.d, v.e, v.f, v.g, v.h].flatMap hexWord

/-- The hexadecimal digest of bytes. -/
def hexdigestBytes (bytes : List UInt8) : Text :=
  let message := wordsOf (pad (bytes.map UInt8.toNat))
  let v := (blocks (message.length / 16) message).foldl compress initial
  [v.a, v.b, v.c, v.d, v.e, v.f, v.g, v.h].flatMap hexWord

/-- `int.from_bytes(digest, "big")` for the digest of the UTF-8 bytes of a text. -/
def toInt (t : Text) : ℕ :=
  let message := wordsOf (pad (t.flatMap utf8))
  let v := (blocks (message.length / 16) message).foldl compress initial
  [v.a, v.b, v.c, v.d, v.e, v.f, v.g, v.h].foldl (fun n word => 2 ^ 32 * n + word) 0

example : hexdigest ['a', 'b', 'c'] =
    "ba7816bf8f01cfea414140de5dae2223b00361a396177a9cb410ff61f20015ad".toList := by
  decide +kernel

end Sha256

end Py
