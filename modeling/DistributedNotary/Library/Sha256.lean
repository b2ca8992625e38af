import Mathlib.Data.Nat.Digits.Lemmas

/-! The SHA-256 hash function and the big-endian byte strings of natural
numbers. Proofs never unfold the compression function: a result that holds for
it holds for any function of the same type. -/
namespace DistributedNotary.Library.Sha256

abbrev Word := BitVec 32

def roundConstants : List Word :=
  [0x428a2f98, 0x71374491, 0xb5c0fbcf, 0xe9b5dba5, 0x3956c25b, 0x59f111f1, 0x923f82a4, 0xab1c5ed5,
   0xd807aa98, 0x12835b01, 0x243185be, 0x550c7dc3, 0x72be5d74, 0x80deb1fe, 0x9bdc06a7, 0xc19bf174,
   0xe49b69c1, 0xefbe4786, 0x0fc19dc6, 0x240ca1cc, 0x2de92c6f, 0x4a7484aa, 0x5cb0a9dc, 0x76f988da,
   0x983e5152, 0xa831c66d, 0xb00327c8, 0xbf597fc7, 0xc6e00bf3, 0xd5a79147, 0x06ca6351, 0x14292967,
   0x27b70a85, 0x2e1b2138, 0x4d2c6dfc, 0x53380d13, 0x650a7354, 0x766a0abb, 0x81c2c92e, 0x92722c85,
   0xa2bfe8a1, 0xa81a664b, 0xc24b8b70, 0xc76c51a3, 0xd192e819, 0xd6990624, 0xf40e3585, 0x106aa070,
   0x19a4c116, 0x1e376c08, 0x2748774c, 0x34b0bcb5, 0x391c0cb3, 0x4ed8aa4a, 0x5b9cca4f, 0x682e6ff3,
   0x748f82ee, 0x78a5636f, 0x84c87814, 0x8cc70208, 0x90befffa, 0xa4506ceb, 0xbef9a3f7, 0xc67178f2]

def initialHash : List Word :=
  [0x6a09e667, 0xbb67ae85, 0x3c6ef372, 0xa54ff53a, 0x510e527f, 0x9b05688c, 0x1f83d9ab, 0x5be0cd19]

/-- The message followed by `0x80`, zeros and the bit length in eight bytes. -/
def pad (msg : List ℕ) : List ℕ :=
  let zeros := (119 - msg.length % 64) % 64
  let bits := 8 * msg.length
  msg ++ [128] ++ List.replicate zeros 0 ++ (List.range 8).map fun i => bits / 256 ^ (7 - i) % 256

def wordOfBytes (b : List ℕ) : Word := BitVec.ofNat 32 (b.foldl (fun acc x => acc * 256 + x) 0)

/-- The message schedule, newest word first. -/
def schedule : ℕ → List Word → List Word
  | 0, ws => ws
  | n+1, ws =>
    let w15 := ws.getD 14 0
    let w2 := ws.getD 1 0
    let s0 := w15.rotateRight 7 ^^^ w15.rotateRight 18 ^^^ (w15 >>> 3)
    let s1 := w2.rotateRight 17 ^^^ w2.rotateRight 19 ^^^ (w2 >>> 10)
    schedule n ((ws.getD 15 0 + s0 + ws.getD 6 0 + s1) :: ws)

def round (st : List Word) (kw : Word × Word) : List Word :=
  match st with
  | [a, b, c, d, e, f, g, h] =>
    let s1 := e.rotateRight 6 ^^^ e.rotateRight 11 ^^^ e.rotateRight 25
    let ch := (e &&& f) ^^^ (~~~e &&& g)
    let t1 := h + s1 + ch + kw.1 + kw.2
    let s0 := a.rotateRight 2 ^^^ a.rotateRight 13 ^^^ a.rotateRight 22
    let maj := (a &&& b) ^^^ (a &&& c) ^^^ (b &&& c)
    [t1 + s0 + maj, a, b, c, d + t1, e, f, g]
  | _ => st

def compress (st : List Word) (block : List ℕ) : List Word :=
  let ws := (List.range 16).map fun i => wordOfBytes ((block.drop (4*i)).take 4)
  let sched := (schedule 48 ws.reverse).reverse
  List.zipWith (· + ·) st ((roundConstants.zip sched).foldl round st)

def blocks (msg : List ℕ) : List Word :=
  (List.range (msg.length / 64)).foldl (fun st i => compress st ((msg.drop (64*i)).take 64)) initialHash

/-- The digest of a byte string, read as a big-endian number. -/
def digest (msg : List ℕ) : ℕ :=
  (blocks (pad msg)).foldl (fun acc w => acc * 2^32 + w.toNat) 0

/-- The minimal big-endian byte string of a number. -/
def bytes (n : ℕ) : List ℕ := (Nat.digits 256 n).reverse

theorem bytes_injective : Function.Injective bytes := fun _ _ h =>
  Nat.digits.injective 256 (List.reverse_inj.mp h)

/-- Two numbers strung together are the bytes of one. -/
theorem bytes_append (m n : ℕ) : bytes m ++ bytes n = bytes (n + 256 ^ (bytes n).length * m) := by
  rw [bytes, bytes, bytes, ← List.reverse_append, List.length_reverse, Nat.digits_append_digits (by decide)]

example : digest [97, 98, 99] = 0xba7816bf8f01cfea414140de5dae2223b00361a396177a9cb410ff61f20015ad := by
  decide +kernel

end DistributedNotary.Library.Sha256
