import Mathlib.Algebra.Group.Nat.Defs
import Mathlib.Data.List.Basic
import Mathlib.Data.Nat.Notation

/-! SHA-256, and bytes as hexadecimal text. -/

namespace Lib.Sha256

/-- The first 32 bits of the fractional parts of the cube roots of the first 64 primes. -/
def K : List UInt32 :=
  [0x428a2f98, 0x71374491, 0xb5c0fbcf, 0xe9b5dba5, 0x3956c25b, 0x59f111f1, 0x923f82a4, 0xab1c5ed5,
   0xd807aa98, 0x12835b01, 0x243185be, 0x550c7dc3, 0x72be5d74, 0x80deb1fe, 0x9bdc06a7, 0xc19bf174,
   0xe49b69c1, 0xefbe4786, 0x0fc19dc6, 0x240ca1cc, 0x2de92c6f, 0x4a7484aa, 0x5cb0a9dc, 0x76f988da,
   0x983e5152, 0xa831c66d, 0xb00327c8, 0xbf597fc7, 0xc6e00bf3, 0xd5a79147, 0x06ca6351, 0x14292967,
   0x27b70a85, 0x2e1b2138, 0x4d2c6dfc, 0x53380d13, 0x650a7354, 0x766a0abb, 0x81c2c92e, 0x92722c85,
   0xa2bfe8a1, 0xa81a664b, 0xc24b8b70, 0xc76c51a3, 0xd192e819, 0xd6990624, 0xf40e3585, 0x106aa070,
   0x19a4c116, 0x1e376c08, 0x2748774c, 0x34b0bcb5, 0x391c0cb3, 0x4ed8aa4a, 0x5b9cca4f, 0x682e6ff3,
   0x748f82ee, 0x78a5636f, 0x84c87814, 0x8cc70208, 0x90befffa, 0xa4506ceb, 0xbef9a3f7, 0xc67178f2]

/-- The eight working words. -/
structure Words where
  a : UInt32
  b : UInt32
  c : UInt32
  d : UInt32
  e : UInt32
  f : UInt32
  g : UInt32
  h : UInt32

def initial : Words :=
  ⟨0x6a09e667, 0xbb67ae85, 0x3c6ef372, 0xa54ff53a, 0x510e527f, 0x9b05688c, 0x1f83d9ab, 0x5be0cd19⟩

def rotr (x : UInt32) (n : UInt32) : UInt32 := (x >>> n) ||| (x <<< (32 - n))

/-- One round, with its message word and constant. -/
def round (s : Words) (kw : UInt32 × UInt32) : Words :=
  let s1 := rotr s.e 6 ^^^ rotr s.e 11 ^^^ rotr s.e 25
  let ch := (s.e &&& s.f) ^^^ (~~~s.e &&& s.g)
  let t1 := s.h + s1 + ch + kw.1 + kw.2
  let s0 := rotr s.a 2 ^^^ rotr s.a 13 ^^^ rotr s.a 22
  let maj := (s.a &&& s.b) ^^^ (s.a &&& s.c) ^^^ (s.b &&& s.c)
  ⟨t1 + (s0 + maj), s.a, s.b, s.c, s.d + t1, s.e, s.f, s.g⟩

/-- The message schedule, newest word first, extended by `n` words. -/
def extend : ℕ → List UInt32 → List UInt32
  | 0, ws => ws
  | n + 1, ws =>
      let w2 := ws.getD 1 0
      let w15 := ws.getD 14 0
      let s0 := rotr w15 7 ^^^ rotr w15 18 ^^^ (w15 >>> 3)
      let s1 := rotr w2 17 ^^^ rotr w2 19 ^^^ (w2 >>> 10)
      extend n ((ws.getD 15 0 + s0 + ws.getD 6 0 + s1) :: ws)

/-- Big-endian words of a run of bytes. -/
def words : List UInt8 → List UInt32
  | b0 :: b1 :: b2 :: b3 :: rest =>
      ((b0.toUInt32 <<< 24) ||| (b1.toUInt32 <<< 16) ||| (b2.toUInt32 <<< 8) ||| b3.toUInt32) ::
        words rest
  | _ => []

/-- One block of 64 bytes. -/
def compress (s : Words) (block : List UInt8) : Words :=
  let t := (K.zip (extend 48 (words block).reverse).reverse).foldl round s
  ⟨s.a + t.a, s.b + t.b, s.c + t.c, s.d + t.d, s.e + t.e, s.f + t.f, s.g + t.g, s.h + t.h⟩

/-- The low `n` bytes, most significant first. -/
def bigEndian (n x : ℕ) : List UInt8 :=
  (List.range n).reverse.map fun i => UInt8.ofNat (x / 256 ^ i)

/-- `0x80`, zeros, and the length in bits, up to a whole number of blocks. -/
def pad (m : List UInt8) : List UInt8 :=
  m ++ 0x80 :: (List.replicate ((119 - m.length % 64) % 64) 0 ++ bigEndian 8 (8 * m.length))

def blocks : ℕ → List UInt8 → List (List UInt8)
  | 0, _ => []
  | n + 1, bs => bs.take 64 :: blocks n (bs.drop 64)

/-- The 32 bytes of the digest. -/
def sha256 (m : List UInt8) : List UInt8 :=
  let padded := pad m
  let s := (blocks (padded.length / 64) padded).foldl compress initial
  [s.a, s.b, s.c, s.d, s.e, s.f, s.g, s.h].flatMap fun w => bigEndian 4 w.toNat

theorem length_bigEndian (n x : ℕ) : (bigEndian n x).length = n := by simp [bigEndian]

@[simp] theorem length_sha256 (m : List UInt8) : (sha256 m).length = 32 := by
  simp [sha256, length_bigEndian]

/-! ### Hexadecimal -/

/-- `bytes.hex`. -/
def hex (bs : List UInt8) : List Char :=
  bs.flatMap fun b => [Nat.digitChar (b.toNat / 16), Nat.digitChar (b.toNat % 16)]

/-- The value of a hexadecimal digit of either case. -/
def hexValue (c : Char) : Option ℕ :=
  if '0' ≤ c ∧ c ≤ '9' then some (c.toNat - 48)
  else if 'a' ≤ c ∧ c ≤ 'f' then some (c.toNat - 87)
  else if 'A' ≤ c ∧ c ≤ 'F' then some (c.toNat - 55)
  else none

/-- ASCII whitespace. -/
def isSpace (c : Char) : Bool := c.toNat ∈ [9, 10, 11, 12, 13, 32]

/-- `bytes.fromhex`: pairs of digits, with ASCII whitespace between pairs skipped. -/
def fromhex : List Char → Option (List UInt8)
  | [] => some []
  | [c] => if isSpace c then some [] else none
  | c :: d :: rest =>
      if isSpace c then fromhex (d :: rest)
      else do
        let hi ← hexValue c
        let lo ← hexValue d
        let bytes ← fromhex rest
        return UInt8.ofNat (16 * hi + lo) :: bytes

@[simp] theorem length_hex (bs : List UInt8) : (hex bs).length = 2 * bs.length := by
  induction bs with
  | nil => rfl
  | cons b bs ih => simp only [hex, List.flatMap_cons, List.length_append] at ih ⊢; simp; omega

theorem hexValue_digitChar : ∀ n < 16, hexValue (Nat.digitChar n) = some n ∧
    isSpace (Nat.digitChar n) = false := by
  decide

/-- What was written is read back. -/
@[simp] theorem fromhex_hex : ∀ bs : List UInt8, fromhex (hex bs) = some bs
  | [] => rfl
  | b :: bs => by
      have hb : b.toNat < 256 := b.toNat_lt
      obtain ⟨hhi, hws⟩ := hexValue_digitChar (b.toNat / 16) (by omega)
      obtain ⟨hlo, -⟩ := hexValue_digitChar (b.toNat % 16) (by omega)
      have hval : UInt8.ofNat (16 * (b.toNat / 16) + b.toNat % 16) = b := by
        rw [Nat.div_add_mod, UInt8.ofNat_toNat]
      have hrest : hex (b :: bs) =
          Nat.digitChar (b.toNat / 16) :: Nat.digitChar (b.toNat % 16) :: hex bs := rfl
      rw [hrest, fromhex, hws, if_neg (by decide), hhi, hlo, fromhex_hex bs]
      exact congrArg (fun x => some (x :: bs)) hval

theorem hex_injective : Function.Injective hex := fun a b h =>
  Option.some.inj (by rw [← fromhex_hex a, h, fromhex_hex])

end Lib.Sha256
