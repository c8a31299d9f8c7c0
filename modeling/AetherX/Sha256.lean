import Mathlib.Data.Nat.Log

/-! Digests, and SHA-256 itself. The models take the hash as a parameter, since the
sha2 crate is outside the repository; this is the function that parameter stands
for, computed as the standard describes it. -/
namespace AetherX.Sha256

/-- The [u8; 32] of the source. -/
structure Digest where
  bytes : List UInt8
  size : bytes.length=32
  deriving DecidableEq

theorem Digest.ext_bytes {a b : Digest} (h : a.bytes=b.bytes) : a=b := by
  cases a
  cases b
  simp_all

def Digest.zero : Digest := ⟨List.replicate 32 0,List.length_replicate⟩

def roundConstants : List UInt32 := [
  0x428a2f98,0x71374491,0xb5c0fbcf,0xe9b5dba5,0x3956c25b,0x59f111f1,0x923f82a4,0xab1c5ed5,
  0xd807aa98,0x12835b01,0x243185be,0x550c7dc3,0x72be5d74,0x80deb1fe,0x9bdc06a7,0xc19bf174,
  0xe49b69c1,0xefbe4786,0x0fc19dc6,0x240ca1cc,0x2de92c6f,0x4a7484aa,0x5cb0a9dc,0x76f988da,
  0x983e5152,0xa831c66d,0xb00327c8,0xbf597fc7,0xc6e00bf3,0xd5a79147,0x06ca6351,0x14292967,
  0x27b70a85,0x2e1b2138,0x4d2c6dfc,0x53380d13,0x650a7354,0x766a0abb,0x81c2c92e,0x92722c85,
  0xa2bfe8a1,0xa81a664b,0xc24b8b70,0xc76c51a3,0xd192e819,0xd6990624,0xf40e3585,0x106aa070,
  0x19a4c116,0x1e376c08,0x2748774c,0x34b0bcb5,0x391c0cb3,0x4ed8aa4a,0x5b9cca4f,0x682e6ff3,
  0x748f82ee,0x78a5636f,0x84c87814,0x8cc70208,0x90befffa,0xa4506ceb,0xbef9a3f7,0xc67178f2]

structure Chain where
  a : UInt32
  b : UInt32
  c : UInt32
  d : UInt32
  e : UInt32
  f : UInt32
  g : UInt32
  h : UInt32

def Chain.initial : Chain :=
  ⟨0x6a09e667,0xbb67ae85,0x3c6ef372,0xa54ff53a,0x510e527f,0x9b05688c,0x1f83d9ab,0x5be0cd19⟩

def Chain.add (s t : Chain) : Chain :=
  ⟨s.a+t.a,s.b+t.b,s.c+t.c,s.d+t.d,s.e+t.e,s.f+t.f,s.g+t.g,s.h+t.h⟩

def Chain.words (s : Chain) : List UInt32 := [s.a,s.b,s.c,s.d,s.e,s.f,s.g,s.h]

def rotateRight (x n : UInt32) : UInt32 := (x >>> n) ||| (x <<< (32-n))

def Chain.round (s : Chain) (kw : UInt32) : Chain :=
  let s1 := rotateRight s.e 6 ^^^ rotateRight s.e 11 ^^^ rotateRight s.e 25
  let choice := (s.e &&& s.f) ^^^ ((~~~ s.e) &&& s.g)
  let t1 := s.h+s1+choice+kw
  let s0 := rotateRight s.a 2 ^^^ rotateRight s.a 13 ^^^ rotateRight s.a 22
  let majority := (s.a &&& s.b) ^^^ (s.a &&& s.c) ^^^ (s.b &&& s.c)
  ⟨t1+(s0+majority),s.a,s.b,s.c,s.d+t1,s.e,s.f,s.g⟩

def schedule : Nat → List UInt32 → List UInt32
  | n+1, w0::w1::rest =>
    let w9 := rest.getD 7 0
    let w14 := rest.getD 12 0
    let s0 := rotateRight w1 7 ^^^ rotateRight w1 18 ^^^ (w1 >>> 3)
    let s1 := rotateRight w14 17 ^^^ rotateRight w14 19 ^^^ (w14 >>> 10)
    w0::schedule n (w1::rest++[w0+s0+w9+s1])
  | _, _ => []

def compress (s : Chain) (block : List UInt32) : Chain :=
  s.add ((List.zipWith (· + ·) roundConstants (schedule 64 block)).foldl Chain.round s)

def toWords : List UInt8 → List UInt32
  | a::b::c::d::rest =>
    ((a.toUInt32 <<< 24) ||| (b.toUInt32 <<< 16) ||| (c.toUInt32 <<< 8) ||| d.toUInt32)
      :: toWords rest
  | _ => []

def ofWord (w : UInt32) : List UInt8 :=
  [(w >>> 24).toUInt8,(w >>> 16).toUInt8,(w >>> 8).toUInt8,w.toUInt8]

def bigEndian (n : Nat) : List UInt8 :=
  (List.range 8).map fun i => UInt8.ofNat (n >>> (8*(7-i)))

def pad (msg : List UInt8) : List UInt8 :=
  msg++[0x80]++List.replicate ((119-msg.length%64)%64) 0++bigEndian (8*msg.length)

def absorb : Nat → List UInt32 → Chain → Chain
  | 0, _, s => s
  | n+1, words, s => absorb n (words.drop 16) (compress s (words.take 16))

def sha256 (msg : List UInt8) : Digest where
  bytes :=
    let words := toWords (pad msg)
    (absorb (words.length/16) words Chain.initial).words.flatMap ofWord
  size := by simp [Chain.words,ofWord]

/- The standard's one-block test message "abc". -/
example : ((sha256 [0x61,0x62,0x63]).bytes.take 8 ==
    [0xba,0x78,0x16,0xbf,0x8f,0x01,0xcf,0xea])=true := by decide +kernel

end AetherX.Sha256
