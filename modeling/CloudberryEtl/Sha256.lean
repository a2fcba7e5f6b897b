import Mathlib

/-! SHA-256 on byte lists, as FIPS 180-4 defines it, on natural numbers below 2 ^ 32. It evaluates in the kernel: a word
is brought to a numeral before the rest of the computation sees it. -/
namespace CloudberryEtl.Sha256

def wordSize : Nat := 2 ^ 32

def rotateRight (places word : Nat) : Nat := (word >>> places) ||| ((word <<< (32 - places)) % wordSize)

def withWord {α : Type} (word : Nat) (next : Nat → α) : α :=
  match word with
  | 0 => next 0
  | n + 1 => next (n + 1)

def roundConstants : List Nat :=
  [0x428a2f98,0x71374491,0xb5c0fbcf,0xe9b5dba5,0x3956c25b,0x59f111f1,0x923f82a4,0xab1c5ed5,
   0xd807aa98,0x12835b01,0x243185be,0x550c7dc3,0x72be5d74,0x80deb1fe,0x9bdc06a7,0xc19bf174,
   0xe49b69c1,0xefbe4786,0x0fc19dc6,0x240ca1cc,0x2de92c6f,0x4a7484aa,0x5cb0a9dc,0x76f988da,
   0x983e5152,0xa831c66d,0xb00327c8,0xbf597fc7,0xc6e00bf3,0xd5a79147,0x06ca6351,0x14292967,
   0x27b70a85,0x2e1b2138,0x4d2c6dfc,0x53380d13,0x650a7354,0x766a0abb,0x81c2c92e,0x92722c85,
   0xa2bfe8a1,0xa81a664b,0xc24b8b70,0xc76c51a3,0xd192e819,0xd6990624,0xf40e3585,0x106aa070,
   0x19a4c116,0x1e376c08,0x2748774c,0x34b0bcb5,0x391c0cb3,0x4ed8aa4a,0x5b9cca4f,0x682e6ff3,
   0x748f82ee,0x78a5636f,0x84c87814,0x8cc70208,0x90befffa,0xa4506ceb,0xbef9a3f7,0xc67178f2]

structure State where
  (a b c d e f g h : Nat)
  deriving DecidableEq, Repr

def initialState : State :=
  ⟨0x6a09e667,0xbb67ae85,0x3c6ef372,0xa54ff53a,0x510e527f,0x9b05688c,0x1f83d9ab,0x5be0cd19⟩

def round (state : State) (constant word : Nat) : State :=
  let sum1 := rotateRight 6 state.e ^^^ rotateRight 11 state.e ^^^ rotateRight 25 state.e
  let choice := (state.e &&& state.f) ^^^ ((state.e ^^^ (wordSize - 1)) &&& state.g)
  let sum0 := rotateRight 2 state.a ^^^ rotateRight 13 state.a ^^^ rotateRight 22 state.a
  let majority := (state.a &&& state.b) ^^^ (state.a &&& state.c) ^^^ (state.b &&& state.c)
  withWord (state.h + sum1 + choice + constant + word) fun first =>
  withWord ((state.d + first) % wordSize) fun e =>
  withWord ((first + sum0 + majority) % wordSize) fun a =>
  ⟨a,state.a,state.b,state.c,e,state.e,state.f,state.g⟩

def rounds : List Nat → List Nat → State → State
  | k :: ks,[w0,w1,w2,w3,w4,w5,w6,w7,w8,w9,w10,w11,w12,w13,w14,w15],state =>
      let sigma0 := rotateRight 7 w1 ^^^ rotateRight 18 w1 ^^^ (w1 >>> 3)
      let sigma1 := rotateRight 17 w14 ^^^ rotateRight 19 w14 ^^^ (w14 >>> 10)
      withWord ((w0 + sigma0 + w9 + sigma1) % wordSize) fun w16 =>
      rounds ks [w1,w2,w3,w4,w5,w6,w7,w8,w9,w10,w11,w12,w13,w14,w15,w16] (round state k w0)
  | _,_,state => state

def compress (state : State) (block : List Nat) : State :=
  match rounds roundConstants block state with
  | ⟨a,b,c,d,e,f,g,h⟩ =>
    withWord ((state.a + a) % wordSize) fun a => withWord ((state.b + b) % wordSize) fun b =>
    withWord ((state.c + c) % wordSize) fun c => withWord ((state.d + d) % wordSize) fun d =>
    withWord ((state.e + e) % wordSize) fun e => withWord ((state.f + f) % wordSize) fun f =>
    withWord ((state.g + g) % wordSize) fun g => withWord ((state.h + h) % wordSize) fun h => ⟨a,b,c,d,e,f,g,h⟩

def bigEndian (width value : Nat) : List UInt8 :=
  (List.range width).reverse.map (fun place => UInt8.ofNat (value / 256 ^ place))

def padded (input : List UInt8) : List UInt8 :=
  input ++ 0x80 :: List.replicate ((119 - input.length % 64) % 64) 0 ++ bigEndian 8 (input.length * 8)

def words : List UInt8 → List Nat
  | a :: b :: c :: d :: rest =>
      withWord (((a.toNat * 256 + b.toNat) * 256 + c.toNat) * 256 + d.toNat) fun word => word :: words rest
  | _ => []

def compressBlocks : Nat → List Nat → State → State
  | 0,_,state => state
  | blocks + 1,message,state => compressBlocks blocks (message.drop 16) (compress state (message.take 16))

def digest (input : List UInt8) : List UInt8 :=
  let message := words (padded input)
  match compressBlocks (message.length / 16) message initialState with
  | ⟨a,b,c,d,e,f,g,h⟩ => [a,b,c,d,e,f,g,h].flatMap (bigEndian 4)

theorem digestLength (input : List UInt8) : (digest input).length = 32 := by
  simp [digest,bigEndian]

example : digest [97,98,99] =
    [0xba,0x78,0x16,0xbf,0x8f,0x01,0xcf,0xea,0x41,0x41,0x40,0xde,0x5d,0xae,0x22,0x23,
     0xb0,0x03,0x61,0xa3,0x96,0x17,0x7a,0x9c,0xb4,0x10,0xff,0x61,0xf2,0x00,0x15,0xad] := by decide +kernel

end CloudberryEtl.Sha256
