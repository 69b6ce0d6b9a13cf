import Dmtap.Lib.Bytes

/-! MD5, which the POP3 digest login needs. -/
namespace Dmtap.Mail
open Lib

def md5Shifts : List UInt32 :=
  [7, 12, 17, 22, 7, 12, 17, 22, 7, 12, 17, 22, 7, 12, 17, 22, 5, 9, 14, 20, 5, 9, 14, 20, 5,
    9, 14, 20, 5, 9, 14, 20, 4, 11, 16, 23, 4, 11, 16, 23, 4, 11, 16, 23, 4, 11, 16, 23, 6, 10,
    15, 21, 6, 10, 15, 21, 6, 10, 15, 21, 6, 10, 15, 21]

def md5Constants : List UInt32 :=
  [0xd76aa478, 0xe8c7b756, 0x242070db, 0xc1bdceee, 0xf57c0faf, 0x4787c62a, 0xa8304613,
    0xfd469501, 0x698098d8, 0x8b44f7af, 0xffff5bb1, 0x895cd7be, 0x6b901122, 0xfd987193,
    0xa679438e, 0x49b40821, 0xf61e2562, 0xc040b340, 0x265e5a51, 0xe9b6c7aa, 0xd62f105d,
    0x02441453, 0xd8a1e681, 0xe7d3fbc8, 0x21e1cde6, 0xc33707d6, 0xf4d50d87, 0x455a14ed,
    0xa9e3e905, 0xfcefa3f8, 0x676f02d9, 0x8d2a4c8a, 0xfffa3942, 0x8771f681, 0x6d9d6122,
    0xfde5380c, 0xa4beea44, 0x4bdecfa9, 0xf6bb4b60, 0xbebfbc70, 0x289b7ec6, 0xeaa127fa,
    0xd4ef3085, 0x04881d05, 0xd9d4d039, 0xe6db99e5, 0x1fa27cf8, 0xc4ac5665, 0xf4292244,
    0x432aff97, 0xab9423a7, 0xfc93a039, 0x655b59c3, 0x8f0ccc92, 0xffeff47d, 0x85845dd1,
    0x6fa87e4f, 0xfe2ce6e0, 0xa3014314, 0x4e0811a1, 0xf7537e82, 0xbd3af235, 0x2ad7d2bb,
    0xeb86d391]

/-- The bytes of a word, least significant byte first. -/
def toLe (w n : ℕ) : Bytes := (toBe w n).reverse

def ofLe (b : Bytes) : UInt32 := UInt32.ofNat (ofBe b.reverse)

def rotateLeft (x s : UInt32) : UInt32 := (x <<< s) ||| (x >>> (32 - s))

structure Md5State where
  a : UInt32
  b : UInt32
  c : UInt32
  d : UInt32

def md5Round (m : List UInt32) (s : Md5State) (i : ℕ) : Md5State :=
  let (f, g) :=
    if i ≤ 15 then ((s.b &&& s.c) ||| (~~~s.b &&& s.d), i)
    else if i ≤ 31 then ((s.d &&& s.b) ||| (~~~s.d &&& s.c), (5 * i + 1) % 16)
    else if i ≤ 47 then (s.b ^^^ s.c ^^^ s.d, (3 * i + 5) % 16)
    else (s.c ^^^ (s.b ||| ~~~s.d), 7 * i % 16)
  let f := f + s.a + md5Constants.getD i 0 + m.getD g 0
  { a := s.d
    d := s.c
    c := s.b
    b := s.b + rotateLeft f (md5Shifts.getD i 0) }

def md5Chunk (s : Md5State) (chunk : Bytes) : Md5State :=
  let m := (List.range 16).map fun i => ofLe ((chunk.drop (i * 4)).take 4)
  let r := (List.range 64).foldl (md5Round m) s
  ⟨s.a + r.a, s.b + r.b, s.c + r.c, s.d + r.d⟩

def md5Pad (input : Bytes) : Bytes :=
  let msg := input ++ [0x80]
  msg ++ List.replicate ((120 - msg.length % 64) % 64) 0 ++ toLe 8 (input.length * 8)

def md5 (input : Bytes) : Bytes :=
  let msg := md5Pad input
  let chunks := (List.range (msg.length / 64)).map fun i => (msg.drop (i * 64)).take 64
  let s := chunks.foldl md5Chunk ⟨0x67452301, 0xefcdab89, 0x98badcfe, 0x10325476⟩
  toLe 4 s.a.toNat ++ toLe 4 s.b.toNat ++ toLe 4 s.c.toNat ++ toLe 4 s.d.toNat

def hexDigit (n : ℕ) : Char := ("0123456789abcdef".toList).getD n '0'

def hex (b : Bytes) : String :=
  String.ofList (b.flatMap fun x => [hexDigit (x.toNat / 16), hexDigit (x.toNat % 16)])

example : hex (md5 (utf8 "abc")) = "900150983cd24fb0d6963f7d28e17f72" := by
  decide +kernel

end Dmtap.Mail
