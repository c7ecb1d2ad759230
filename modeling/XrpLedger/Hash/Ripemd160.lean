import XrpLedger.Hash.Blocks

/-!
# RIPEMD-160

Two lines of eighty steps run over each block of 64 bytes, one with the block's words in one order
and one in another, and are added to the state at the end. Words are little-endian.
-/

set_option autoImplicit false

namespace XrpLedger.Ripemd160

/-- Which word of the block each step of the left line takes. -/
def leftOrder : Array Nat := #[
  0, 1, 2, 3, 4, 5, 6, 7, 8, 9, 10, 11, 12, 13, 14, 15,
  7, 4, 13, 1, 10, 6, 15, 3, 12, 0, 9, 5, 2, 14, 11, 8,
  3, 10, 14, 4, 9, 15, 8, 1, 2, 7, 0, 6, 13, 11, 5, 12,
  1, 9, 11, 10, 0, 8, 12, 4, 13, 3, 7, 15, 14, 5, 6, 2,
  4, 0, 5, 9, 7, 12, 2, 10, 14, 1, 3, 8, 11, 6, 15, 13]

/-- Which word of the block each step of the right line takes. -/
def rightOrder : Array Nat := #[
  5, 14, 7, 0, 9, 2, 11, 4, 13, 6, 15, 8, 1, 10, 3, 12,
  6, 11, 3, 7, 0, 13, 5, 10, 14, 15, 8, 12, 4, 9, 1, 2,
  15, 5, 1, 3, 7, 14, 6, 9, 11, 8, 12, 2, 10, 0, 4, 13,
  8, 6, 4, 1, 3, 11, 15, 0, 5, 12, 2, 13, 9, 7, 10, 14,
  12, 15, 10, 4, 1, 5, 8, 7, 6, 2, 13, 14, 0, 3, 9, 11]

/-- How far each step of the left line turns. -/
def leftTurns : Array UInt32 := #[
  11, 14, 15, 12, 5, 8, 7, 9, 11, 13, 14, 15, 6, 7, 9, 8,
  7, 6, 8, 13, 11, 9, 7, 15, 7, 12, 15, 9, 11, 7, 13, 12,
  11, 13, 6, 7, 14, 9, 13, 15, 14, 8, 13, 6, 5, 12, 7, 5,
  11, 12, 14, 15, 14, 15, 9, 8, 9, 14, 5, 6, 8, 6, 5, 12,
  9, 15, 5, 11, 6, 8, 13, 12, 5, 12, 13, 14, 11, 8, 5, 6]

/-- How far each step of the right line turns. -/
def rightTurns : Array UInt32 := #[
  8, 9, 9, 11, 13, 15, 15, 5, 7, 7, 8, 11, 14, 14, 12, 6,
  9, 13, 15, 7, 12, 8, 9, 11, 7, 7, 12, 7, 6, 15, 13, 11,
  9, 7, 15, 11, 8, 6, 6, 14, 12, 13, 5, 14, 13, 13, 7, 5,
  15, 5, 8, 11, 14, 14, 6, 14, 6, 9, 12, 9, 12, 5, 15, 8,
  8, 5, 12, 9, 12, 5, 14, 6, 8, 13, 6, 5, 15, 13, 11, 11]

/-- The constants of the left line, one for sixteen steps. -/
def leftConstants : Array UInt32 := #[0x00000000, 0x5a827999, 0x6ed9eba1, 0x8f1bbcdc, 0xa953fd4e]

/-- The constants of the right line, one for sixteen steps. -/
def rightConstants : Array UInt32 := #[0x50a28be6, 0x5c4dd124, 0x6d703ef3, 0x7a6d76e9, 0x00000000]

/-- The five words that the blocks are stirred into. -/
structure State where
  a : UInt32
  b : UInt32
  c : UInt32
  d : UInt32
  e : UInt32

/-- The state before the first block. -/
def initial : State :=
  ⟨0x67452301, 0xefcdab89, 0x98badcfe, 0x10325476, 0xc3d2e1f0⟩

/-- A word turned left by `n` bits, for `n` from 1 to 31. -/
def rotateLeft (x n : UInt32) : UInt32 :=
  (x <<< n) ||| (x >>> (32 - n))

/-- The five mixing functions, one for sixteen steps. -/
def mix (group : Nat) (x y z : UInt32) : UInt32 :=
  match group with
  | 0 => x ^^^ y ^^^ z
  | 1 => (x &&& y) ||| (~~~ x &&& z)
  | 2 => (x ||| ~~~ y) ^^^ z
  | 3 => (x &&& z) ||| (y &&& ~~~ z)
  | _ => x ^^^ (y ||| ~~~ z)

/-- One step: the mixed words, the block's word and the constant go into the first word. -/
def step (s : State) (group : Nat) (input turn : UInt32) : State :=
  let t := rotateLeft (s.a + mix group s.b s.c s.d + input) turn + s.e
  ⟨s.e, t, s.b, rotateLeft s.c 10, s.d⟩

/-- The number that bytes spell, least significant byte first. -/
def littleEndian (bytes : Bytes) : Nat :=
  BigEndian.value bytes.reverse

/-- The sixteen words of a block. -/
def blockWords (block : Bytes) : Array UInt32 :=
  (List.range 16).foldl (fun words i =>
    words.push (UInt32.ofNat (littleEndian ((block.drop (4 * i)).take 4)))) #[]

/-- The eighty steps of one line, with its own order, turns, constants and order of mixing
functions. -/
def line (words : Array UInt32) (order : Array Nat) (turns constants : Array UInt32)
    (group : Nat → Nat) (s : State) : State :=
  (List.range 80).foldl (fun s i =>
    step s (group (i / 16)) (words.getD (order.getD i 0) 0 + constants.getD (i / 16) 0)
      (turns.getD i 0)) s

/-- Stirs one block into the state. -/
def compress (s : State) (block : Bytes) : State :=
  let words := blockWords block
  let l := line words leftOrder leftTurns leftConstants (fun i => i) s
  let r := line words rightOrder rightTurns rightConstants (fun i => 4 - i) s
  ⟨s.b + l.c + r.d, s.c + l.d + r.e, s.d + l.e + r.a, s.e + l.a + r.b, s.a + l.b + r.c⟩

/-- The message in whole blocks, with its length in bits at the end. -/
def pad (message : Bytes) : Bytes :=
  Blocks.pad 64 message (BigEndian.encode 8 (message.length * 8)).reverse

/-- The bytes of the state. -/
def State.bytes (s : State) : Bytes :=
  [s.a, s.b, s.c, s.d, s.e].flatMap fun x => (BigEndian.encode 4 x.toNat).reverse

/-- A state has 20 bytes. -/
theorem State.length_bytes (s : State) : s.bytes.length = 20 := by
  simp [State.bytes]

/-- The digest of a message. -/
def digest (message : Bytes) : FixedBytes 20 :=
  let final := Blocks.absorbAll 64 compress initial (pad message)
  ⟨final.bytes, final.length_bytes⟩

end XrpLedger.Ripemd160
