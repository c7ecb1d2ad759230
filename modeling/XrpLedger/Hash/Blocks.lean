import XrpLedger.Bytes

/-!
# Messages in blocks

What the digests of this library share: a message is filled up to whole blocks, its length in the
last bytes, and the blocks are stirred into a state one after the other.
-/

set_option autoImplicit false

namespace XrpLedger.Blocks

/-- The message with a one bit, zeros and the bytes of its length, in whole blocks of `size`
bytes. -/
def pad (size : Nat) (message lengthBytes : Bytes) : Bytes :=
  let zeros := (2 * size - 1 - lengthBytes.length - message.length % size) % size
  message ++ 0x80 :: (List.replicate zeros 0 ++ lengthBytes)

variable {State : Type}

/-- Stirs the first `count` blocks of `size` bytes into the state. -/
def absorb (size : Nat) (compress : State → Bytes → State) : (count : Nat) → State → Bytes → State
  | 0, s, _ => s
  | count + 1, s, bytes =>
    absorb size compress count (compress s (bytes.take size)) (bytes.drop size)

/-- Stirs all whole blocks of a byte string into the state. -/
def absorbAll (size : Nat) (compress : State → Bytes → State) (s : State) (bytes : Bytes) : State :=
  absorb size compress (bytes.length / size) s bytes

end XrpLedger.Blocks
