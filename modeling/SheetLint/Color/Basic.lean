import SheetLint.Text.Basic
import SheetLint.Text.Digit

/-!
Colors as four bytes, and their hexadecimal notation.
-/
namespace SheetLint

structure Rgba where
  red : UInt8
  green : UInt8
  blue : UInt8
  alpha : UInt8
  deriving DecidableEq, Repr

namespace Rgba

def pair (high low : Nat) : UInt8 := (16 * high + low).toUInt8

def ofDigits? : List Nat → Option Rgba
  | [r, g, b] => some ⟨pair r r, pair g g, pair b b, 255⟩
  | [r, g, b, a] => some ⟨pair r r, pair g g, pair b b, pair a a⟩
  | [r, r', g, g', b, b'] => some ⟨pair r r', pair g g', pair b b', 255⟩
  | [r, r', g, g', b, b', a, a'] => some ⟨pair r r', pair g g', pair b b', pair a a'⟩
  | _ => none

def ofHex? (cs : List Char) : Option Rgba := (Text.hexDigits? cs).bind ofDigits?

def byteDigits (byte : UInt8) : List Char :=
  [Nat.digitChar (byte.toNat / 16), Nat.digitChar (byte.toNat % 16)]

def toHex (color : Rgba) : String :=
  .ofList ('#' :: (byteDigits color.red ++ byteDigits color.green ++ byteDigits color.blue ++
    (if color.alpha = 255 then [] else byteDigits color.alpha)))

end Rgba
end SheetLint
