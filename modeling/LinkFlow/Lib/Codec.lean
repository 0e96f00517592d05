/-
An encoding that may refuse a value and reads back what it wrote, such as
`encoding/json` on the records a program stores and sends.
-/
import Mathlib.Tactic.Common

set_option autoImplicit false

/-- Values of `A` written as `D`. `encode` fails on a value that has no encoding, `decode`
on data that is none. -/
structure Codec (A D : Type) where
  encode : A → Option D
  decode : D → Option A
  decode_encode : ∀ a d, encode a = some d → decode d = some a

namespace Codec

/-- Every value is its own encoding. -/
def plain (A : Type) : Codec A A where
  encode := some
  decode := some
  decode_encode := by
    intro a d h
    rw [← Option.some.inj h]

end Codec
