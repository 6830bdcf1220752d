import HelloExtensions.Text.Numeral

/-!
What a program finds where it runs: how many digits an integer may have that it writes, and which
files it cannot open for a log.
-/
namespace HelloExtensions

namespace FileError

inductive Kind where
  | missing
  | directory
  | noDirectory
  | denied
  /-- The path is none that a file can have. -/
  | malformed
  | other
deriving DecidableEq, Repr

end FileError

/-- Why a file is not opened. -/
structure FileError where
  kind : FileError.Kind
  message : String
deriving DecidableEq, Repr

structure Host where
  digitLimit? : Option Text.Numeral.DigitLimit
  /-- What keeps the file at a path from being opened, if anything does. -/
  obstacle? : String → Option FileError

end HelloExtensions
