import HelloExtensions.Schema.Fault

/-!
Why extensions are not decoded, and why a question about them has no answer. Malformed bytes
are told from an incomplete input, which more bytes can mend.
-/
namespace HelloExtensions

/-- A code point is shown by its name, or else by its number. -/
def CodePoint.text (c : CodePoint) : String := c.name?.getD (toString c.number)

/-- The bytes that are found to be malformed. -/
inductive Subject where
  | extension (type : CodePoint) (length : Nat)
  /-- A content field as it is laid out in one kind of message. -/
  | payload (field message : String)
deriving DecidableEq, Repr

def Subject.text : Subject → String
  | .extension type length => s!"{type.text} extension [{length} bytes]"
  | .payload field message => s!"{field} in {message}"

inductive ExtensionError where
  | incomplete (needed : Nat)
  | malformed (subject : Subject) (path : List String) (reason : Mismatch)
  | unexpectedType (expected found : CodePoint)
  | tooMany (count : Nat) (limit : Int)
  | unknownType (found : Value)
  | typeOutOfRange (found : Value)
  /-- A content of unknown layout is asked for the type of its extension. -/
  | untyped
  | unexpectedMessage (found : Value)
  | fault (reason : Fault)
deriving Inhabited

namespace ExtensionError

/-- A mismatch makes the subject malformed. -/
def ofFault (subject : Subject) : Fault → ExtensionError
  | .mismatch path reason => .malformed subject path reason
  | reason => .fault reason

def shape (reason : ShapeError) : ExtensionError := .fault (.shape reason)

/-- The integers in the report that callers have chosen. -/
def integers : ExtensionError → List Int
  | .unknownType found => found.shownIntegers
  | .typeOutOfRange found => found.shownIntegers
  | .unexpectedMessage found => found.shownIntegers
  | _ => []

/-- What comes of an error that is put into words. -/
def raised (limit? : Option Text.Numeral.DigitLimit) (e : ExtensionError) : ExtensionError :=
  match Text.Numeral.exceeded? limit? e.integers with
  | some limit => shape (.longInteger limit)
  | none => e

/-- What made the subject malformed. -/
def cause? : ExtensionError → Option Mismatch
  | .malformed _ _ reason => some reason
  | _ => none

end ExtensionError
end HelloExtensions
