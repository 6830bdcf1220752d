import HelloExtensions.Value.Shape

/-!
What keeps bytes or a value from following a schema. A mismatch is found at a place in the
schema, which is given by the names of the fields that lead to it. What has to do with the
shape of values only is found nowhere in particular.
-/
namespace HelloExtensions

inductive Mismatch where
  | short (wanted found : Nat)
  | negativeLength (length : Amount)
  /-- The length is none that can be read at all. -/
  | unreadable (length : Amount)
  | lengthCheck
  | notInteger (found : Value)
  | outOfRange (number : Int) (width : Nat)
  /-- A number is out of range, and it has more digits than the limit allows to be written. -/
  | longInteger (limit : Nat)
  | noAssignment (found : Value)
  | notBytes (found : Value)
  | wrongSize (wanted : Int) (found : Nat)
  | wrongCount (wanted found : Nat)
  | overfull (built allowed : Nat)
  | noAlternative (found : Value)
deriving Inhabited

inductive Fault where
  | mismatch (path : List String) (reason : Mismatch)
  | shape (reason : ShapeError)
deriving Inhabited

/-- Whether bytes are read or written when a fault is found. -/
inductive Activity where
  | reading
  | writing
deriving DecidableEq, Repr

def Activity.word : Activity → String
  | .reading => "parsing"
  | .writing => "building"

def Mismatch.message (activity : Activity) : Mismatch → String
  | .short wanted found =>
    s!"stream read less than specified amount, expected {wanted}, found {found}"
  | .negativeLength n => s!"length must be non-negative, found {n.text}"
  | .unreadable n => s!"stream.read() failed, requested {n.text} bytes"
  | .lengthCheck => s!"check failed during {activity.word}"
  | .notInteger v => s!"value {v.shown} is not an integer"
  | .outOfRange n width => s!"number {n} does not fit width {width}, signed False"
  | .longInteger limit => ShapeError.longIntegerText limit
  | .noAssignment v => s!"building failed, no mapping for {v.inline}"
  | .notBytes v => s!"given non-bytes value, perhaps unicode? {v.inline}"
  | .wrongSize wanted found =>
    s!"bytes object of wrong length, expected {wanted}, found {found}"
  | .wrongCount wanted found => s!"expected {wanted} elements, found {found}"
  | .overfull built allowed => s!"subcon build {built} bytes but was allowed only {allowed}"
  | .noAlternative v => s!"no subconstruct matched: {v.shown}"

/-- The integers in the message that callers have chosen. -/
def Mismatch.integers : Mismatch → List Int
  | .negativeLength (.whole n) => [n]
  | .unreadable (.whole n) => [n]
  | .notInteger v => v.shownIntegers
  | .outOfRange n _ => [n]
  | .noAssignment v => v.inlineIntegers
  | .notBytes v => v.inlineIntegers
  | .wrongSize wanted _ => [wanted]
  | .noAlternative v => v.shownIntegers
  | _ => []

/-- Kinds of mismatch, which tell callers apart what has gone wrong. -/
inductive Mismatch.Kind where
  | stream
  | check
  | integer
  | mapping
  | string
  | range
  | padding
  | selection
deriving DecidableEq, Repr

/-- Bytes that are missing, and a size that the bytes at hand do not have, are of one kind. -/
def Mismatch.kind : Mismatch → Mismatch.Kind
  | .short _ _ => .stream
  | .negativeLength _ => .stream
  | .unreadable _ => .stream
  | .lengthCheck => .check
  | .notInteger _ => .integer
  | .outOfRange _ _ => .integer
  | .longInteger _ => .integer
  | .noAssignment _ => .mapping
  | .notBytes _ => .string
  | .wrongSize _ _ => .stream
  | .wrongCount _ _ => .range
  | .overfull _ _ => .padding
  | .noAlternative _ => .selection

/-- A mismatch under the path that leads to it. -/
def Mismatch.located (activity : Activity) (path : List String) (reason : Mismatch) : String :=
  "Error in path (" ++ activity.word ++ ")" ++ String.join (path.map (" -> " ++ ·)) ++ "\n" ++
    reason.message activity

namespace Fault

/-- The fault as seen from the record whose field `name` has it. -/
def under (name : String) : Fault → Fault
  | .mismatch path reason => .mismatch (name :: path) reason
  | fault => fault

def integers : Fault → List Int
  | .mismatch _ reason => reason.integers
  | .shape (.tooWide n _) => n.plainIntegers
  | .shape (.noWidth (.whole n)) => [n]
  | .shape _ => []

/-- What comes of a fault that is put into words. A number that is out of range stays a mismatch. -/
def raised (limit? : Option Text.Numeral.DigitLimit) (fault : Fault) : Fault :=
  match Text.Numeral.exceeded? limit? fault.integers, fault with
  | none, fault => fault
  | some limit, .mismatch path (.outOfRange _ _) => .mismatch path (.longInteger limit)
  | some limit, _ => .shape (.longInteger limit)

def message? (activity : Activity) : Fault → Option String
  | .mismatch path reason => some (reason.located activity path)
  | .shape reason => reason.message?

end Fault
end HelloExtensions
