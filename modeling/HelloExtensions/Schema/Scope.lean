import HelloExtensions.Entries
import HelloExtensions.Schema
import HelloExtensions.Schema.Fault

/-!
What a schema can see of the records it is read or written inside of. The scope of a record is
a record as well: it has the fields, and under an underscore what is around the record. A
record that is given to be written may have a field of that name itself, which then hides what
is around. So whatever a schema refers to is looked up as in a value of unknown shape.
-/
namespace HelloExtensions

namespace Scope

def aroundName : String := "_"

def lengthName : String := "_length"

def typeName : String := "extension_type"

/-- What is around a schema that is used on its own. -/
def outermost (length? : Option Value) : Value :=
  .record (length?.map fun length => (lengthName, length)).toList

/-- The scope of a record with these fields. -/
def inside (fields : Entries Value) (around : Value) : Value :=
  .record (fields ++ [(aroundName, around)])

/-- The scope that is `up` records further out. -/
def ascend : (up : Nat) → Value → Except ShapeError Value
  | 0, scope => .ok scope
  | up + 1, scope => do ascend up (← scope.entry aroundName)

/-- Fields that do not hide what is around are passed on the way out. -/
theorem ascend_inside {fields : Entries Value} (h : fields.lookup aroundName = none)
    (up : Nat) (around : Value) : ascend (up + 1) (inside fields around) = ascend up around := by
  have hl : (fields ++ [(aroundName, around)]).lookup aroundName = some around := by
    rw [List.lookup_append, h]
    simp
  simp [ascend, inside, Value.entry, hl, bind, Except.bind]

/-- The length declared by the record that is `up` records further out. -/
def length (scope : Value) (up : Nat) : Except Fault Value :=
  (do (← ascend up scope).entry lengthName : Except ShapeError Value).mapError .shape

/-- The number of the type that the record around the innermost one has. -/
def typeNumber (scope : Value) : Except Fault Int :=
  (do
    match ← (← scope.entry aroundName).field? typeName with
    | some type => type.number
    | none => .error .noFields : Except ShapeError Int).mapError .shape

/-- Names of fields that keep anything optional beside them from being written. -/
def takenNames : List String := ["self", "obj", "stream"]

def hasTakenName (scope : Value) : Bool :=
  takenNames.any fun name => match scope.field? name with
    | .ok found => found.isSome
    | .error _ => false

end Scope

/-- Whether a declared length passes the test. What is no amount differs from every length and
cannot be compared with one. -/
def LengthTest.holds : LengthTest → Value → Except Fault Bool
  | .equals n, length => .ok (length.amount?.any (·.equals n))
  | .positive, length => match length.amount? with
    | some amount => .ok (amount.isAbove 0)
    | none => .error (.shape .unsupported)

/-- What a declared length comes to if `less` bytes of it are taken up already. -/
def Scope.remaining (scope : Value) (up less : Nat) : Except Fault Amount := do
  match (← Scope.length scope up).amount? with
  | some amount => return amount.minus less
  | none => .error (.shape .unsupported)

end HelloExtensions
