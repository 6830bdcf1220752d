import HelloExtensions.Text.Numeral
import HelloExtensions.Value.Amount

/-!
Taking values of unknown shape apart. Each question about a value has an answer or a reason
why the value has none.
-/
namespace HelloExtensions

/-- What has its items in an order. -/
inductive Sequence where
  | list
  | text
  | bytes
deriving DecidableEq, Repr

/-- Why a value does not have the shape that an operation needs. -/
inductive ShapeError where
  /-- No field, or no entry of a table, has this key. -/
  | noEntry (key : Value)
  /-- Fields are asked of something that has none. -/
  | noFields
  /-- The operation does not exist for values of this kind. -/
  | unsupported
  | noNumeral (found : Value)
  | longNumeral (digits : Nat)
  /-- An integer is to be written that has more digits than the limit allows. -/
  | longInteger (limit : Nat)
  | noPair (size : Nat)
  /-- The sequence is shorter than the position asks for. -/
  | noItem (kind : Sequence)
  | hugePosition
  | tooWide (number : Value) (width : Int)
  | noWidth (width : Amount)
  | negativeWidth
  | noMemory
  | negativeCode
  | wideCode
deriving Inhabited

namespace ShapeError

/-- A quotation in an error is cut after this many characters. -/
def quotationCap : Nat := 200

def longIntegerText (limit : Nat) : String :=
  s!"Exceeds the limit ({limit} digits) for integer string conversion; " ++
    "use sys.set_int_max_str_digits() to increase the limit"

/-- That a question does not apply to a value is not put into words. -/
def message? : ShapeError → Option String
  | .noEntry key => some key.literal
  | .noFields => none
  | .unsupported => none
  | .noNumeral v =>
    some ("invalid literal for int() with base 10: " ++
      String.ofList (v.literal.toList.take quotationCap))
  | .longNumeral digits =>
    some (s!"Exceeds the limit ({Text.Numeral.digitCap} digits) for integer string conversion: " ++
      s!"value has {digits} digits; use sys.set_int_max_str_digits() to increase the limit")
  | .longInteger limit => some (longIntegerText limit)
  | .noPair n =>
    some (if n < 2 then s!"not enough values to unpack (expected 2, got {n})"
      else "too many values to unpack (expected 2)")
  | .noItem .list => some "list index out of range"
  | .noItem .text => some "string index out of range"
  | .noItem .bytes => some "index out of range"
  | .hugePosition => some "cannot fit 'int' into an index-sized integer"
  | .tooWide n w => some s!"number {n.plain} does not fit width {w}, signed False"
  | .noWidth w => some s!"width {w.text} must be positive"
  | .negativeWidth => some "length argument must be non-negative"
  | .noMemory => some ""
  | .negativeCode => some "can't convert negative int to unsigned"
  | .wideCode => some "int too big to convert"

end ShapeError

/-- Positions are counted up to here, and down to the negative of it. -/
def positionBound : Int := 0x8000000000000000

/-- The item of a sequence at a position, which counts from the end if it is negative. -/
def itemAt {α : Type} (kind : Sequence) (items : List α) (position : Int) :
    Except ShapeError α :=
  if positionBound ≤ position ∨ position < -positionBound then .error .hugePosition
  else
    let index := if position < 0 then position + items.length else position
    if index < 0 then .error (.noItem kind)
    else match items[index.toNat]? with
      | some item => .ok item
      | none => .error (.noItem kind)

namespace Value

/-- An error about a text or byte string that is read as a numeral. Of a byte string no more
bytes are quoted than characters. -/
def numeralError (found : Value) : Text.Numeral.Defect → ShapeError
  | .tooLong digits => .longNumeral digits
  | .malformed => .noNumeral (match found with
    | .bytes b => .bytes (b.take ShapeError.quotationCap)
    | v => v)

/-- The integer that a value stands for; a text is read as a numeral. -/
def number : Value → Except ShapeError Int
  | .code c => .ok c.number
  | .int n => .ok n
  | .bool b => .ok b.toInt
  | .decimal m p => .ok (Amount.fraction m p).truncate
  | .text s => (Text.Numeral.read s).mapError (numeralError (.text s))
  | .bytes b => (Text.Numeral.readBytes b).mapError (numeralError (.bytes b))
  | _ => .error .unsupported

/-- The text that a value is. -/
def text? : Value → Option String
  | .text s => some s
  | .code ⟨_, some name⟩ => some name
  | _ => none

/-- The text under which a value is looked up in a table; lists and records are no keys. -/
def key : Value → Except ShapeError (Option String)
  | .list _ => .error .unsupported
  | .record _ => .error .unsupported
  | v => .ok v.text?

/-- The field of this name, if `v` has fields. -/
def field? (v : Value) (name : String) : Except ShapeError (Option Value) :=
  match v with
  | .record fs => .ok (fs.lookup name)
  | _ => .error .noFields

/-- The field of this name, which has to be there. -/
def entry (v : Value) (name : String) : Except ShapeError Value :=
  match v with
  | .record fs => match fs.lookup name with
    | some w => .ok w
    | none => .error (.noEntry (.text name))
  | _ => .error .unsupported

/-- What a value holds one after the other: a text its characters, bytes their numbers and a
record its names. -/
def elements : Value → Except ShapeError (List Value)
  | .list xs => .ok xs
  | .text s => .ok (s.toList.map fun c => .text (String.singleton c))
  | .code ⟨_, some name⟩ => .ok (name.toList.map fun c => .text (String.singleton c))
  | .bytes b => .ok (b.map fun x => .int x.toNat)
  | .record fs => .ok (fs.map fun f => .text f.1)
  | _ => .error .unsupported

/-- The kind of sequence that a value is. -/
def sequence : Value → Except ShapeError Sequence
  | .list _ => .ok .list
  | .text _ => .ok .text
  | .code ⟨_, some _⟩ => .ok .text
  | .bytes _ => .ok .bytes
  | _ => .error .unsupported

/-- Why items are not a sequence of pairs of a key and something else, if they are not. -/
def pairsError? : List Value → Option ShapeError
  | [] => none
  | v :: vs => match v.elements with
    | .error e => some e
    | .ok [k, _] => match k.key with
      | .error e => some e
      | .ok _ => pairsError? vs
    | .ok others => some (.noPair others.length)

/-- The fields of a value that is written as a record; null has none. Something else is asked
for its pairs and then, by name or not, for a first field. -/
def entries (derivedFirst : Bool) : Value → Except ShapeError (List (String × Value))
  | .record fs => .ok fs
  | .null => .ok []
  | v => do
    let items ← v.elements
    match pairsError? items with
    | some e => .error e
    | none => .error (if derivedFirst then .noFields else .unsupported)

/-- What a value holds under a key: a record under the name of a field, a sequence at a
position. -/
def get (v : Value) (key : Value) : Except ShapeError Value :=
  match v with
  | .record fs => do
    match (← key.key).bind fun name => fs.lookup name with
    | some w => .ok w
    | none => .error (.noEntry key)
  | v => do
    let kind ← v.sequence
    let items ← v.elements
    match key.integer? with
    | some position => itemAt kind items position
    | none => .error .unsupported

end Value
end HelloExtensions
