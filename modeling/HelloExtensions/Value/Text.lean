import HelloExtensions.Text.Quoted
import HelloExtensions.Value

/-!
How values are written for readers. The literal of a value is on one line, with quoted texts;
its inline form is on one line too and names lists and records as such. Shown by itself a text
is what it is, and lists and records are listed with one item or field below the other,
indented by four blanks. Neither the inline form nor a listing has the fields whose name starts
with an underscore. A listing cuts long texts and byte strings, and of a record of flags it has
the fields that are set. Beside each of these texts stand the integers that it has, since a text
cannot be written if one of them cannot be.
-/
namespace HelloExtensions.Value

def truth (b : Bool) : String := if b then "True" else "False"

def decimalText (mantissa : Int) (places : Nat) : String :=
  let digits := toString mantissa.natAbs
  let padded := String.ofList (List.replicate (places + 1 - digits.length) '0') ++ digits
  let whole := padded.length - places
  (if mantissa < 0 then "-" else "") ++ String.ofList (padded.toList.take whole) ++ "." ++
    String.ofList (padded.toList.drop whole)

mutual

def literal : Value → String
  | .null => "None"
  | .bool b => truth b
  | .int n => toString n
  | .decimal m p => decimalText m p
  | .text s => Text.quote s
  | .bytes b => Text.quoteBytes b
  | .code ⟨n, none⟩ => toString n
  | .code ⟨n, some name⟩ => "EnumIntegerString.new(" ++ toString n ++ ", " ++ Text.quote name ++ ")"
  | .list xs => "[" ++ ", ".intercalate (literals xs) ++ "]"
  | .record fs => "\x7b" ++ ", ".intercalate (fieldLiterals fs) ++ "\x7d"

def literals : List Value → List String
  | [] => []
  | v :: vs => literal v :: literals vs

def fieldLiterals : List (String × Value) → List String
  | [] => []
  | (name, v) :: fs => (Text.quote name ++ ": " ++ literal v) :: fieldLiterals fs

end

mutual

/-- The integers in the literal. -/
def literalIntegers : Value → List Int
  | .int n => [n]
  | .code c => [c.number]
  | .list xs => itemIntegers xs
  | .record fs => fieldIntegers fs
  | _ => []

def itemIntegers : List Value → List Int
  | [] => []
  | v :: vs => literalIntegers v ++ itemIntegers vs

def fieldIntegers : List (String × Value) → List Int
  | [] => []
  | (_, v) :: fs => literalIntegers v ++ fieldIntegers fs

end

/-- A text as it is, or else the literal. -/
def plain : Value → String
  | .text s => s
  | .code ⟨_, some name⟩ => name
  | v => literal v

def plainIntegers : Value → List Int
  | .code ⟨_, some _⟩ => []
  | v => literalIntegers v

def isListed (name : String) : Bool := name.toList.head? != some '_'

/-- The texts among the fields of a record are marked. -/
def textMark : Value → String
  | .text _ => "u"
  | .code ⟨_, some _⟩ => "u"
  | _ => ""

mutual

def inline : Value → String
  | .list xs => "ListContainer([" ++ ", ".intercalate (inlineItems xs) ++ "])"
  | .record fs => "Container(" ++ ", ".intercalate (inlineFields fs) ++ ")"
  | v => literal v

def inlineItems : List Value → List String
  | [] => []
  | v :: vs => inline v :: inlineItems vs

def inlineFields : List (String × Value) → List String
  | [] => []
  | (name, v) :: fs =>
    if isListed name then (name ++ "=" ++ textMark v ++ inline v) :: inlineFields fs
    else inlineFields fs

end

mutual

def inlineIntegers : Value → List Int
  | .list xs => inlineItemIntegers xs
  | .record fs => inlineFieldIntegers fs
  | v => literalIntegers v

def inlineItemIntegers : List Value → List Int
  | [] => []
  | v :: vs => inlineIntegers v ++ inlineItemIntegers vs

def inlineFieldIntegers : List (String × Value) → List Int
  | [] => []
  | (name, v) :: fs =>
    if isListed name then inlineIntegers v ++ inlineFieldIntegers fs else inlineFieldIntegers fs

end

/-- Whether a flag with this value is set. -/
def isSet : Value → Bool
  | .null => false
  | .bool b => b
  | .int n => n != 0
  | .decimal m _ => m != 0
  | .text s => s != ""
  | .bytes b => !b.isEmpty
  | .code ⟨n, none⟩ => n != 0
  | .code ⟨_, some name⟩ => name != ""
  | .list xs => !xs.isEmpty
  | .record fs => !fs.isEmpty

/-- Whether a record says of itself that its fields are flags. -/
def holdsFlags (fields : List (String × Value)) : Bool :=
  (fields.lookup "_flagsenum").any isSet

/-- A text below the first line, where each further line is indented too. -/
def indented (s : String) : String :=
  String.ofList (s.toList.flatMap fun c => if c = '\n' then "\n    ".toList else [c])

def bytesCap : Nat := 16

def textCap : Nat := 32

/-- A byte string with its size, cut after `bytesCap` bytes. -/
def sizedBytes (b : List UInt8) : String :=
  if b.length ≤ bytesCap then s!"{Text.quoteBytes b} (total {b.length})"
  else s!"{Text.quoteBytes (b.take bytesCap)}... (truncated, total {b.length})"

/-- A text with its size, cut after `textCap` characters. -/
def sizedText (s : String) : String :=
  if s.length ≤ textCap then s!"u{Text.quote s} (total {s.length})"
  else s!"u{Text.quote (String.ofList (s.toList.take textCap))}... (truncated, total {s.length})"

mutual

def shown : Value → String
  | .text s => s
  | .code ⟨_, some name⟩ => name
  | .list xs => "ListContainer: " ++ String.join (listedItems xs)
  | .record fs => "Container: " ++ String.join (listedFields (holdsFlags fs) fs)
  | v => literal v

def listedItems : List Value → List String
  | [] => []
  | v :: vs => ("\n    " ++ indented (shown v)) :: listedItems vs

/-- The fields of a record, or of one of flags those that are set. -/
def listedFields (flags : Bool) : List (String × Value) → List String
  | [] => []
  | (name, v) :: fs =>
    if isListed name && (!flags || isSet v) then
      ("\n    " ++ name ++ " = " ++ fieldText v) :: listedFields flags fs
    else listedFields flags fs

def fieldText : Value → String
  | .code ⟨n, some name⟩ => s!"(enum) {name} {n}"
  | .code ⟨n, none⟩ => s!"(enum) (unknown) {n}"
  | .bytes b => sizedBytes b
  | .text s => sizedText s
  | .list xs => indented ("ListContainer: " ++ String.join (listedItems xs))
  | .record fs => indented ("Container: " ++ String.join (listedFields (holdsFlags fs) fs))
  | v => indented (literal v)

end

mutual

/-- The integers that are in what is shown. -/
def shownIntegers : Value → List Int
  | .code ⟨_, some _⟩ => []
  | .list xs => listedItemIntegers xs
  | .record fs => listedFieldIntegers (holdsFlags fs) fs
  | v => literalIntegers v

def listedItemIntegers : List Value → List Int
  | [] => []
  | v :: vs => shownIntegers v ++ listedItemIntegers vs

def listedFieldIntegers (flags : Bool) : List (String × Value) → List Int
  | [] => []
  | (name, v) :: fs =>
    if isListed name && (!flags || isSet v) then
      fieldTextIntegers v ++ listedFieldIntegers flags fs
    else listedFieldIntegers flags fs

def fieldTextIntegers : Value → List Int
  | .list xs => listedItemIntegers xs
  | .record fs => listedFieldIntegers (holdsFlags fs) fs
  | v => literalIntegers v

end

end HelloExtensions.Value
