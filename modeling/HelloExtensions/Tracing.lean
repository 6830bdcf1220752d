import HelloExtensions.Extension
import HelloExtensions.Settings.Configuration
import HelloExtensions.Text.Folded
import HelloExtensions.Text.Hex
import HelloExtensions.Text.HexDump

/-!
Traces of what is decoded. Bytes are dumped; any other value is shown after its title, and the
whole is quoted and folded. A tracer that is off prints nothing. The integers of what is decoded
are short, but those of other values may be too long to be printed.
-/
namespace HelloExtensions

/-- A dump with the line feed that ends it. -/
def printedBytes (title : String) (bytes : List UInt8) : String :=
  Text.HexDump.titled title bytes ++ "\n"

def printedValue (title : String) : Value → String
  | .bytes b => printedBytes title b
  | value => Text.fold ("  - " ++ title ++ ": " ++ value.shown) ++ "\n"

/-- Print a value that need not have been decoded. -/
def printValue (limit? : Option Text.Numeral.DigitLimit) (title : String) (value : Value) :
    Except ShapeError String :=
  match Text.Numeral.exceeded? limit? value.shownIntegers with
  | some limit => .error (.longInteger limit)
  | none => .ok (printedValue title value)

structure Tracer where
  on : Bool
deriving DecidableEq, Repr

namespace Tracer

open Settings

/-- A tracer as its section of the configuration asks for it. Without a setting it is off. -/
def ofSettings (settings : Snapshot) : Except ConfigurationError Tracer :=
  match settings with
  | .table entries => match entries.lookup "trace" with
    | none => .ok ⟨false⟩
    | some (.plain (.bool b)) => .ok ⟨b⟩
    | some _ => .error (.trace settings)
  | _ => .error .noSection

def input (tracer : Tracer) (bytes : List UInt8) : String :=
  if tracer.on then printedBytes "extensions" bytes else ""

/-- The title of an extension is its type, by name and by number. -/
def title (ext : Extension) : String :=
  ext.type.text ++ " [0x" ++ String.ofList (Text.Hex.padded 4 ext.type.number.toNat) ++ "]"

def extension (tracer : Tracer) (ext : Extension) : String :=
  if tracer.on then printedValue (title ext) ext.content else ""

end Tracer
end HelloExtensions
