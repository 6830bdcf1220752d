import HelloExtensions.Extension.Region
import HelloExtensions.Tracing

/-!
Decoders that follow a configuration. A call gives the result of decoding and tells what it has
logged and printed. A region is traced before it is decoded, and its extensions only after all
of them are decoded and not too many; so a failure leaves one record and no extension's trace.
All decoders share one logger, whose level is that of the configuration checked last, and the
file for the log is opened only if the root logger has no handler yet.
-/
namespace HelloExtensions

open Settings

structure Decoder where
  configuration : Configuration
  tracer : Tracer

/-- What a call results in, and what it has logged and printed. -/
structure Call (α : Type) where
  result : α
  records : List LogRecord
  printed : String

def Call.map {α β : Type} (f : α → β) (call : Call α) : Call β :=
  { call with result := f call.result }

namespace Decoder

inductive CreationError where
  | merge (reason : MergeError)
  | configuration (reason : ConfigurationError)
  /-- The file that is named for the log is not opened. -/
  | logFile (reason : FileError)
deriving Inhabited

/-- The error that comes of what is found wrong with a configuration. -/
def CreationError.ofConfiguration (host : Host) (e : ConfigurationError) : CreationError :=
  .configuration (e.raised host.digitLimit?)

/-- What a configuration says about tracing. -/
def debugSettings (configuration : Configuration) : Snapshot :=
  ((configuration.table.lookup "debug").map configuration.snapshot).getD (.plain .null)

/-- Make a decoder of a configuration that has passed its check. The level of the logger changes
first, then the file for the log is opened, and the tracer is made last. -/
def ofConfiguration (host : Host) (configuration : Configuration) (logging : Logging) :
    Except CreationError Decoder × Logging :=
  let leveled := { logging with level := configuration.logLevel }
  match leveled.attach host configuration.logPath? with
  | .error e => (.error (.logFile e), leveled)
  | .ok attached =>
    match Tracer.ofSettings (debugSettings configuration) with
    | .error e => (.error (.ofConfiguration host e), attached)
    | .ok tracer => (.ok ⟨configuration, tracer⟩, attached)

/-- Make a decoder from settings that are merged into the template. -/
def create (host : Host) (settings? : Option Value) (logging : Logging) :
    Except CreationError Decoder × Logging :=
  match Configuration.merged settings? with
  | (.error e, _) => (.error (.merge e), logging)
  | (.ok _, configuration) =>
    match configuration.check with
    | (.error e, _) => (.error (.ofConfiguration host e), logging)
    | (.ok (), configuration) => ofConfiguration host configuration logging

/-- The record of an error that keeps bytes from being decoded. -/
def recordOf (incomplete : String) (e : ExtensionError) : List LogRecord :=
  match e, e.report? with
  | .incomplete _, some report => [⟨.debug, incomplete ++ ": " ++ report.message⟩]
  | _, some report => [⟨.warning, report.status.plain ++ ": " ++ report.message⟩]
  | _, none => []

def extensionRecord (ext : Extension) : LogRecord :=
  ⟨.debug, s!"{ext.type.text} [{ext.length} bytes]"⟩

/-- The most extensions that a region may have, if there is a limit. -/
def limit? (decoder : Decoder) : Except ShapeError (Option Int) := do
  match ← decoder.configuration.decoderSetting "max_extensions" with
  | .plain .null => return none
  | .plain (.int n) => return some n
  | _ => .error .unsupported

/-- Decode a region. -/
def decode (decoder : Decoder) (bytes : List UInt8) :
    Call (Except ExtensionError (List Extension)) :=
  let traced := decoder.tracer.input bytes
  match Extension.decodeAll bytes with
  | .error e => ⟨.error e, recordOf s!"incomplete extensions [{bytes.length} bytes]" e, traced⟩
  | .ok exts =>
    match decoder.limit? with
    | .error e => ⟨.error (.shape e), [], traced⟩
    | .ok limit? =>
      match limit?.filter fun limit => limit < (exts.length : Int) with
      | some limit =>
        let e := ExtensionError.tooMany exts.length limit
        ⟨.error e, (e.report?.map fun r => ⟨.warning, r.message⟩).toList, traced⟩
      | none =>
        ⟨.ok exts, exts.map extensionRecord,
          traced ++ String.join (exts.map decoder.tracer.extension)⟩

/-- Decode the extension at the start of the bytes. -/
def decodeOne (decoder : Decoder) (bytes : List UInt8) :
    Call (Except ExtensionError (Extension × List UInt8)) :=
  match Extension.decode bytes with
  | .error e => ⟨.error e, recordOf "incomplete extension" e, ""⟩
  | .ok (ext, rest) => ⟨.ok (ext, rest), [extensionRecord ext], decoder.tracer.extension ext⟩

/-- The numbers of the types of a list of extensions, and how many of these are GREASE and how
many of unknown layout. -/
structure Summary where
  types : List Int
  grease : Nat
  unknown : Nat
deriving DecidableEq, Repr

/-- The label of a content. -/
def labelOf (ext : Extension) : Option String :=
  match ext.content.entry "_name" with
  | .ok label => label.text?
  | .error _ => none

/-- Summarise extensions. The GREASE ones may be counted as unknown. -/
def summary (decoder : Decoder) (exts : List Extension) : Except ShapeError Summary := do
  let slot ← decoder.configuration.decoderSetting "grease_as_unknown"
  let separate := match slot with
    | .plain (.bool b) => !b
    | _ => false
  let grease := exts.countP fun ext => labelOf ext == some "Grease"
  let unknown := exts.countP fun ext => labelOf ext == some "Unknown"
  let types := exts.map fun ext => ext.type.number
  return if separate then ⟨types, grease, unknown⟩ else ⟨types, 0, grease + unknown⟩

end Decoder
end HelloExtensions
