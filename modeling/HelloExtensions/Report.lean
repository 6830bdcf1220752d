import HelloExtensions.Extension.Error

/-!
How errors are reported: under one of four kinds, with a status for programs and a message for
readers. An incomplete input also tells how many bytes are missing, and says so if it is given
no other message. Callers may report errors of their own, and what they give for a status, a
message or a number need not be one.
-/
namespace HelloExtensions

namespace Report

inductive Kind where
  | general
  | incomplete
  | verification
  | configuration
deriving DecidableEq, Repr

end Report

structure Report where
  kind : Report.Kind
  status : Value
  message : String
  needed? : Option Value

namespace Report

def general (status message : Value) : Report := ⟨.general, status, message.plain, none⟩

/-- Whether a message says nothing at all. -/
def isEmpty : Value → Bool
  | .text s => s == ""
  | _ => false

def incomplete (needed message : Value) : Report :=
  ⟨.incomplete, .text "incomplete",
    if isEmpty message then s!"{needed.plain} more byte(s) needed" else message.plain,
    some needed⟩

/-- The report on an incomplete input, where the number of missing bytes may be too long. -/
def incomplete? (limit? : Option Text.Numeral.DigitLimit) (needed message : Value) :
    Except ShapeError Report :=
  match Text.Numeral.exceeded? limit? (if isEmpty message then needed.plainIntegers else []) with
  | some limit => .error (.longInteger limit)
  | none => .ok (incomplete needed message)

def verification (status message : Value) : Report :=
  ⟨.verification, status, message.plain, none⟩

def configuration (message : Value) : Report :=
  ⟨.configuration, .text "configuration_error", message.plain, none⟩

/-- The status of a verification error that has no more specific one. -/
def verificationStatus : Value := .text "verification_error"

end Report

namespace ExtensionError

open Report

/-- The report on an error. A fault that no decoding explains is not reported but left bare. -/
def report? : ExtensionError → Option Report
  | .incomplete needed => some (Report.incomplete (.int needed) (.text ""))
  | .malformed subject path reason =>
    some (verification verificationStatus
      (.text (s!"invalid {subject.text}: " ++ reason.located .reading path)))
  | .unexpectedType expected found =>
    some (verification (.text "unexpected_extension_type")
      (.text s!"expecting {expected.text} got {found.text}"))
  | .tooMany count limit =>
    some (verification (.text "too_many_extensions")
      (.text s!"{count} extensions exceed max_extensions ({limit})"))
  | .unknownType found =>
    some (general (.text "unknown_extension_type") (.text found.shown))
  | .typeOutOfRange found =>
    some (general (.text "unknown_extension_type")
      (.text s!"{found.shown} is not a 16 bits extension type"))
  | .untyped =>
    some (general (.text "unknown_extension_type")
      (.text "Unknown extension_data does not carry its extension type"))
  | .unexpectedMessage found =>
    some (general (.text "unexpected_message_type") (.text found.shown))
  | .fault _ => none

end ExtensionError
end HelloExtensions
