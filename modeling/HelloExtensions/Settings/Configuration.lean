import HelloExtensions.Logging
import HelloExtensions.Report
import HelloExtensions.Settings.Merge
import HelloExtensions.Settings.Snapshot

/-!
The configuration of a decoder. It starts as a template, into which users merge the settings
that they want to change, and is then checked. The check may leave the level of logging in
capital letters and changes nothing else. An error tells what is wrong, and quotes settings when
it is raised.
-/
namespace HelloExtensions.Settings

/-- All settings that are reached from the table numbered `root`. -/
structure Configuration where
  store : Store
  root : Nat

inductive ConfigurationError where
  | missing (key : String) (settings : Snapshot)
  | log (found : Snapshot)
  | logLevel (found : Snapshot)
  | trace (settings : Snapshot)
  | greaseAsUnknown (settings : Snapshot)
  | limit (settings : Snapshot)
  /-- A section is no table. -/
  | noSection
  /-- An integer is to be quoted that has more digits than the limit allows. -/
  | longInteger (digits : Nat)
deriving Inhabited

namespace ConfigurationError

def message? : ConfigurationError → Option String
  | .missing key settings => some (s!"missing {key} in " ++ settings.literal)
  | .log found =>
    some ("Unexpected value for log " ++ found.shown ++ ". Expecting a file path or None")
  | .logLevel found => some ("unknown log_level " ++ found.shown ++ ".")
  | .trace settings =>
    some ("Unexpected value for trace. Expecting boolean value. " ++ settings.literal)
  | .greaseAsUnknown settings =>
    some ("Unexpected value for grease_as_unknown. Expecting boolean value. " ++
      settings.literal)
  | .limit settings =>
    some ("Unexpected value for max_extensions. Expecting a positive integer or None. " ++
      settings.literal)
  | .noSection => none
  | .longInteger _ => none

/-- The integers in the message. -/
def integers : ConfigurationError → List Int
  | .missing _ settings => settings.literalIntegers
  | .log found => found.shownIntegers
  | .logLevel found => found.shownIntegers
  | .trace settings => settings.literalIntegers
  | .greaseAsUnknown settings => settings.literalIntegers
  | .limit settings => settings.literalIntegers
  | .noSection => []
  | .longInteger _ => []

/-- What comes of an error that is put into words. -/
def raised (limit? : Option Text.Numeral.DigitLimit) (e : ConfigurationError) :
    ConfigurationError :=
  match Text.Numeral.exceeded? limit? e.integers with
  | some digits => .longInteger digits
  | none => e

def report? (e : ConfigurationError) : Option Report :=
  e.message?.map fun message => .configuration (.text message)

end ConfigurationError

namespace Configuration

def template : Value :=
  .record [
    ("description", .text "TLS extensions decoder configuration template"),
    ("log", .null),
    ("log_level", .text "INFO"),
    ("debug", .record [("trace", .bool false)]),
    ("decoder", .record [("grease_as_unknown", .bool false), ("max_extensions", .null)])]

def initial : Configuration :=
  match Store.load template .empty with
  | (.table root, store) => ⟨store, root⟩
  | (_, store) => ⟨store, 0⟩

def table (c : Configuration) : Table := c.store.table c.root

/-- Make room for a value that is going to be merged. -/
def load (c : Configuration) (value : Value) : Slot × Configuration :=
  let (slot, store) := Store.load value c.store
  (slot, { c with store })

/-- What the keys lead to from the root. -/
def follow (c : Configuration) (keys : List Value) : Except ShapeError Slot :=
  c.store.follow keys (.table c.root)

def snapshot (c : Configuration) (slot : Slot) : Snapshot := Snapshot.ofSlot c.store slot

/-- The whole configuration as it can be seen. -/
def view (c : Configuration) : Snapshot := c.snapshot (.table c.root)

/-- Merge a branch into a target, where null stands for the root. -/
def merge (c : Configuration) (branch target : Slot) : Except MergeError Slot × Configuration :=
  let (outcome, store) := Settings.merge c.root branch target c.store
  (outcome, { c with store })

/-- Merge settings as a user writes them into the root. -/
def mergeValue (c : Configuration) (branch : Value) :
    Except MergeError Slot × Configuration :=
  let (slot, c) := c.load branch
  c.merge slot (.plain .null)

/-- The template, with the settings of a user merged into it if there are any. -/
def merged (settings? : Option Value) : Except MergeError Slot × Configuration :=
  match settings? with
  | some settings => initial.mergeValue settings
  | none => (.ok (.plain .null), initial)

def delete (c : Configuration) (key : Value) : Except ShapeError Configuration := do
  match (← key.key).filter fun name => (c.table.lookup name).isSome with
  | some name => .ok { c with store := c.store.modify c.root (Entries.erase name) }
  | none => .error (.noEntry key)

def setLogLevel (c : Configuration) (level : Snapshot) :
    Except ConfigurationError Configuration :=
  match level with
  | .plain (.text s) => match LogLevel.ofText? s with
    | some l =>
      .ok { c with store := c.store.insert c.root "log_level" (.plain (.text l.name)) }
    | none => .error (.logLevel level)
  | _ => .error (.logLevel level)

/-- The keys that a configuration must have. -/
def requiredKeys : List String := ["log", "log_level", "debug", "decoder"]

def isPath : Slot → Bool
  | .plain .null => true
  | .plain (.text _) => true
  | _ => false

def isFlag : Slot → Bool
  | .plain (.bool _) => true
  | _ => false

/-- A limit is a number, which is not negative, or null. -/
def isLimit : Slot → Bool
  | .plain .null => true
  | .plain (.int n) => 0 ≤ n
  | _ => false

def checkKeys (c : Configuration) : Except ConfigurationError Unit :=
  match requiredKeys.find? fun key => (c.table.lookup key).isNone with
  | some key => .error (.missing key c.view)
  | none => .ok ()

def checkLog (c : Configuration) : Except ConfigurationError Unit :=
  match c.table.lookup "log" with
  | some slot => if isPath slot then .ok () else .error (.log (c.snapshot slot))
  | none => .ok ()

def checkDecoder (c : Configuration) : Except ConfigurationError Unit :=
  match c.table.lookup "decoder" with
  | some (.table id) => do
    let settings := c.store.table id
    if ((settings.lookup "grease_as_unknown").map isFlag).getD true then
      if ((settings.lookup "max_extensions").map isLimit).getD true then return ()
      else .error (.limit (c.snapshot (.table id)))
    else .error (.greaseAsUnknown (c.snapshot (.table id)))
  | _ => .error .noSection

/-- Check the settings in turn. What the check of the level has changed stays so if a later
check fails. -/
def check (c : Configuration) : Except ConfigurationError Unit × Configuration :=
  match checkKeys c, checkLog c with
  | .error e, _ => (.error e, c)
  | .ok (), .error e => (.error e, c)
  | .ok (), .ok () =>
    match c.setLogLevel (((c.table.lookup "log_level").map c.snapshot).getD (.plain .null)) with
    | .error e => (.error e, c)
    | .ok c => (checkDecoder c, c)

/-- The file that a configuration which has been checked names for the log. -/
def logPath? (c : Configuration) : Option String :=
  match c.table.lookup "log" with
  | some (.plain (.text path)) => some path
  | _ => none

/-- The level of a configuration that has been checked. -/
def logLevel (c : Configuration) : LogLevel :=
  match c.table.lookup "log_level" with
  | some (.plain (.text s)) => (LogLevel.ofName? s).getD .info
  | _ => .info

/-- A setting of the decoder. -/
def decoderSetting (c : Configuration) (key : String) : Except ShapeError Slot :=
  c.follow [.text "decoder", .text key]

end Configuration
end HelloExtensions.Settings
