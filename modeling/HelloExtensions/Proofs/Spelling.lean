import HelloExtensions.Proofs.ReadingScope

/-!
Spellings. A schema spells a value by some bytes if these are the fields of the value one behind
the other and nothing else: a region is its length and what it delimits, a list all its items.
The value may be given in other words than it is read back in, so a spelling relates the two: a
number that has a name may be given by either, and fields that hold what they hold anyway need
not be given. How many bytes a schema takes at least tells what can stand behind a spelling
without being taken for a part of it.
-/
namespace HelloExtensions

open Reading

/-- The value is the number, or else the name that the number has in the registry. -/
def Registry.Denotes (registry : Registry) (given : Value) (n : Nat) : Prop :=
  given.integer? = some (n : Int) ∨
    ∃ name, given.text? = some name ∧ registry.number? name = some n

/-- The names of the fields, those of computed ones as well. -/
def Fields.names : Fields → List String
  | .done => []
  | .label name _ more => name :: more.names
  | .typeNumber name more => name :: more.names
  | .check _ more => more.names
  | .field name _ more => name :: more.names

mutual

/-- In an extension of this length and number, the bytes spell the value that is read, which may
be given in this way. -/
inductive Schema.Spells (length : Nat) (number : Int) :
    Schema → (given read : Value) → List UInt8 → Prop
  | uint {width n : Nat} {given : Value} (hgiven : given.integer? = some (n : Int))
      (hn : n < BigEndian.capacity width) :
      Schema.Spells length number (.uint width) given (.int n) (BigEndian.encode width n)
  | code {registry : Registry} {n : Nat} {given : Value} (hgiven : registry.Denotes given n)
      (hn : n < BigEndian.capacity registry.width) :
      Schema.Spells length number (.code registry) given (.code (registry.codePoint n))
        (BigEndian.encode registry.width n)
  | rest (b : List UInt8) : Schema.Spells length number .rest (.bytes b) (.bytes b) b
  | bytes {up less : Nat} {b : List UInt8} (hlength : b.length + less = length) :
      Schema.Spells length number (.bytes up less) (.bytes b) (.bytes b) b
  | region {width : Nat} {content : Schema} {given read : Value} {b : List UInt8}
      (hcontent : Schema.Spells length number content given read b)
      (hb : b.length < BigEndian.capacity width) :
      Schema.Spells length number (.region width content) given read
        (BigEndian.encode width b.length ++ b)
  | many {item : Schema} {given read : List Value} {b : List UInt8}
      (hitems : Schema.SpellsAll length number item given read b) :
      Schema.Spells length number (.many item) (.list given) (.list read) b
  | single {item : Schema} {given read : Value} {b : List UInt8}
      (hitem : Schema.Spells length number item given read b) :
      Schema.Spells length number (.single item) (.list [given]) (.list [read]) b
  | present {content : Schema} {given read : Value} {b : List UInt8}
      (hcontent : Schema.Spells length number content given read b) :
      Schema.Spells length number (.optional content) given read b
  | absent (content : Schema) : Schema.Spells length number (.optional content) .null .null []
  | passed {up : Nat} {test : LengthTest} {content : Schema} {given read : Value}
      {b : List UInt8} (htest : test.Passes length)
      (hcontent : Schema.Spells length number content given read b) :
      Schema.Spells length number (.onlyIf up test content) given read b
  | failed {up : Nat} {test : LengthTest} {content : Schema} (htest : ¬ test.Passes length) :
      Schema.Spells length number (.onlyIf up test content) .null .null []
  | yes {up : Nat} {test : LengthTest} {yes no : Schema} {given read : Value} {b : List UInt8}
      (htest : test.Passes length) (hyes : Schema.Spells length number yes given read b) :
      Schema.Spells length number (.ifElse up test yes no) given read b
  | no {up : Nat} {test : LengthTest} {yes no : Schema} {given read : Value} {b : List UInt8}
      (htest : ¬ test.Passes length) (hno : Schema.Spells length number no given read b) :
      Schema.Spells length number (.ifElse up test yes no) given read b
  | record {fields : Fields} {given read : List (String × Value)} {b : List UInt8}
      (hnames : ∀ entry ∈ given, entry.1 ∈ fields.names)
      (hfields : Fields.Spells length number given fields read b) :
      Schema.Spells length number (.record fields) (.record given) (.record read) b

inductive Schema.SpellsAll (length : Nat) (number : Int) :
    Schema → (given read : List Value) → List UInt8 → Prop
  | nil (item : Schema) : Schema.SpellsAll length number item [] [] []
  | cons {item : Schema} {given read : Value} {givens reads : List Value} {b c : List UInt8}
      (hitem : Schema.Spells length number item given read b)
      (hitems : Schema.SpellsAll length number item givens reads c) :
      Schema.SpellsAll length number item (given :: givens) (read :: reads) (b ++ c)

/-- The bytes spell the fields of the record `given`. -/
inductive Fields.Spells (length : Nat) (number : Int) :
    (given : List (String × Value)) → Fields → (read : List (String × Value)) →
      List UInt8 → Prop
  | done (given : List (String × Value)) : Fields.Spells length number given .done [] []
  | label {given read : List (String × Value)} {name text : String} {more : Fields}
      {b : List UInt8} (hmore : Fields.Spells length number given more read b) :
      Fields.Spells length number given (.label name text more) ((name, .text text) :: read) b
  | typeNumber {given read : List (String × Value)} {name : String} {more : Fields}
      {b : List UInt8} (hmore : Fields.Spells length number given more read b) :
      Fields.Spells length number given (.typeNumber name more) ((name, .int number) :: read) b
  | check {given read : List (String × Value)} {test : LengthTest} {more : Fields}
      {b : List UInt8} (htest : test.Passes length)
      (hmore : Fields.Spells length number given more read b) :
      Fields.Spells length number given (.check test more) read b
  | field {given read : List (String × Value)} {name : String} {schema : Schema}
      {more : Fields} {found value : Value} {b c : List UInt8}
      (hfound : given.lookup name = some found)
      (hfield : Schema.Spells length number schema found value b)
      (hmore : Fields.Spells length number given more read c) :
      Fields.Spells length number given (.field name schema more) ((name, value) :: read) (b ++ c)

end

mutual

/-- No fewer bytes are read by the schema. -/
def Schema.least : Schema → Nat
  | .uint width => width
  | .code registry => registry.width
  | .rest => 0
  | .bytes _ _ => 0
  | .region width _ => width
  | .many _ => 0
  | .single item => item.least
  | .optional _ => 0
  | .onlyIf _ _ _ => 0
  | .ifElse _ _ yes no => min yes.least no.least
  | .record fields => fields.least

def Fields.least : Fields → Nat
  | .done => 0
  | .label _ _ more => more.least
  | .typeNumber _ more => more.least
  | .check _ more => more.least
  | .field _ schema more => schema.least + more.least

end

theorem length_readAll_le {α : Type} {step : List UInt8 → Except Fault (α × List UInt8)}
    (h : ∀ bytes a rest, step bytes = .ok (a, rest) → rest.length ≤ bytes.length)
    (bytes : List UInt8) : (readAll step bytes).2.length ≤ bytes.length := by
  suffices hrepeat : ∀ limit found b, (repeatStep step limit found b).2.length ≤ b.length from
    hrepeat _ _ _
  intro limit
  induction limit with
  | zero => exact fun found b => Nat.le_refl _
  | succ limit ih =>
    intro found b
    rw [repeatStep]
    split
    · next a rest hstep => exact Nat.le_trans (ih _ rest) (h b a rest hstep)
    · exact Nat.le_refl _

theorem length_takeAmount {size : Amount} {bytes front rest : List UInt8}
    (h : takeAmount size bytes = .ok (front, rest)) : rest.length ≤ bytes.length := by
  unfold takeAmount at h
  split at h
  · cases h
  · split at h
    · split at h
      · cases h
      · obtain ⟨-, -, rfl⟩ := (takeBytes_eq_ok_iff_take _ _ _ _).mp h
        rw [List.length_drop]
        omega
    · cases h

mutual

theorem Schema.least_add_length_le (schema : Schema) {scope value : Value}
    {bytes rest : List UInt8} (h : schema.decode scope bytes = .ok (value, rest)) :
    schema.least + rest.length ≤ bytes.length := by
  cases schema with
  | uint width =>
    obtain ⟨hle, -, rfl⟩ := (Schema.decode_uint_eq_ok_iff _ _ _ _ _).mp h
    rw [Schema.least, List.length_drop]
    omega
  | code registry =>
    obtain ⟨hle, -, rfl⟩ := (Schema.decode_code_eq_ok_iff _ _ _ _ _).mp h
    rw [Schema.least, List.length_drop]
    omega
  | rest =>
    rw [Schema.decode] at h
    cases h
    exact Nat.zero_le _
  | bytes up less =>
    simp only [Schema.decode, bind_eq_ok_iff, Prod.exists] at h
    obtain ⟨size, -, content, left, htake, hpure⟩ := h
    cases hpure
    rw [Schema.least, Nat.zero_add]
    exact length_takeAmount htake
  | region width content =>
    obtain ⟨⟨hle, -⟩, rfl, -⟩ := (Schema.decode_region_eq_ok_iff _ _ _ _ _ _).mp h
    simp only [Schema.least, behind, List.length_drop]
    omega
  | many item =>
    rw [Schema.decode] at h
    cases h
    rw [Schema.least, Nat.zero_add]
    refine length_readAll_le (fun b v r hitem => ?_) bytes
    have hleast := Schema.least_add_length_le item hitem
    omega
  | single item =>
    simp only [Schema.decode, bind_eq_ok_iff, Prod.exists] at h
    obtain ⟨v, left, hitem, hpure⟩ := h
    cases hpure
    exact Schema.least_add_length_le item hitem
  | optional content =>
    rw [Schema.decode] at h
    rw [Schema.least, Nat.zero_add]
    split at h
    · next result hcontent =>
      cases h
      have hleast := Schema.least_add_length_le content hcontent
      omega
    · cases h
      exact Nat.le_refl _
  | onlyIf up test content =>
    simp only [Schema.decode, bind_eq_ok_iff] at h
    obtain ⟨length, -, holds, -, hrest⟩ := h
    rw [Schema.least, Nat.zero_add]
    split at hrest
    · have hleast := Schema.least_add_length_le content hrest
      omega
    · cases hrest
      exact Nat.le_refl _
  | ifElse up test yes no =>
    simp only [Schema.decode, bind_eq_ok_iff] at h
    obtain ⟨length, -, holds, -, hrest⟩ := h
    rw [Schema.least]
    split at hrest
    · have hleast := Schema.least_add_length_le yes hrest
      omega
    · have hleast := Schema.least_add_length_le no hrest
      omega
  | record fields =>
    obtain ⟨entries, hfields, -⟩ := (Schema.decode_record_eq_ok_iff _ _ _ _ _).mp h
    exact Fields.least_add_length_le fields hfields

theorem Fields.least_add_length_le (fields : Fields) {scope : Value} {bytes rest : List UInt8}
    {entries : List (String × Value)} (h : fields.decode scope bytes = .ok (entries, rest)) :
    fields.least + rest.length ≤ bytes.length := by
  cases fields with
  | done =>
    rw [Fields.decode] at h
    cases h
    rw [Fields.least]
    omega
  | label name text more =>
    obtain ⟨others, hmore, -⟩ := (Fields.decode_label_eq_ok_iff _ _ _ _ _ _ _).mp h
    exact Fields.least_add_length_le more hmore
  | typeNumber name more =>
    simp only [Fields.decode, bind_eq_ok_iff, Prod.exists] at h
    obtain ⟨number, -, others, left, hmore, hpure⟩ := h
    cases hpure
    exact Fields.least_add_length_le more hmore
  | check test more =>
    simp only [Fields.decode, bind_eq_ok_iff] at h
    obtain ⟨length, -, holds, -, hmore⟩ := h
    split at hmore
    · exact Fields.least_add_length_le more hmore
    · cases hmore
  | field name schema more =>
    obtain ⟨value, left, hfield, others, hmore, -⟩ :=
      (Fields.decode_field_eq_ok_iff _ _ _ _ _ _ _).mp h
    have hfirst := Schema.least_add_length_le schema hfield
    have hothers := Fields.least_add_length_le more hmore
    rw [Fields.least]
    omega

end

theorem Schema.length_lt_of_decode (schema : Schema) (hpos : 0 < schema.least)
    {scope value : Value} {bytes rest : List UInt8}
    (h : schema.decode scope bytes = .ok (value, rest)) : rest.length < bytes.length :=
  Nat.lt_of_lt_of_le (Nat.lt_add_of_pos_left hpos) (schema.least_add_length_le h)

theorem Schema.exists_fault_of_length_lt {schema : Schema} {bytes : List UInt8}
    (h : bytes.length < schema.least) (scope : Value) :
    ∃ fault, schema.decode scope bytes = .error fault := by
  cases hdecode : schema.decode scope bytes with
  | error fault => exact ⟨fault, rfl⟩
  | ok result =>
    have hleast := schema.least_add_length_le hdecode
    omega

/-- The stricter one of two bounds, each of which may be none. -/
def tighter : Option Nat → Option Nat → Option Nat
  | none, b => b
  | some a, none => some a
  | some a, some b => some (min a b)

mutual

/-- Of bytes that stand behind a spelling, fewer than this many are not taken for a part of it.
There is no bound if bytes behind it do not matter. -/
def Schema.slack : Schema → Option Nat
  | .uint _ => none
  | .code _ => none
  | .rest => some 1
  | .bytes _ _ => none
  | .region _ _ => none
  | .many item => some item.least
  | .single item => item.slack
  | .optional content => some content.least
  | .onlyIf _ _ content => content.slack
  | .ifElse _ _ yes no => tighter yes.slack no.slack
  | .record fields => fields.slack

def Fields.slack : Fields → Option Nat
  | .done => none
  | .label _ _ more => more.slack
  | .typeNumber _ more => more.slack
  | .check _ more => more.slack
  | .field _ schema more => tighter schema.slack more.slack

end

/-- So many bytes may stand behind what has this slack. -/
def Tolerates (slack : Option Nat) (extra : Nat) : Prop :=
  ∀ bound, slack = some bound → extra < bound

theorem tolerates_none (extra : Nat) : Tolerates none extra := by
  intro bound h
  cases h

theorem tolerates_some_iff (bound extra : Nat) : Tolerates (some bound) extra ↔ extra < bound := by
  constructor
  · intro h
    exact h bound rfl
  · intro h other hother
    cases hother
    exact h

theorem tolerates_tighter_iff (a b : Option Nat) (extra : Nat) :
    Tolerates (tighter a b) extra ↔ Tolerates a extra ∧ Tolerates b extra := by
  cases a with
  | none => exact (and_iff_right (tolerates_none extra)).symm
  | some m =>
    cases b with
    | none => exact (and_iff_left (tolerates_none extra)).symm
    | some n =>
      rw [tighter, tolerates_some_iff, tolerates_some_iff, tolerates_some_iff]
      omega

theorem tolerates_nothing {slack : Option Nat} (h : slack.all (0 < ·) = true) :
    Tolerates slack 0 := by
  intro bound hbound
  rw [hbound] at h
  simpa using h

/-- Names of fields that change what else is seen of a record. -/
def Scope.reserved : List String := aroundName :: takenNames

def Fields.isDone : Fields → Bool
  | .done => true
  | _ => false

mutual

/-- The schema does not write null. -/
def Schema.refusesNull : Schema → Bool
  | .uint _ => true
  | .code _ => true
  | .rest => true
  | .region _ content => content.refusesNull
  | _ => false

/-- Items and what may be missing take a byte at least, and none of them nor any field before the
last one minds what is behind it. What may be missing is told from null. No two fields have one
name. -/
def Schema.orderly : Schema → Bool
  | .uint _ => true
  | .code _ => true
  | .rest => true
  | .bytes _ _ => true
  | .region _ content => content.orderly && content.slack.all (0 < ·)
  | .many item => item.orderly && item.slack.isNone && decide (0 < item.least)
  | .single item => item.orderly
  | .optional content =>
    content.orderly && content.slack.isNone && decide (0 < content.least) && content.refusesNull
  | .onlyIf _ _ content => content.orderly
  | .ifElse _ _ yes no => yes.orderly && no.orderly
  | .record fields =>
    fields.orderly && decide (fields.names.Nodup ∧ ∀ name ∈ Scope.reserved, name ∉ fields.names)

def Fields.orderly : Fields → Bool
  | .done => true
  | .label _ _ more => more.orderly
  | .typeNumber _ more => more.orderly
  | .check _ more => more.orderly
  | .field _ schema more =>
    schema.orderly && more.orderly && (schema.slack.isNone || more.isDone)

end

end HelloExtensions
