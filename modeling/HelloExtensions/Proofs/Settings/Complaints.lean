import HelloExtensions.Proofs.Settings.Accepted
import HelloExtensions.Proofs.Settings.Integers
import HelloExtensions.Proofs.Settings.Paths

/-!
What the check of a configuration complains of, told from the value that the configuration holds. An
error has nothing to say, or it quotes what it has found; then it is reported unless it would quote
an integer that is too long to be written. What is wrong is found out in one order only, so there is
one complaint at most.
-/
namespace HelloExtensions

namespace Settings

/-- Only slots of plain values pass the test. -/
def OnPlain (test : Slot → Bool) : Prop :=
  ∀ slot, test slot = true → ∃ value, slot = .plain value ∧ isPlain value = true

/-- A slot passes such a test if and only if its value does. -/
theorem Holds.test_eq {store : Store} {slot : Slot} {value : Value} {share : Finset Nat}
    (h : Holds store slot value share) {test : Slot → Bool} (htest : OnPlain test) :
    test slot = test (.plain value) := by
  rw [Bool.eq_iff_iff]
  constructor
  · intro hslot
    obtain ⟨found, rfl, -⟩ := htest slot hslot
    rwa [h.eq_of_plain]
  · intro hvalue
    obtain ⟨found, heq, hplain⟩ := htest (.plain value) hvalue
    obtain rfl := Slot.plain.inj heq
    cases h with
    | plain => exact hvalue
    | list => cases hplain
    | table => cases hplain

/-- What an error of the configuration has to say: nothing, or a text with these integers in it. -/
inductive Complaint where
  | wordless
  | quoting (integers : List Int)

/-- There is nothing to say, or one of the integers is too long to be written. -/
def Complaint.GoesUnsaid (host : Host) : Complaint → Prop
  | .wordless => True
  | .quoting integers =>
    ∃ n ∈ integers, ∃ limit ∈ host.digitLimit?, 10 ^ limit.digits ≤ n.natAbs

theorem Complaint.goesUnsaid_quoting_iff (host : Host) (integers : List Int) :
    (quoting integers).GoesUnsaid host ↔
      ¬ ∀ n ∈ integers, Text.Numeral.isWritten host.digitLimit? n = true := by
  simp [GoesUnsaid, Text.Numeral.isWritten_iff]

namespace ConfigurationError

def complaint (e : ConfigurationError) : Complaint :=
  if e.message?.isNone then .wordless else .quoting e.integers

theorem complaint_cases (e : ConfigurationError) :
    e.complaint = .wordless ∨ e.complaint = .quoting e.integers := by
  unfold complaint
  split
  · exact .inl rfl
  · exact .inr rfl

theorem kind_of_report? {e : ConfigurationError} {report : Report} (h : e.report? = some report) :
    report.kind = .configuration := by
  obtain ⟨message, -, rfl⟩ := Option.map_eq_some_iff.mp h
  rfl

/-- An error is raised as it is, or as one about an integer that it would quote. -/
theorem raised_cases (limit? : Option Text.Numeral.DigitLimit) (e : ConfigurationError) :
    (e.raised limit? = e ∧ ∀ n ∈ e.integers, Text.Numeral.isWritten limit? n = true) ∨
      (¬ ∀ n ∈ e.integers, Text.Numeral.isWritten limit? n = true) ∧
        ∃ limit ∈ limit?, e.raised limit? = .longInteger limit.digits := by
  unfold raised
  by_cases hall : ∀ n ∈ e.integers, Text.Numeral.isWritten limit? n = true
  · rw [Text.Numeral.exceeded?_of_all hall]
    exact .inl ⟨rfl, hall⟩
  · obtain ⟨limit, hlimit, hsome⟩ := Text.Numeral.exceeded?_of_not_all hall
    rw [hsome]
    exact .inr ⟨hall, limit, hlimit, rfl⟩

/-- There is no report on an error that has nothing to say or says it with too long an integer. -/
theorem report?_raised_eq_none_iff (host : Host) (e : ConfigurationError) :
    (e.raised host.digitLimit?).report? = none ↔ e.complaint.GoesUnsaid host := by
  have hreport : ∀ found : ConfigurationError,
      found.report? = none ↔ found.message?.isNone = true := fun found => by simp [report?]
  unfold complaint
  rcases raised_cases host.digitLimit? e with ⟨heq, hall⟩ | ⟨hlong, limit, -, heq⟩
  · rw [heq, hreport]
    split
    · next hnone => exact iff_of_true hnone trivial
    · next hsome =>
      exact iff_of_false hsome fun h => (Complaint.goesUnsaid_quoting_iff _ _).mp h hall
  · rw [heq]
    refine iff_of_true rfl ?_
    split
    · trivial
    · exact (Complaint.goesUnsaid_quoting_iff _ _).mpr hlong

end ConfigurationError

namespace Configuration

/-- There is a file for the log, or null in its place. -/
def NamesFile (fields : Entries Value) : Prop :=
  ∃ path, fields.lookup "log" = some path ∧ isPath (.plain path) = true

/-- There is a text that names a level. -/
def NamesLevel (fields : Entries Value) : Prop :=
  ∃ s level, fields.lookup "log_level" = some (.text s) ∧ LogLevel.ofText? s = some level

/-- There is a record under the name. -/
def HasRecord (fields : Entries Value) (name : String) : Prop :=
  ∃ inner, fields.lookup name = some (.record inner)

/-- There is a section for the decoder, and what it says is of the right kind. -/
def DecodesWell (fields : Entries Value) : Prop :=
  ∃ inner, fields.lookup "decoder" = some (.record inner) ∧
    (∀ flag, inner.lookup "grease_as_unknown" = some flag → isFlag (.plain flag) = true) ∧
    ∀ limit, inner.lookup "max_extensions" = some limit → isLimit (.plain limit) = true

/-- There is a section for tracing, and it says to trace or not to, or nothing about it. -/
def TracesWell (fields : Entries Value) : Prop :=
  ∃ inner, fields.lookup "debug" = some (.record inner) ∧
    ∀ flag, inner.lookup "trace" = some flag → isFlag (.plain flag) = true

/-- All settings that the check asks for in a configuration that has its keys. -/
structure Sound (fields : Entries Value) : Prop where
  namesFile : NamesFile fields
  namesLevel : NamesLevel fields
  decodesWell : DecodesWell fields

/-- What there is to say of a section that is not as it should be. All of it is quoted, if it is a
record. -/
inductive QuotesSection (fields : Entries Value) (name : String) : Complaint → Prop
  | missing (hsection : ¬ HasRecord fields name) : QuotesSection fields name .wordless
  | whole {inner : Entries Value} (hinner : fields.lookup name = some (.record inner)) :
      QuotesSection fields name (.quoting (Value.record inner).literalIntegers)

/-- What is wrong with a configuration that has its keys, as it is found out in this order. -/
inductive Complains (fields : Entries Value) : Complaint → Prop
  | log {value : Value} (hfile : ¬ NamesFile fields) (hvalue : fields.lookup "log" = some value) :
      Complains fields (.quoting value.plainIntegers)
  | level {value : Value} (hfile : NamesFile fields) (hlevel : ¬ NamesLevel fields)
      (hvalue : fields.lookup "log_level" = some value) :
      Complains fields (.quoting value.plainIntegers)
  | decoder {complaint : Complaint} (hfile : NamesFile fields) (hlevel : NamesLevel fields)
      (hdecoder : ¬ DecodesWell fields) (hquotes : QuotesSection fields "decoder" complaint) :
      Complains fields complaint
  | tracing {complaint : Complaint} (hsound : Sound fields) (htraces : ¬ TracesWell fields)
      (hquotes : QuotesSection fields "debug" complaint) : Complains fields complaint

/-- The file that is named for the log is wanted, and it is not opened. -/
def Obstructed (host : Host) (logging : Logging) (fields : Entries Value) : Prop :=
  logging.handled = false ∧ ∃ path reason, fields.lookup "log" = some (.text path) ∧
    host.logObstacle? path = some reason

theorem QuotesSection.unique {fields : Entries Value} {name : String} {a b : Complaint}
    (ha : QuotesSection fields name a) (hb : QuotesSection fields name b) : a = b := by
  cases ha with
  | missing hsection =>
    cases hb with
    | missing => rfl
    | whole hinner => exact absurd ⟨_, hinner⟩ hsection
  | whole hinner =>
    cases hb with
    | missing hsection => exact absurd ⟨_, hinner⟩ hsection
    | whole hother => rw [Option.some.inj (hinner.symm.trans hother)]

theorem Complains.not_sound_and_tracesWell {fields : Entries Value} {complaint : Complaint}
    (h : Complains fields complaint) : ¬ (Sound fields ∧ TracesWell fields) := by
  rintro ⟨hsound, hwell⟩
  cases h with
  | log hnone => exact hnone hsound.namesFile
  | level _ hnone => exact hnone hsound.namesLevel
  | decoder _ _ hnone => exact hnone hsound.decodesWell
  | tracing _ hnone => exact hnone hwell

/-- Nothing is said only of a section that is no record. -/
theorem Complains.not_hasRecord {fields : Entries Value} (h : Complains fields .wordless) :
    ¬ ∀ name ∈ ["debug", "decoder"], HasRecord fields name := by
  intro hsections
  cases h with
  | decoder _ _ _ hquotes =>
    cases hquotes with
    | missing hsection => exact hsection (hsections "decoder" (by simp))
  | tracing _ _ hquotes =>
    cases hquotes with
    | missing hsection => exact hsection (hsections "debug" (by simp))

/-- There is one thing that is found out at first. -/
theorem Complains.unique {fields : Entries Value} {a b : Complaint} (ha : Complains fields a)
    (hb : Complains fields b) : a = b := by
  cases ha with
  | log hfile hvalue =>
    cases hb with
    | log _ hother => rw [Option.some.inj (hvalue.symm.trans hother)]
    | level hnames | decoder hnames => exact absurd hnames hfile
    | tracing hsound => exact absurd hsound.namesFile hfile
  | level hfile hlevel hvalue =>
    cases hb with
    | log hnone => exact absurd hfile hnone
    | level _ _ hother => rw [Option.some.inj (hvalue.symm.trans hother)]
    | decoder _ hnames => exact absurd hnames hlevel
    | tracing hsound => exact absurd hsound.namesLevel hlevel
  | decoder hfile hlevel hdecoder hquotes =>
    cases hb with
    | log hnone => exact absurd hfile hnone
    | level _ hnone => exact absurd hlevel hnone
    | decoder _ _ _ hother => exact hquotes.unique hother
    | tracing hsound => exact absurd hsound.decodesWell hdecoder
  | tracing hsound htraces hquotes =>
    cases hb with
    | log hnone => exact absurd hsound.namesFile hnone
    | level _ hnone => exact absurd hsound.namesLevel hnone
    | decoder _ _ hnone => exact absurd hsound.decodesWell hnone
    | tracing _ _ hother => exact hquotes.unique hother

section

variable {c : Configuration} {fields : Entries Value} {name : String} {slot : Slot}

theorem Represents.exists_slot (hc : c.Represents (.record fields)) {value : Value}
    (h : fields.lookup name = some value) :
    ∃ slot share, c.table.lookup name = some slot ∧ Holds c.store slot value share := by
  obtain ⟨share, hholds⟩ := hc
  obtain ⟨slot, hslot, hheld⟩ := hholds.lookup h
  exact ⟨slot, _, hslot, hheld⟩

theorem Represents.exists_value (hc : c.Represents (.record fields))
    (h : c.table.lookup name = some slot) :
    ∃ value share, fields.lookup name = some value ∧ Holds c.store slot value share := by
  obtain ⟨share, hholds⟩ := hc
  obtain ⟨value, hvalue, hheld⟩ := hholds.exists_value h
  exact ⟨value, _, hvalue, hheld⟩

/-- A section is a table if and only if its value is a record. -/
theorem Represents.hasRecord_iff (hc : c.Represents (.record fields))
    (h : c.table.lookup name = some slot) : HasRecord fields name ↔ ∃ id, slot = .table id := by
  obtain ⟨value, share, hvalue, hheld⟩ := hc.exists_value h
  constructor
  · rintro ⟨inner, hinner⟩
    obtain rfl := Option.some.inj (hvalue.symm.trans hinner)
    obtain ⟨id, hid, -⟩ := hheld.exists_table
    exact ⟨id, hid⟩
  · rintro ⟨id, rfl⟩
    obtain ⟨inner, rfl⟩ := hheld.exists_record
    exact ⟨inner, hvalue⟩

theorem onPlain_isPath : OnPlain isPath := by
  intro slot h
  unfold isPath at h
  split at h
  · exact ⟨_, rfl, rfl⟩
  · exact ⟨_, rfl, rfl⟩
  · cases h

theorem onPlain_isFlag : OnPlain isFlag := by
  intro slot h
  unfold isFlag at h
  split at h
  · exact ⟨_, rfl, rfl⟩
  · cases h

theorem onPlain_isLimit : OnPlain isLimit := by
  intro slot h
  unfold isLimit at h
  split at h
  · exact ⟨_, rfl, rfl⟩
  · exact ⟨_, rfl, rfl⟩
  · cases h

/-- A setting that is missing passes; any other one passes if its value does. -/
theorem passes_iff {id : Nat} {inner : Entries Value} {share : Finset Nat}
    (hheld : Holds c.store (.table id) (.record inner) share) {test : Slot → Bool}
    (htest : OnPlain test) (key : String) :
    (((c.store.table id).lookup key).map test).getD true = true ↔
      ∀ found, inner.lookup key = some found → test (.plain found) = true := by
  cases hslot : (c.store.table id).lookup key with
  | none =>
    have hsome := hheld.isSome_lookup_eq key
    rw [hslot, Option.isSome_none] at hsome
    have hnone := Option.isNone_iff_eq_none.mp (Option.isSome_eq_false_iff.mp hsome.symm)
    simp [hnone]
  | some slot =>
    obtain ⟨found, hfound, hfoundHeld⟩ := hheld.exists_value hslot
    simp [hfound, hfoundHeld.test_eq htest]

theorem quotesSection_of_holds {id : Nat} {inner : Entries Value} {share : Finset Nat}
    (hdistinct : (Value.record fields).distinctNames = true)
    (hinner : fields.lookup name = some (.record inner))
    (hheld : Holds c.store (.table id) (.record inner) share) :
    QuotesSection fields name (.quoting (c.snapshot (.table id)).literalIntegers) := by
  have hnames := (Value.distinctNames_record_iff.mp hdistinct).2 name _ hinner
  rw [snapshot, hheld.literalIntegers_eq hnames]
  exact .whole hinner

/-- The check of the section for the decoder. -/
theorem checkDecoder_spec (hc : c.Represents (.record fields))
    (hdistinct : (Value.record fields).distinctNames = true) :
    match c.checkDecoder with
    | .ok () => DecodesWell fields
    | .error e => ¬ DecodesWell fields ∧ QuotesSection fields "decoder" e.complaint := by
  by_cases hsection : ∃ id, c.table.lookup "decoder" = some (.table id)
  · obtain ⟨id, hid⟩ := hsection
    obtain ⟨value, share, hvalue, hheld⟩ := hc.exists_value hid
    obtain ⟨inner, rfl⟩ := hheld.exists_record
    have hquotes := quotesSection_of_holds hdistinct hvalue hheld
    have hwell : DecodesWell fields ↔
        (((c.store.table id).lookup "grease_as_unknown").map isFlag).getD true = true ∧
          (((c.store.table id).lookup "max_extensions").map isLimit).getD true = true := by
      rw [passes_iff hheld onPlain_isFlag, passes_iff hheld onPlain_isLimit]
      constructor
      · rintro ⟨other, hother, hflag, hlimit⟩
        obtain rfl := Value.record.inj (Option.some.inj (hvalue.symm.trans hother))
        exact ⟨hflag, hlimit⟩
      · exact fun h => ⟨inner, hvalue, h.1, h.2⟩
    simp only [checkDecoder, hid, pure, Except.pure]
    rw [hwell]
    by_cases hflag : (((c.store.table id).lookup "grease_as_unknown").map isFlag).getD true = true
    · by_cases hlimit : (((c.store.table id).lookup "max_extensions").map isLimit).getD true = true
      · rw [if_pos hflag, if_pos hlimit]
        exact ⟨hflag, hlimit⟩
      · rw [if_pos hflag, if_neg hlimit]
        exact ⟨fun h => hlimit h.2, hquotes⟩
    · rw [if_neg hflag]
      exact ⟨fun h => hflag h.1, hquotes⟩
  · have hnone : c.checkDecoder = .error .noSection := by
      unfold checkDecoder
      split
      · next id hid => exact absurd ⟨id, hid⟩ hsection
      · rfl
    have hrecord : ¬ HasRecord fields "decoder" := by
      rintro ⟨inner, hinner⟩
      obtain ⟨slot, share, hslot, hheld⟩ := hc.exists_slot hinner
      obtain ⟨id, rfl, -⟩ := hheld.exists_table
      exact hsection ⟨id, hslot⟩
    rw [hnone]
    refine ⟨?_, .missing hrecord⟩
    rintro ⟨inner, hinner, -⟩
    exact hrecord ⟨inner, hinner⟩

theorem checkLog_spec (hc : c.Represents (.record fields))
    (hdistinct : (Value.record fields).distinctNames = true)
    (hsome : (fields.lookup "log").isSome = true) :
    match c.checkLog with
    | .ok () => NamesFile fields
    | .error e => ¬ NamesFile fields ∧ Complains fields e.complaint := by
  obtain ⟨value, hvalue⟩ := Option.isSome_iff_exists.mp hsome
  obtain ⟨slot, share, hslot, hheld⟩ := hc.exists_slot hvalue
  have hnames : NamesFile fields ↔ isPath slot = true := by
    rw [hheld.test_eq onPlain_isPath]
    constructor
    · rintro ⟨path, hpath, hkind⟩
      obtain rfl := Option.some.inj (hvalue.symm.trans hpath)
      exact hkind
    · exact fun hkind => ⟨value, hvalue, hkind⟩
  simp only [checkLog, hslot]
  by_cases hpath : isPath slot = true
  · rw [if_pos hpath]
    exact hnames.mpr hpath
  · have hintegers :=
      hheld.shownIntegers_eq ((Value.distinctNames_record_iff.mp hdistinct).2 _ _ hvalue)
    have hcomplains := Complains.log (mt hnames.mp hpath) hvalue
    rw [← hintegers] at hcomplains
    rw [if_neg hpath]
    exact ⟨mt hnames.mp hpath, hcomplains⟩

/-- What is asked of the level, and what it becomes. -/
theorem checkLevel_spec (hc : c.Represents (.record fields))
    (hdistinct : (Value.record fields).distinctNames = true)
    (hsome : (fields.lookup "log_level").isSome = true) (hfile : NamesFile fields) :
    match c.setLogLevel (((c.table.lookup "log_level").map c.snapshot).getD (.plain .null)) with
    | .ok after => NamesLevel fields ∧ ∃ level : LogLevel,
        after = { c with store := c.store.insert c.root "log_level" (.plain (.text level.name)) }
    | .error e => ¬ NamesLevel fields ∧ Complains fields e.complaint := by
  obtain ⟨value, hvalue⟩ := Option.isSome_iff_exists.mp hsome
  obtain ⟨slot, share, hslot, hheld⟩ := hc.exists_slot hvalue
  have hintegers :=
    hheld.shownIntegers_eq ((Value.distinctNames_record_iff.mp hdistinct).2 _ _ hvalue)
  rw [hslot, Option.map_some, Option.getD_some]
  cases hset : c.setLogLevel (c.snapshot slot) with
  | ok after =>
    obtain ⟨s, level, hsnapshot, hs, hafter⟩ := exists_level_of_setLogLevel hset
    obtain rfl := eq_plain_of_snapshot hsnapshot
    obtain rfl := hheld.eq_of_plain
    exact ⟨⟨s, level, hvalue, hs⟩, level, hafter⟩
  | error e =>
    have hunnamed : ¬ NamesLevel fields := by
      rintro ⟨s, level, hs, hname⟩
      obtain rfl := Option.some.inj (hvalue.symm.trans hs)
      cases hheld
      have hok : c.setLogLevel (.plain (.text s)) = .ok
          { c with store := c.store.insert c.root "log_level" (.plain (.text level.name)) } := by
        simp only [setLogLevel, hname]
      cases hok.symm.trans hset
    have hcomplains := Complains.level hfile hunnamed hvalue
    rw [← hintegers] at hcomplains
    have he : e = .logLevel (c.snapshot slot) := by
      unfold setLogLevel at hset
      split at hset
      · split at hset
        · cases hset
        · exact (Except.error.inj hset).symm
      · exact (Except.error.inj hset).symm
    rw [he]
    exact ⟨hunnamed, hcomplains⟩

end

section

variable {c : Configuration} {fields : Entries Value} {name : String} {slot : Slot}

theorem decodesWell_insert_level (level : LogLevel) :
    DecodesWell (Entries.insert "log_level" (.text level.name) fields) ↔ DecodesWell fields := by
  simp only [DecodesWell, Entries.lookup_insert, if_neg (show "decoder" ≠ "log_level" by decide)]

theorem tracesWell_insert_level (level : LogLevel) :
    TracesWell (Entries.insert "log_level" (.text level.name) fields) ↔ TracesWell fields := by
  simp only [TracesWell, Entries.lookup_insert, if_neg (show "debug" ≠ "log_level" by decide)]

theorem obstructed_insert_level {host : Host} {logging : Logging} (level : LogLevel) :
    Obstructed host logging (Entries.insert "log_level" (.text level.name) fields) ↔
      Obstructed host logging fields := by
  simp only [Obstructed, Entries.lookup_insert, if_neg (show "log" ≠ "log_level" by decide)]

theorem quotesSection_of_insert_level {level : LogLevel} {complaint : Complaint}
    (hname : name ≠ "log_level")
    (h : QuotesSection (Entries.insert "log_level" (.text level.name) fields) name complaint) :
    QuotesSection fields name complaint := by
  have hlookup := Entries.lookup_insert "log_level" name (Value.text level.name) fields
  rw [if_neg hname] at hlookup
  cases h with
  | missing hsection => exact .missing fun ⟨inner, hinner⟩ => hsection ⟨inner, hlookup.trans hinner⟩
  | whole hinner => exact .whole (hlookup.symm.trans hinner)

/-- The check of a configuration that has its keys. -/
theorem check_spec (hc : c.Represents (.record fields))
    (hdistinct : (Value.record fields).distinctNames = true)
    (hkeys : ∀ key ∈ requiredKeys, (fields.lookup key).isSome = true) :
    match c.check with
    | (.ok (), _) => Sound fields
    | (.error e, _) => ¬ Sound fields ∧ Complains fields e.complaint := by
  have hall : c.checkKeys = .ok () := by
    refine checkKeys_eq_ok_iff.mpr fun key hkey => ?_
    obtain ⟨value, hvalue⟩ := Option.isSome_iff_exists.mp (hkeys key hkey)
    obtain ⟨slot, share, hslot, -⟩ := hc.exists_slot hvalue
    exact Option.isSome_iff_exists.mpr ⟨slot, hslot⟩
  have hlog := checkLog_spec hc hdistinct (hkeys "log" (by decide))
  have hlevel := checkLevel_spec hc hdistinct (hkeys "log_level" (by decide))
  unfold check
  rw [hall]
  cases hlogged : c.checkLog with
  | error e =>
    rw [hlogged] at hlog
    exact ⟨fun h => hlog.1 h.namesFile, hlog.2⟩
  | ok result =>
    rw [hlogged] at hlog
    replace hlevel := hlevel hlog
    dsimp only
    cases hset : c.setLogLevel
        (((c.table.lookup "log_level").map c.snapshot).getD (.plain .null)) with
    | error e =>
      rw [hset] at hlevel
      exact ⟨fun h => hlevel.1 h.namesLevel, hlevel.2⟩
    | ok after =>
      rw [hset] at hlevel
      obtain ⟨hname, level, rfl⟩ := hlevel
      have hdecoder := checkDecoder_spec (hc.insert_level level)
        (Value.distinctNames_insert hdistinct rfl "log_level")
      rw [decodesWell_insert_level] at hdecoder
      generalize hwritten : Configuration.mk
        (c.store.insert c.root "log_level" (.plain (.text level.name))) c.root = written
        at hdecoder ⊢
      dsimp only
      rcases hfinal : written.checkDecoder with e | result
      · rw [hfinal] at hdecoder
        refine ⟨fun h => hdecoder.1 h.decodesWell, .decoder hlog hname hdecoder.1 ?_⟩
        exact quotesSection_of_insert_level (by decide) hdecoder.2
      · rw [hfinal] at hdecoder
        exact ⟨hlog, hname, hdecoder⟩

/-- What the section for tracing is asked for. -/
theorem tracing_spec (hc : c.Represents (.record fields))
    (hdistinct : (Value.record fields).distinctNames = true)
    (hsome : (fields.lookup "debug").isSome = true) :
    match Tracer.ofSettings (Decoder.debugSettings c) with
    | .ok _ => TracesWell fields
    | .error e => ¬ TracesWell fields ∧ QuotesSection fields "debug" e.complaint := by
  obtain ⟨value, hvalue⟩ := Option.isSome_iff_exists.mp hsome
  obtain ⟨slot, share, hslot, hheld⟩ := hc.exists_slot hvalue
  rw [Decoder.debugSettings, hslot, Option.map_some, Option.getD_some]
  by_cases hsection : HasRecord fields "debug"
  · obtain ⟨id, rfl⟩ := (hc.hasRecord_iff hslot).mp hsection
    obtain ⟨inner, rfl⟩ := hheld.exists_record
    have hquotes := quotesSection_of_holds hdistinct hvalue hheld
    have hwell : TracesWell fields ↔
        (((c.store.table id).lookup "trace").map isFlag).getD true = true := by
      rw [passes_iff hheld onPlain_isFlag]
      constructor
      · rintro ⟨other, hother, hflag⟩
        obtain rfl := Value.record.inj (Option.some.inj (hvalue.symm.trans hother))
        exact hflag
      · exact fun h => ⟨inner, hvalue, h⟩
    rw [Decoder.ofSettings_table, hwell]
    cases (c.store.table id).lookup "trace" with
    | none => exact rfl
    | some found =>
      have hfails : isFlag found ≠ true → ¬ ((some found).map isFlag).getD true = true ∧
          QuotesSection fields "debug" (.quoting (c.snapshot (.table id)).literalIntegers) :=
        fun hflag => ⟨hflag, hquotes⟩
      cases found with
      | plain value =>
        cases value with
        | bool b => exact rfl
        | _ => exact hfails Bool.false_ne_true
      | _ => exact hfails Bool.false_ne_true
  · have hnone : Tracer.ofSettings (c.snapshot slot) = .error .noSection := by
      cases slot with
      | plain found => rfl
      | list id items => rfl
      | table id => exact absurd ((hc.hasRecord_iff hslot).mpr ⟨id, rfl⟩) hsection
    rw [hnone]
    refine ⟨?_, .missing hsection⟩
    rintro ⟨inner, hinner, -⟩
    exact hsection ⟨inner, hinner⟩

theorem Represents.logObstacle?_eq_some_iff (hc : c.Represents (.record fields)) {host : Host}
    {reason : FileError} : c.logObstacle? host = some reason ↔
      ∃ path, fields.lookup "log" = some (.text path) ∧ host.logObstacle? path = some reason := by
  rw [logObstacle?, Option.bind_eq_some_iff]
  refine exists_congr fun path => and_congr_left fun _ => ?_
  unfold logPath?
  constructor
  · intro hpath
    split at hpath
    · next found hslot =>
      obtain rfl := Option.some.inj hpath
      obtain ⟨value, share, hvalue, hheld⟩ := hc.exists_value hslot
      exact hheld.eq_of_plain ▸ hvalue
    · cases hpath
  · intro hvalue
    obtain ⟨slot, share, hslot, hheld⟩ := hc.exists_slot hvalue
    cases hheld
    rw [hslot]

end

end Configuration

end Settings

end HelloExtensions
