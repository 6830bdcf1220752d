import HelloExtensions.Proofs.Settings.Complaints
import HelloExtensions.Proofs.Settings.Growth

/-!
Settings for which no decoder is made. The error is one of the configuration, with a report, unless
the settings cannot be merged, the file for the log is not opened, a section is no record when it is
asked for its settings or the report would quote an integer that is too long to be written. Which of
these it is can be told from the value that the settings are merged to.
-/
namespace HelloExtensions

namespace Decoder

open Settings Configuration Value

/-- The report on an error. What keeps settings from being merged goes without one, and so does what
keeps a file from being opened. -/
def CreationError.report? : CreationError → Option Report
  | .merge _ => none
  | .configuration e => e.report?
  | .logFile _ => none

/-- The error is reported as one of the configuration. -/
def CreationError.IsReported (e : CreationError) : Prop :=
  ∃ report, e.report? = some report ∧ report.kind = .configuration

theorem CreationError.isReported_configuration_iff (e : ConfigurationError) :
    (CreationError.configuration e).IsReported ↔ e.report? ≠ none := by
  constructor
  · rintro ⟨report, hreport, -⟩ hnone
    cases hreport.symm.trans hnone
  · intro hsome
    obtain ⟨report, hreport⟩ := Option.ne_none_iff_exists'.mp hsome
    exact ⟨report, hreport, ConfigurationError.kind_of_report? hreport⟩

theorem CreationError.isReported_ofConfiguration_iff (host : Host) (e : ConfigurationError) :
    (CreationError.ofConfiguration host e).IsReported ↔ ¬ e.complaint.GoesUnsaid host := by
  rw [ofConfiguration, isReported_configuration_iff, ne_eq, e.report?_raised_eq_none_iff]

theorem CreationError.not_isReported_logFile (reason : FileError) :
    ¬ (CreationError.logFile reason).IsReported := by
  rintro ⟨report, hreport, -⟩
  cases hreport

section

variable {host : Host} {logging : Logging} {c : Configuration} {fields : Entries Value}

/-- What becomes of a configuration that has passed its check. -/
theorem ofConfiguration_spec (host : Host) (logging : Logging) (hc : c.Represents (.record fields))
    (hdistinct : (Value.record fields).distinctNames = true)
    (hsome : (fields.lookup "debug").isSome = true) :
    match (ofConfiguration host c logging).1 with
    | .ok _ => ¬ Obstructed host logging fields ∧ TracesWell fields
    | .error e => (Obstructed host logging fields ∧ ∃ reason, e = .logFile reason) ∨
        ¬ Obstructed host logging fields ∧ ∃ found, e = .ofConfiguration host found ∧
          ¬ TracesWell fields ∧ QuotesSection fields "debug" found.complaint := by
  by_cases hfree : logging.handled = true ∨ c.logObstacle? host = none
  · have hopen : ¬ Obstructed host logging fields := by
      rintro ⟨hunhandled, path, reason, hpath, hreason⟩
      have hobstacle := hc.logObstacle?_eq_some_iff.mpr ⟨path, hpath, hreason⟩
      simp [hunhandled, hobstacle] at hfree
    have htracing := tracing_spec hc hdistinct hsome
    rw [ofConfiguration_of_no_obstacle hfree, traced]
    cases hmade : Tracer.ofSettings (debugSettings c) with
    | ok tracer =>
      rw [hmade] at htracing
      exact ⟨hopen, htracing⟩
    | error found =>
      rw [hmade] at htracing
      exact .inr ⟨hopen, found, rfl, htracing⟩
  · obtain ⟨hunhandled, hobstacle⟩ := not_or.mp hfree
    obtain ⟨reason, hreason⟩ := Option.ne_none_iff_exists'.mp hobstacle
    have hclosed : logging.handled = false := Bool.eq_false_iff.mpr hunhandled
    obtain ⟨path, hpath⟩ := hc.logObstacle?_eq_some_iff.mp hreason
    rw [ofConfiguration_of_obstacle hreason hclosed]
    exact .inl ⟨⟨hclosed, path, reason, hpath⟩, reason, rfl⟩

/-- What becomes of settings that have been merged. -/
theorem create_spec (host : Host) (logging : Logging) {settings? : Option Value} {merged : Slot}
    (hmerged : Configuration.merged settings? = (.ok merged, c))
    (hc : c.Represents (.record fields)) (hdistinct : (Value.record fields).distinctNames = true)
    (hkeys : ∀ key ∈ requiredKeys, (fields.lookup key).isSome = true) :
    match (create host settings? logging).1 with
    | .ok _ => Sound fields ∧ TracesWell fields ∧ ¬ Obstructed host logging fields
    | .error e => (Sound fields ∧ Obstructed host logging fields ∧ ∃ reason, e = .logFile reason) ∨
        ¬ (Sound fields ∧ Obstructed host logging fields) ∧
          ∃ found, e = .ofConfiguration host found ∧ Complains fields found.complaint := by
  have hcheck := check_spec hc hdistinct hkeys
  unfold create
  rw [hmerged]
  dsimp only
  rcases hchecked : c.check with ⟨found | _, checked⟩
  · rw [hchecked] at hcheck
    obtain ⟨hunsound, hcomplains⟩ := hcheck
    exact .inr ⟨fun h => hunsound h.1, found, rfl, hcomplains⟩
  · rw [hchecked] at hcheck
    obtain ⟨level, hlevel⟩ := hc.check hchecked
    have hdebug := hkeys "debug" (by decide)
    have hspec := ofConfiguration_spec host logging hlevel
      (distinctNames_insert hdistinct rfl "log_level") (by
        rwa [Entries.lookup_insert, if_neg (by decide)])
    rw [obstructed_insert_level, tracesWell_insert_level] at hspec
    dsimp only
    cases hmade : (ofConfiguration host checked logging).1 with
    | ok decoder =>
      rw [hmade] at hspec
      exact ⟨hcheck, hspec.2, hspec.1⟩
    | error e =>
      rw [hmade] at hspec
      rcases hspec with ⟨hclosed, hreason⟩ | ⟨hopen, found, he, htraces, hquotes⟩
      · exact .inl ⟨hcheck, hclosed, hreason⟩
      · exact .inr ⟨fun h => hopen h.2, found, he,
          .tracing hcheck htraces (quotesSection_of_insert_level (by decide) hquotes)⟩

/-- The configuration leads to an error without a report: the log is not opened, or what is wrong is
not said. -/
def Unreported (host : Host) (logging : Logging) (fields : Entries Value) : Prop :=
  (Sound fields ∧ Obstructed host logging fields) ∨
    ∃ complaint, Complains fields complaint ∧ complaint.GoesUnsaid host

theorem unreported_iff_of_complains {complaint : Complaint} (h : Complains fields complaint)
    (hopen : ¬ (Sound fields ∧ Obstructed host logging fields)) :
    Unreported host logging fields ↔ complaint.GoesUnsaid host := by
  constructor
  · rintro (hclosed | ⟨other, hother, hunsaid⟩)
    · exact absurd hclosed hopen
    · exact h.unique hother ▸ hunsaid
  · exact fun hunsaid => .inr ⟨complaint, h, hunsaid⟩

theorem unreported_spec (host : Host) (logging : Logging) {settings? : Option Value} {merged : Slot}
    (hmerged : Configuration.merged settings? = (.ok merged, c))
    (hc : c.Represents (.record fields)) (hdistinct : (Value.record fields).distinctNames = true)
    (hkeys : ∀ key ∈ requiredKeys, (fields.lookup key).isSome = true) :
    (∃ e, (create host settings? logging).1 = .error e ∧ ¬ e.IsReported) ↔
      Unreported host logging fields := by
  have hspec := create_spec host logging hmerged hc hdistinct hkeys
  cases hcreated : (create host settings? logging).1 with
  | ok decoder =>
    rw [hcreated] at hspec
    obtain ⟨hsound, htraces, hopen⟩ := hspec
    refine iff_of_false (by simp) ?_
    rintro (hclosed | ⟨complaint, hcomplains, -⟩)
    · exact hopen hclosed.2
    · exact hcomplains.not_sound_and_tracesWell ⟨hsound, htraces⟩
  | error e =>
    rw [hcreated] at hspec
    rcases hspec with ⟨hsound, hclosed, reason, rfl⟩ | ⟨hopen, found, rfl, hcomplains⟩
    · exact iff_of_true ⟨_, rfl, CreationError.not_isReported_logFile reason⟩
        (.inl ⟨hsound, hclosed⟩)
    · rw [unreported_iff_of_complains hcomplains hopen,
        ← not_not (a := found.complaint.GoesUnsaid _),
        ← CreationError.isReported_ofConfiguration_iff]
      simp

/-- The settings are not merged, or what they are merged to is refused without a report. -/
def GoesUnreported (host : Host) (logging : Logging) (fields : Entries Value) : Prop :=
  match (Value.record fields).merged? (some template) with
  | some value => ∃ result, value = .record result ∧ Unreported host logging result
  | none => True

end

section

variable {fields result : Entries Value} {host : Host} {logging : Logging}

/-- A merge leaves the keys that the check asks for. -/
theorem isSome_lookup_of_merged? (hkeyed : (Value.record fields).wellKeyed = true)
    (h : (Value.record fields).merged? (some template) = some (.record result)) :
    ∀ key ∈ requiredKeys, (result.lookup key).isSome = true := by
  intro key hkey
  obtain ⟨target, htarget⟩ : ∃ target, template = .record target := ⟨_, rfl⟩
  have hthere : (template.at? [key]).isSome = true := by
    revert key
    decide
  rw [htarget] at h hthere
  rw [at?_singleton] at hthere
  obtain ⟨found, hfound, hlookup⟩ := exists_of_merged? hkeyed h key
  obtain rfl := Value.record.inj hfound
  cases hvalue : fields.lookup key with
  | none =>
    rw [hvalue] at hlookup
    rwa [hlookup]
  | some value =>
    rw [hvalue] at hlookup
    obtain ⟨-, inner, -, hresult⟩ := hlookup
    rw [hresult]
    rfl

/-- Settings of which no record lands on null go unreported exactly if what they are merged to
says so. -/
theorem exists_not_isReported_iff (hdistinct : (Value.record fields).distinctNames = true)
    (hnull : ¬ (Value.record fields).LandsOnNull template) (host : Host) (logging : Logging) :
    (∃ e, (create host (some (.record fields)) logging).1 = .error e ∧ ¬ e.IsReported) ↔
      GoesUnreported host logging fields := by
  have hkeyed := wellKeyed_of_distinctNames hdistinct
  have hmerge := mergeValue_of_represents hkeyed represents_initial hnull
  rw [GoesUnreported]
  cases hvalue : (Value.record fields).merged? (some template) with
  | none =>
    rw [hvalue] at hmerge
    obtain ⟨e, c, hmerged⟩ := hmerge
    have herror : (create host (some (.record fields)) logging).1 = .error (.merge e) := by
      simp only [create, Configuration.merged, hmerged]
    refine iff_of_true ⟨_, herror, ?_⟩ trivial
    rintro ⟨report, hreport, -⟩
    cases hreport
  | some value =>
    rw [hvalue] at hmerge
    obtain ⟨c, hmerged, hc⟩ := hmerge
    obtain ⟨result, rfl⟩ := hc.exists_record
    have hresult : (Value.record result).distinctNames = true :=
      distinctNames_of_merged? hdistinct (fun found hfound => Option.some.inj hfound ▸ rfl) hvalue
    have hspec := unreported_spec host logging
      (show Configuration.merged (some (.record fields)) = _ from hmerged) hc hresult
      (isSome_lookup_of_merged? hkeyed hvalue)
    rw [hspec]
    constructor
    · exact fun h => ⟨result, rfl, h⟩
    · rintro ⟨found, hfound, h⟩
      obtain rfl := Value.record.inj hfound
      exact h

/-- Sections of settings that fit the template are sections of what they are merged to. -/
theorem hasRecord_of_fits (hkeyed : (Value.record fields).wellKeyed = true)
    (hsections : ∀ name ∈ ["debug", "decoder"], ∀ value, fields.lookup name = some value →
      ∃ inner, value = .record inner)
    (h : (Value.record fields).overlay (some template) = .record result) :
    ∀ name ∈ ["debug", "decoder"], HasRecord result name := by
  intro name hname
  obtain ⟨target, htarget⟩ : ∃ target, template = .record target := ⟨_, rfl⟩
  have hthere : ∃ own, target.lookup name = some (.record own) := by
    rw [← at?_singleton, ← htarget]
    rcases List.mem_pair.mp hname with rfl | rfl
    · exact ⟨_, rfl⟩
    · exact ⟨_, rfl⟩
  obtain ⟨own, hown⟩ := hthere
  rw [htarget] at h
  have hlookup := lookup_of_overlay hkeyed h name
  rw [at?_singleton, hown] at hlookup
  cases hvalue : fields.lookup name with
  | none =>
    rw [hvalue] at hlookup
    exact ⟨own, hlookup⟩
  | some value =>
    obtain ⟨inner, rfl⟩ := hsections name hname value hvalue
    rw [hvalue] at hlookup
    refine ⟨overlayFields inner own, hlookup.trans ?_⟩
    dsimp only
    rw [overlay]

/-- Errors that go without a report. -/
inductive Escapes (host : Host) (logging : Logging) : CreationError → Prop
  | noTable : Escapes host logging (.merge .noTable)
  | notAssignable : Escapes host logging (.merge .notAssignable)
  | noSection : Escapes host logging (.configuration .noSection)
  | longInteger {limit : Text.Numeral.DigitLimit} (hlimit : limit ∈ host.digitLimit?) :
      Escapes host logging (.configuration (.longInteger limit.digits))
  | logFile {path : String} {reason : FileError} (hunhandled : logging.handled = false)
      (hreason : host.logObstacle? path = some reason) : Escapes host logging (.logFile reason)

/-- No check is about integers that are too long. -/
theorem check_ne_longInteger (c : Configuration) (digits : Nat) :
    c.check.1 ≠ .error (.longInteger digits) := by
  have hkeys : c.checkKeys ≠ .error (.longInteger digits) := by
    unfold checkKeys
    split <;> simp
  have hlog : c.checkLog ≠ .error (.longInteger digits) := by
    unfold checkLog
    split
    · split <;> simp
    · simp
  have hlevel : ∀ level, c.setLogLevel level ≠ .error (.longInteger digits) := by
    intro level
    unfold setLogLevel
    split
    · split <;> simp
    · simp
  have hdecoder : ∀ c : Configuration, c.checkDecoder ≠ .error (.longInteger digits) := by
    intro c
    unfold checkDecoder
    split
    · dsimp only
      split
      · split
        · simp [pure, Except.pure]
        · simp
      · simp
    · simp
  unfold check
  split
  · next e he =>
    rw [he] at hkeys
    exact hkeys
  · next e _ he =>
    rw [he] at hlog
    exact hlog
  · split
    · next e he =>
      intro heq
      obtain rfl := Except.error.inj heq
      exact hlevel _ he
    · exact hdecoder _

theorem ofSettings_ne_longInteger (settings : Snapshot) (digits : Nat) :
    Tracer.ofSettings settings ≠ .error (.longInteger digits) := by
  unfold Tracer.ofSettings
  split
  · split <;> simp
  · simp

theorem isReported_or_escapes_ofConfiguration {e : ConfigurationError}
    (h : ∀ digits, e ≠ .longInteger digits) :
    (CreationError.ofConfiguration host e).IsReported ∨
      Escapes host logging (.ofConfiguration host e) := by
  rcases e.raised_cases host.digitLimit? with ⟨heq, -⟩ | ⟨-, limit, hlimit, heq⟩
  · rw [CreationError.ofConfiguration, heq, CreationError.isReported_configuration_iff]
    cases e with
    | noSection => exact .inr .noSection
    | longInteger digits => exact absurd rfl (h digits)
    | _ => exact .inl (by simp [ConfigurationError.report?, ConfigurationError.message?])
  · rw [CreationError.ofConfiguration, heq]
    exact .inr (.longInteger hlimit)

/-- Whatever keeps a decoder from being made comes to an end, and without a report there are five
ways for it. -/
theorem isReported_or_escapes (hkeyed : (Value.record fields).wellKeyed = true) {e : CreationError}
    (h : (create host (some (.record fields)) logging).1 = .error e) :
    e.IsReported ∨ Escapes host logging e := by
  obtain ⟨outcome, c, hmerge, hreturned⟩ := outcome_of_mergeValue represents_initial hkeyed
  have hmerged : Configuration.merged (some (.record fields)) = (outcome, c) := hmerge
  unfold create at h
  rw [hmerged] at h
  cases outcome with
  | error reason =>
    obtain rfl := Except.error.inj h
    rcases hreturned with rfl | rfl
    · exact .inr .noTable
    · exact .inr .notAssignable
  | ok result =>
    dsimp only at h
    split at h
    · next found after hcheck =>
      obtain rfl := Except.error.inj h
      refine isReported_or_escapes_ofConfiguration fun digits heq => ?_
      exact check_ne_longInteger c digits (by rw [hcheck, heq])
    · next checked hcheck =>
      by_cases hfree : logging.handled = true ∨ checked.logObstacle? host = none
      · rw [ofConfiguration_of_no_obstacle hfree, traced] at h
        cases hmade : Tracer.ofSettings (debugSettings checked) with
        | ok tracer =>
          rw [hmade] at h
          cases h
        | error found =>
          rw [hmade] at h
          obtain rfl := Except.error.inj h
          exact isReported_or_escapes_ofConfiguration fun digits heq =>
            ofSettings_ne_longInteger _ digits (hmade.trans (congrArg Except.error heq))
      · obtain ⟨hunhandled, hobstacle⟩ := not_or.mp hfree
        obtain ⟨reason, hreason⟩ := Option.ne_none_iff_exists'.mp hobstacle
        have hclosed : logging.handled = false := Bool.eq_false_iff.mpr hunhandled
        obtain ⟨path, -, hpath⟩ := Option.bind_eq_some_iff.mp hreason
        rw [ofConfiguration_of_obstacle hreason hclosed] at h
        obtain rfl := Except.error.inj h
        exact .inr (.logFile hclosed hpath)

/-- Settings with sections that fit the template are reported, unless the log is not opened or an
integer is too long. -/
theorem isReported_or_of_fits (hdistinct : (Value.record fields).distinctNames = true)
    (hfits : (Value.record fields).fits (some template) = true)
    (hsections : ∀ name ∈ ["debug", "decoder"], ∀ value, fields.lookup name = some value →
      ∃ inner, value = .record inner) {e : CreationError}
    (h : (create host (some (.record fields)) logging).1 = .error e) :
    e.IsReported ∨ (∃ digits, e = .configuration (.longInteger digits)) ∨
      ∃ reason, e = .logFile reason := by
  have hkeyed := wellKeyed_of_distinctNames hdistinct
  have hmerge := mergeValue_of_represents hkeyed represents_initial (not_landsOnNull_of_fits hfits)
  rw [merged?_of_fits hkeyed hfits] at hmerge
  obtain ⟨c, hmerged, hc⟩ := hmerge
  obtain ⟨result, hresult⟩ := hc.exists_record
  have hvalue := merged?_of_fits hkeyed hfits
  rw [hresult] at hc hvalue
  have hspec := create_spec host logging
    (show Configuration.merged (some (.record fields)) = _ from hmerged) hc
    (distinctNames_of_merged? hdistinct (fun found hfound => Option.some.inj hfound ▸ rfl) hvalue)
    (isSome_lookup_of_merged? hkeyed hvalue)
  rw [h] at hspec
  rcases hspec with ⟨-, -, hreason⟩ | ⟨-, found, rfl, hcomplains⟩
  · exact .inr (.inr hreason)
  · have hquoting : found.complaint = .quoting found.integers := by
      refine found.complaint_cases.resolve_left fun hwordless => ?_
      exact (hwordless ▸ hcomplains).not_hasRecord (hasRecord_of_fits hkeyed hsections hresult)
    rcases found.raised_cases host.digitLimit? with ⟨-, hall⟩ | ⟨-, limit, -, hlong⟩
    · left
      rw [CreationError.isReported_ofConfiguration_iff, hquoting,
        Complaint.goesUnsaid_quoting_iff, not_not]
      exact hall
    · exact .inr (.inl ⟨limit.digits, congrArg CreationError.configuration hlong⟩)

end

/-- No decoder is made of some settings, and no error of the configuration is reported either. Which
settings these are is told exactly for those of which no record lands on null. -/
theorem unreported_of_create {fields : Entries Value}
    (hdistinct : (Value.record fields).distinctNames = true) (host : Host) (logging : Logging) :
    (∀ e, (create host (some (.record fields)) logging).1 = .error e →
      e.IsReported ∨ Escapes host logging e) ∧
    (¬ (Value.record fields).LandsOnNull template →
      ((∃ e, (create host (some (.record fields)) logging).1 = .error e ∧ ¬ e.IsReported) ↔
        GoesUnreported host logging fields)) ∧
    ((Value.record fields).fits (some template) = true →
      (∀ name ∈ ["debug", "decoder"], ∀ value, fields.lookup name = some value →
        ∃ inner, value = .record inner) →
      ∀ e, (create host (some (.record fields)) logging).1 = .error e →
        e.IsReported ∨ (∃ digits, e = .configuration (.longInteger digits)) ∨
          ∃ reason, e = .logFile reason) := by
  have hkeyed := wellKeyed_of_distinctNames hdistinct
  refine ⟨fun e he => isReported_or_escapes hkeyed he,
    fun hnull => exists_not_isReported_iff hdistinct hnull host logging,
    fun hfits hsections e he => isReported_or_of_fits hdistinct hfits hsections he⟩

theorem unreported_of_create_occurs :
    (∃ e, (create .permissive (some (.record [("decoder", .null)])) .initial).1 = .error e ∧
      ¬ e.IsReported) ∧
      (∃ e, (create ⟨none, fun _ => some ⟨.directory, ""⟩⟩
        (some (.record [("log", .text "/")])) .initial).1 = .error e ∧ ¬ e.IsReported) ∧
      ∃ e, (create .permissive (some (.record [("decoder",
        .record [("max_extensions", .int (-1))])])) .initial).1 = .error e ∧ e.IsReported := by
  have hinfo : LogLevel.ofText? "INFO" = some .info := by decide
  refine ⟨?_, ?_, ?_⟩
  · obtain ⟨-, hexact, -⟩ := @unreported_of_create [("decoder", .null)] rfl .permissive .initial
    refine (hexact (not_landsOnNull_of_fits rfl)).mpr
      ⟨_, rfl, .inr ⟨.wordless, .decoder ⟨.null, rfl, rfl⟩ ⟨"INFO", .info, rfl, hinfo⟩ ?_
        (.missing ?_), trivial⟩⟩
    · rintro ⟨inner, hinner, -⟩
      cases hinner
    · rintro ⟨inner, hinner⟩
      cases hinner
  · obtain ⟨-, hexact, -⟩ := @unreported_of_create [("log", .text "/")] rfl
      ⟨none, fun _ => some ⟨.directory, ""⟩⟩ .initial
    refine (hexact (not_landsOnNull_of_fits rfl)).mpr
      ⟨_, rfl, .inl ⟨⟨⟨_, rfl, rfl⟩, ⟨"INFO", .info, rfl, hinfo⟩, ⟨_, rfl, ?_, ?_⟩⟩,
        rfl, "/", _, rfl, rfl⟩⟩
    · intro flag hflag
      obtain rfl := Option.some.inj hflag
      rfl
    · intro limit hlimit
      obtain rfl := Option.some.inj hlimit
      rfl
  · obtain ⟨-, -, hreported⟩ := @unreported_of_create
      [("decoder", .record [("max_extensions", .int (-1))])] rfl .permissive .initial
    obtain ⟨found, hfound⟩ : ∃ found, (create .permissive (some (.record [("decoder",
        .record [("max_extensions", .int (-1))])])) .initial).1 =
          .error (.configuration (.limit found)) := ⟨_, rfl⟩
    refine ⟨_, hfound, (hreported rfl ?_ _ hfound).resolve_right ?_⟩
    · intro name hname value hvalue
      rcases List.mem_pair.mp hname with rfl | rfl
      · cases hvalue
      · obtain rfl := Option.some.inj hvalue
        exact ⟨_, rfl⟩
    · rintro (⟨digits, heq⟩ | ⟨reason, heq⟩)
      · cases heq
      · cases heq

end Decoder

end HelloExtensions
