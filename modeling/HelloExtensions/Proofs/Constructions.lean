import HelloExtensions.Decoder.Pool
import HelloExtensions.Proofs.Settings.Accepted

/-!
What constructions of decoders do to the logging they share. A construction whose configuration
passes the check sets the level, and it gives the root logger a handler if the file for the log is
opened. What it makes depends on the logging only in that a file that cannot be opened is no
obstacle once the root logger has a handler.
-/
namespace HelloExtensions

open Settings

namespace Settings.Configuration

/-- The level that the configuration names. -/
def namedLevel? (c : Configuration) : Option LogLevel :=
  match c.table.lookup "log_level" with
  | some (.plain (.text s)) => LogLevel.ofName? s
  | _ => none

theorem Checked.namedLevel?_eq {c : Configuration} (h : c.Checked) :
    c.namedLevel? = some c.logLevel := by
  obtain ⟨level, hlevel⟩ := h.exists_level
  rw [logLevel_of_lookup hlevel, namedLevel?, hlevel]
  exact LogLevel.ofName?_eq_some_iff.mpr rfl

end Settings.Configuration

/-- The same host if nothing kept a file from being opened. -/
def Host.opened (host : Host) : Host := { host with obstacle? := fun _ => none }

namespace Settings.Configuration

theorem logObstacle?_opened (host : Host) (c : Configuration) :
    c.logObstacle? host.opened = none := by
  unfold logObstacle? Host.logObstacle? Host.opened
  cases c.logPath? <;> simp

end Settings.Configuration

namespace Decoder

variable {host : Host} {c : Configuration} {logging : Logging}

/-- The logging afterwards is the same, whether or not a decoder comes of the configuration. -/
theorem ofConfiguration_snd (host : Host) (c : Configuration) (logging : Logging) :
    (ofConfiguration host c logging).2 =
      ⟨c.logLevel, logging.handled || c.opensLog host⟩ := by
  by_cases h : logging.handled = true ∨ c.logObstacle? host = none
  · rw [ofConfiguration_of_no_obstacle h]
  · obtain ⟨hunhandled, hobstacle⟩ := not_or.mp h
    obtain ⟨e, he⟩ := Option.ne_none_iff_exists'.mp hobstacle
    have hclosed : c.opensLog host = false := by simp [Configuration.opensLog, he]
    rw [ofConfiguration_of_obstacle he (Bool.eq_false_iff.mpr hunhandled), hclosed, Bool.or_false]

end Decoder

namespace Request

/-- What keeps the log of a construction from being opened, if anything does. -/
def obstacle? (host : Host) : Request → Option FileError
  | .create settings? =>
    (Configuration.accepted? settings?).bind fun c => c.logObstacle? host
  | .ask _ => none

/-- The request opens a file for the log, unless the root logger has a handler. -/
def opensLog (host : Host) : Request → Bool
  | .create settings? => (Configuration.accepted? settings?).any fun c => c.opensLog host
  | .ask _ => false

/-- The level that a construction asks for, if its configuration passes the check. -/
def checkedLevel? : Request → Option LogLevel
  | .create settings? => (Configuration.accepted? settings?).bind Configuration.namedLevel?
  | .ask _ => none

theorem obstacle?_of_opensLog {host : Host} {request : Request}
    (h : request.opensLog host = true) : request.obstacle? host = none := by
  cases request with
  | ask query => rfl
  | create settings? =>
    rw [opensLog] at h
    rw [obstacle?]
    cases haccepted : Configuration.accepted? settings? with
    | none => rfl
    | some c =>
      rw [haccepted, Option.any_some, Configuration.opensLog, Bool.and_eq_true] at h
      exact Option.isNone_iff_eq_none.mp h.2

end Request

namespace Decoder

variable {host : Host} {settings? : Option Value} {logging other : Logging}

/-- A construction leaves the level of an accepted configuration, and a handler if it has opened a
file for the log. -/
theorem create_snd (host : Host) (settings? : Option Value) (logging : Logging) :
    (create host settings? logging).2 =
      ⟨(Request.create settings?).checkedLevel?.getD logging.level,
        logging.handled || (Request.create settings?).opensLog host⟩ := by
  rw [Request.checkedLevel?, Request.opensLog]
  cases haccepted : Configuration.accepted? settings? with
  | none =>
    obtain ⟨e, he⟩ := exists_error_of_create host haccepted
    rw [show create host settings? logging = _ from he host.obstacle? logging]
    simp
  | some c =>
    rw [create_of_accepted? haccepted, ofConfiguration_snd, Option.bind_some, Option.any_some,
      (Configuration.checked_of_accepted? haccepted).namedLevel?_eq, Option.getD_some]

/-- Where the log is no obstacle, a decoder is made as if all files were opened. -/
theorem create_fst_opened (other : Logging)
    (h : logging.handled = true ∨ (Request.create settings?).obstacle? host = none) :
    (create host settings? logging).1 = (create host.opened settings? other).1 := by
  rw [Request.obstacle?] at h
  cases haccepted : Configuration.accepted? settings? with
  | none =>
    obtain ⟨e, he⟩ := exists_error_of_create host haccepted
    rw [show create host settings? logging = _ from he host.obstacle? logging, Host.opened, he]
  | some c =>
    rw [haccepted, Option.bind_some] at h
    rw [create_of_accepted? haccepted, create_of_accepted? haccepted,
      ofConfiguration_of_no_obstacle h,
      ofConfiguration_of_no_obstacle (.inr (c.logObstacle?_opened host))]
    rfl

theorem create_fst_of_obstacle {e : FileError}
    (h : (Request.create settings?).obstacle? host = some e)
    (hunhandled : logging.handled = false) :
    (create host settings? logging).1 = .error (.logFile e) := by
  obtain ⟨c, haccepted, hobstacle⟩ := Option.bind_eq_some_iff.mp h
  rw [create_of_accepted? haccepted, ofConfiguration_of_obstacle hobstacle hunhandled]

/-- Of the logging only the handler matters to the decoder that is made. -/
theorem create_fst_congr (h : logging.handled = other.handled) :
    (create host settings? logging).1 = (create host settings? other).1 := by
  by_cases hfree : logging.handled = true ∨ (Request.create settings?).obstacle? host = none
  · have hopened := create_fst_opened .initial hfree
    rw [h] at hfree
    exact hopened.trans (create_fst_opened .initial hfree).symm
  · obtain ⟨hunhandled, hobstacle⟩ := not_or.mp hfree
    obtain ⟨e, he⟩ := Option.ne_none_iff_exists'.mp hobstacle
    have hfalse : logging.handled = false := Bool.eq_false_iff.mpr hunhandled
    rw [create_fst_of_obstacle he hfalse, create_fst_of_obstacle he (h ▸ hfalse)]

/-- A decoder for which every file is opened does not fail for its log. -/
theorem create_opened_ne_logFile (e : FileError) :
    (create host.opened settings? logging).1 ≠ .error (.logFile e) := by
  intro h
  cases haccepted : Configuration.accepted? settings? with
  | none =>
    unfold Configuration.accepted? at haccepted
    unfold create at h
    split at h
    · cases h
    · next result merged hmerged =>
      rw [hmerged] at haccepted
      dsimp only at haccepted
      split at h
      · cases h
      · next checked hcheck =>
        rw [hcheck] at haccepted
        cases haccepted
  | some c =>
    rw [create_of_accepted? haccepted,
      ofConfiguration_of_no_obstacle (.inr (c.logObstacle?_opened host)), traced] at h
    cases hsettings : Tracer.ofSettings (debugSettings c) with
    | ok tracer =>
      rw [hsettings] at h
      cases h
    | error reason =>
      rw [hsettings] at h
      cases h

end Decoder

end HelloExtensions
