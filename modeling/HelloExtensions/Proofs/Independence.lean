import HelloExtensions.Proofs.Constructions
import Mathlib.Data.List.TakeWhile

/-!
Decoders in a pool share their logging and nothing else. In any order of requests, what is seen of
the calls of one name, apart from their records, is what is seen if the requests of this name are
served alone, until a file is opened for the log. From then on no other file is opened, so that the
requests of the name are served as if nothing could keep a file from being opened. Of the records
that a call makes those come out that the level of the logger admits. This is the level of the last
construction whose configuration passed its check, whether or not a decoder came of it.
-/
namespace HelloExtensions

open Settings

namespace LogLevel

/-- Levels and severities have ranks on one scale. -/
def rank : LogLevel → Nat
  | .critical => 50
  | .error => 40
  | .warning => 30
  | .info => 20
  | .debug => 10
  | .notSet => 0

/-- The rank that a record has to reach. A level that is not set stands for that of warnings. -/
def threshold (level : LogLevel) : Nat := if level = .notSet then rank .warning else level.rank

end LogLevel

def Severity.rank : Severity → Nat
  | .debug => 10
  | .warning => 30

namespace LogLevel

theorem admits_iff (level : LogLevel) (severity : Severity) :
    level.admits severity = true ↔ level.threshold ≤ severity.rank := by
  cases level <;> cases severity <;> decide

theorem filter_eq (level : LogLevel) (records : List LogRecord) :
    level.filter records = records.filter fun r => level.threshold ≤ r.severity.rank := by
  unfold filter
  congr
  funext r
  rw [Bool.eq_iff_iff, admits_iff, decide_eq_true_eq]

end LogLevel

namespace Pool

/-- Requests in the order in which they are served, each with the name that it is served under. -/
abbrev History := List (String × Request)

/-- The pool after a history. -/
def run (host : Host) (history : History) (pool : Pool) : Pool :=
  history.foldl (fun pool entry => (pool.step host entry.1 entry.2).2) pool

/-- The requests that are served under one name. -/
def own (name : String) (history : History) : History :=
  history.filter fun entry => entry.1 = name

/-- The level of the last construction whose configuration passed the check. -/
def loggerLevel (history : History) : LogLevel :=
  ((history.filterMap fun entry => entry.2.checkedLevel?).getLast?).getD .notSet

/-- What is seen of a call, apart from its records, and the configuration that it leaves. -/
structure Seen where
  name : String
  outcome : Outcome
  printed : String
  configuration? : Option Configuration

def see (host : Host) (name : String) (request : Request) (pool : Pool) : Seen where
  name := name
  outcome := (pool.step host name request).1.result
  printed := (pool.step host name request).1.printed
  configuration? := ((pool.step host name request).2.find? name).map Decoder.configuration

/-- What is seen of the calls of a history. -/
def trace (host : Host) : History → Pool → List Seen
  | [], _ => []
  | (name, request) :: later, pool =>
    pool.see host name request :: trace host later (pool.step host name request).2

/-- The requests that come before the root logger has a handler. -/
def early (host : Host) (handled : Bool) (history : History) : History :=
  history.takeWhile fun entry => !(handled || entry.2.opensLog host)

/-- The request that gives the root logger a handler, if there is one, and those behind it. -/
def late (host : Host) (handled : Bool) (history : History) : History :=
  history.dropWhile fun entry => !(handled || entry.2.opensLog host)

/-- No file that the requests name for the log is kept from being opened, or none is opened as the
root logger has a handler from the start. -/
def Spared (host : Host) (handled : Bool) (history : History) : Prop :=
  handled = true ∨ ∀ entry ∈ history, entry.2.obstacle? host = none

section

variable {host elsewhere : Host} {name : String} {whole alone : Pool}

theorem step_of_call (host : Host) (name : String) (request : Request) (pool : Pool) :
    pool.step host name request =
      (pool.observe (pool.call host name request).1, (pool.call host name request).2) := rfl

theorem step_create_snd (host : Host) (name : String) (settings? : Option Value) (pool : Pool) :
    (pool.step host name (.create settings?)).2 = (pool.create host name settings?).2 := rfl

/-- A construction makes no records. -/
theorem records_call_create (host : Host) (name : String) (settings? : Option Value)
    (pool : Pool) : (pool.call host name (.create settings?)).1.records = [] := rfl

/-- A query changes nothing in the pool. -/
theorem step_ask_snd (host : Host) (name : String) (query : Query) (pool : Pool) :
    (pool.step host name (.ask query)).2 = pool := by
  rw [step_of_call, call]
  cases pool.find? name <;> rfl

theorem create_fst (host : Host) (name : String) (settings? : Option Value) (pool : Pool) :
    (pool.create host name settings?).1 =
      (Decoder.create host settings? pool.logging).1.map fun _ => () := by
  unfold create
  rcases Decoder.create host settings? pool.logging with ⟨e | decoder, logging⟩ <;> rfl

theorem logging_create (host : Host) (name : String) (settings? : Option Value) (pool : Pool) :
    (pool.create host name settings?).2.logging =
      (Decoder.create host settings? pool.logging).2 := by
  unfold create
  rcases Decoder.create host settings? pool.logging with ⟨e | decoder, logging⟩ <;> rfl

/-- A construction whose configuration passes the check sets the level, and one that opens a file
gives the root logger a handler. Nothing else changes the logging. -/
theorem logging_step (host : Host) (name : String) (request : Request) (pool : Pool) :
    (pool.step host name request).2.logging =
      ⟨request.checkedLevel?.getD pool.logging.level,
        pool.logging.handled || request.opensLog host⟩ := by
  cases request with
  | create settings? => rw [step_create_snd, logging_create, Decoder.create_snd]
  | ask query =>
    rw [step_ask_snd, Request.checkedLevel?, Request.opensLog, Bool.or_false]
    rfl

/-- A step under one name leaves the decoders of other names as they are. -/
theorem find?_step_of_ne {other : String} (h : other ≠ name) (request : Request) (pool : Pool) :
    (pool.step host name request).2.find? other = pool.find? other := by
  cases request with
  | create settings? => exact find?_create_of_ne host settings? pool h
  | ask query => rw [step_ask_snd]

/-- A construction makes the same of its settings in either pool. -/
def MakesAlike (host elsewhere : Host) (whole alone : Pool) (request : Request) : Prop :=
  ∀ settings?, request = .create settings? →
    (Decoder.create host settings? whole.logging).1 =
      (Decoder.create elsewhere settings? alone.logging).1

/-- A call depends on the decoder of its name and on what is made of settings only. -/
theorem call_congr {request : Request} (h : whole.find? name = alone.find? name)
    (hmade : MakesAlike host elsewhere whole alone request) :
    (whole.call host name request).1 = (alone.call elsewhere name request).1 := by
  cases request with
  | create settings? =>
    have hcreated : (whole.create host name settings?).1 =
        (alone.create elsewhere name settings?).1 := by
      rw [create_fst, create_fst, hmade settings? rfl]
    simp only [call, hcreated]
  | ask query =>
    simp only [call, h]
    cases alone.find? name <;> rfl

/-- So does the decoder of this name that is there after the step. -/
theorem find?_step_congr {request : Request} (h : whole.find? name = alone.find? name)
    (hmade : MakesAlike host elsewhere whole alone request) :
    (whole.step host name request).2.find? name =
      (alone.step elsewhere name request).2.find? name := by
  cases request with
  | create settings? =>
    rw [step_create_snd, step_create_snd, find?_create_self, find?_create_self,
      hmade settings? rfl]
  | ask query => rw [step_ask_snd, step_ask_snd, h]

theorem see_congr {request : Request} (h : whole.find? name = alone.find? name)
    (hmade : MakesAlike host elsewhere whole alone request) :
    whole.see host name request = alone.see elsewhere name request := by
  have hcall := call_congr h hmade
  have hfind := find?_step_congr h hmade
  simp only [see, hfind]
  simp only [step_of_call, observe, hcall]

theorem own_cons_self (name : String) (request : Request) (later : History) :
    own name ((name, request) :: later) = (name, request) :: own name later :=
  List.filter_cons_of_pos (decide_eq_true rfl)

theorem own_cons_of_ne {name other : String} (h : other ≠ name) (request : Request)
    (later : History) : own name ((other, request) :: later) = own name later :=
  List.filter_cons_of_neg (by simpa using h)

theorem run_append (host : Host) (before later : History) (pool : Pool) :
    run host (before ++ later) pool = run host later (run host before pool) :=
  List.foldl_append

theorem trace_append (host : Host) (before later : History) (pool : Pool) :
    trace host (before ++ later) pool =
      trace host before pool ++ trace host later (run host before pool) := by
  induction before generalizing pool with
  | nil => rfl
  | cons entry before ih =>
    obtain ⟨name, request⟩ := entry
    rw [List.cons_append, trace, trace, ih, List.cons_append]
    rfl

/-- A relation of pools under which constructions of the name make the same in both of them. The
pool on the right serves the requests of this name only. -/
structure Simulates (host elsewhere : Host) (name : String)
    (related : History → Pool → Pool → Prop) : Prop where
  makesAlike : ∀ request later whole alone, related ((name, request) :: later) whole alone →
    MakesAlike host elsewhere whole alone request
  step_own : ∀ request later whole alone, related ((name, request) :: later) whole alone →
    related later (whole.step host name request).2 (alone.step elsewhere name request).2
  step_other : ∀ other request later whole alone, other ≠ name →
    related ((other, request) :: later) whole alone →
      related later (whole.step host other request).2 alone

/-- What is seen of the calls of a name, and the decoder that is left, are those of its requests
alone. -/
theorem Simulates.trace_own {related : History → Pool → Pool → Prop}
    (hrelated : Simulates host elsewhere name related) (history : History)
    (h : related history whole alone) (hfind : whole.find? name = alone.find? name) :
    (trace host history whole).filter (fun seen => seen.name = name) =
        trace elsewhere (own name history) alone ∧
      (run host history whole).find? name =
        (run elsewhere (own name history) alone).find? name := by
  induction history generalizing whole alone with
  | nil => exact ⟨rfl, hfind⟩
  | cons entry later ih =>
    obtain ⟨other, request⟩ := entry
    rw [trace]
    by_cases hname : other = name
    · subst hname
      have hmade := hrelated.makesAlike request later whole alone h
      have hlater := ih (hrelated.step_own request later whole alone h)
        (find?_step_congr hfind hmade)
      have hseen : decide ((whole.see host other request).name = other) = true :=
        decide_eq_true rfl
      rw [own_cons_self, trace, List.filter_cons, if_pos hseen, hlater.1, see_congr hfind hmade]
      exact ⟨rfl, hlater.2⟩
    · have hseen : ¬ decide ((whole.see host other request).name = name) = true :=
        fun heq => hname (of_decide_eq_true heq)
      rw [own_cons_of_ne hname, List.filter_cons, if_neg hseen]
      exact ih (hrelated.step_other other request later whole alone hname h)
        ((find?_step_of_ne (fun heq => hname heq.symm) request whole).trans hfind)

/-- As long as no file is opened the root logger stays as it is in both pools. -/
theorem simulates_unopened (host : Host) (name : String) :
    Simulates host host name fun history whole alone =>
      whole.logging.handled = alone.logging.handled ∧
        ∀ entry ∈ history, entry.2.opensLog host = false where
  makesAlike := fun request later whole alone h settings? _ => Decoder.create_fst_congr h.1
  step_own := by
    intro request later whole alone ⟨hsame, hnone⟩
    refine ⟨?_, fun entry hentry => hnone entry (List.mem_cons_of_mem _ hentry)⟩
    rw [logging_step, logging_step]
    exact congrArg (· || request.opensLog host) hsame
  step_other := by
    intro other request later whole alone _ ⟨hsame, hnone⟩
    refine ⟨?_, fun entry hentry => hnone entry (List.mem_cons_of_mem _ hentry)⟩
    rw [logging_step, hnone _ List.mem_cons_self]
    exact (Bool.or_false _).trans hsame

/-- From the first file on that is opened none is an obstacle. -/
theorem simulates_opened (host : Host) (name : String) :
    Simulates host host.opened name fun history whole _ =>
      ∀ entry ∈ history.head?, whole.logging.handled = true ∨ entry.2.opensLog host = true where
  makesAlike := by
    intro request later whole alone h settings? hrequest
    refine Decoder.create_fst_opened _ ((h _ rfl).imp_right fun hopens => ?_)
    exact hrequest ▸ Request.obstacle?_of_opensLog hopens
  step_own := by
    intro request later whole alone h entry _
    rw [logging_step]
    exact .inl (by simpa using h _ rfl)
  step_other := by
    intro other request later whole alone _ h entry _
    rw [logging_step]
    exact .inl (by simpa using h _ rfl)

/-- Where no file of the name is an obstacle, it does not matter which files are opened. -/
theorem simulates_spared (host : Host) (name : String) :
    Simulates host host name fun history whole alone =>
      whole.logging.handled = true ∧ alone.logging.handled = true ∨
        ∀ entry ∈ own name history, entry.2.obstacle? host = none where
  makesAlike := by
    intro request later whole alone h settings? hrequest
    subst hrequest
    have hfree : ∀ logging : Logging,
        logging.handled = true ∨ (Request.create settings?).obstacle? host = none →
          (Decoder.create host settings? logging).1 =
            (Decoder.create host.opened settings? .initial).1 :=
      fun logging => Decoder.create_fst_opened _
    rcases h with ⟨hwhole, halone⟩ | hnone
    · rw [hfree _ (.inl hwhole), hfree _ (.inl halone)]
    · rw [own_cons_self] at hnone
      have hobstacle := hnone _ List.mem_cons_self
      rw [hfree _ (.inr hobstacle), hfree _ (.inr hobstacle)]
  step_own := by
    intro request later whole alone h
    rw [logging_step, logging_step]
    rcases h with ⟨hwhole, halone⟩ | hnone
    · exact .inl ⟨by rw [hwhole, Bool.true_or], by rw [halone, Bool.true_or]⟩
    · rw [own_cons_self] at hnone
      exact .inr fun entry hentry => hnone entry (List.mem_cons_of_mem _ hentry)
  step_other := by
    intro other request later whole alone hother h
    rw [logging_step]
    rcases h with ⟨hwhole, halone⟩ | hnone
    · exact .inl ⟨by rw [hwhole, Bool.true_or], halone⟩
    · rw [own_cons_of_ne hother] at hnone
      exact .inr hnone

/-- The logging after a history. -/
theorem logging_run (host : Host) (history : History) (pool : Pool) :
    (run host history pool).logging =
      ⟨((history.filterMap fun entry => entry.2.checkedLevel?).getLast?).getD pool.logging.level,
        pool.logging.handled || history.any fun entry => entry.2.opensLog host⟩ := by
  induction history generalizing pool with
  | nil =>
    rw [List.any_nil, Bool.or_false]
    rfl
  | cons entry later ih =>
    obtain ⟨name, request⟩ := entry
    have hlater : (run host ((name, request) :: later) pool).logging =
        (run host later (pool.step host name request).2).logging := rfl
    rw [hlater, ih, logging_step, List.filterMap_cons, List.any_cons, Bool.or_assoc]
    cases request.checkedLevel? with
    | none => rfl
    | some level =>
      dsimp only
      rw [List.getLast?_cons, Option.getD_some, Option.getD_some]

end

section

variable (host : Host) (handled : Bool) (history : History) (name : String)

theorem early_append_late : early host handled history ++ late host handled history = history :=
  List.takeWhile_append_dropWhile

/-- The pool that the requests of a name lead to by themselves, if all files are opened from the
first one on that any request opens. -/
def served : Pool :=
  run host.opened (own name (late host handled history))
    (run host (own name (early host handled history)) (start handled))

/-- What is seen of the calls of a name is told by its own requests and by when a file is opened. -/
theorem trace_own :
    (trace host history (start handled)).filter (fun seen => seen.name = name) =
        trace host (own name (early host handled history)) (start handled) ++
          trace host.opened (own name (late host handled history))
            (run host (own name (early host handled history)) (start handled)) ∧
      (run host history (start handled)).find? name =
        (served host handled history name).find? name := by
  have hnone : ∀ entry ∈ early host handled history, entry.2.opensLog host = false := by
    intro entry hentry
    have hunopened := List.mem_takeWhile_imp hentry
    rw [Bool.not_eq_true', Bool.or_eq_false_iff] at hunopened
    exact hunopened.2
  have hfirst : ∀ entry ∈ (late host handled history).head?,
      handled = true ∨ entry.2.opensLog host = true := by
    intro entry hentry
    have hopened := List.head?_dropWhile_not
      (fun entry : String × Request => !(handled || entry.2.opensLog host)) history
    rw [show (history.dropWhile _).head? = some entry from hentry] at hopened
    dsimp only at hopened
    rwa [Bool.not_eq_false', Bool.or_eq_true_iff] at hopened
  have hsame : (start handled).find? name = (start handled).find? name := rfl
  obtain ⟨hbefore, hfound⟩ := (simulates_unopened host name).trace_own
    (early host handled history) ⟨rfl, hnone⟩ hsame
  have hhandled : ∀ entry ∈ (late host handled history).head?,
      (run host (early host handled history) (start handled)).logging.handled = true ∨
        entry.2.opensLog host = true := by
    intro entry hentry
    refine (hfirst entry hentry).imp_left fun htrue => ?_
    rw [logging_run]
    exact Bool.or_eq_true_iff.mpr (.inl htrue)
  obtain ⟨hbehind, hleft⟩ := (simulates_opened host name).trace_own
    (late host handled history) hhandled hfound
  constructor
  · conv_lhs => rw [← early_append_late host handled history]
    rw [trace_append, List.filter_append, hbefore, hbehind]
  · conv_lhs => rw [← early_append_late host handled history]
    rw [run_append, hleft, served]

end

/-- What a call makes of a request is what the pool of its own requests makes of it. -/
theorem records_step (host : Host) (handled : Bool) (before : History) (name : String)
    (request : Request) :
    ((run host before (start handled)).step host name request).1.records =
      ((served host handled before name).call host name request).1.records.filter
        fun r => (loggerLevel before).threshold ≤ r.severity.rank := by
  have hlevel : (run host before (start handled)).logging.level = loggerLevel before := by
    rw [logging_run]
    rfl
  have hrecords : ((run host before (start handled)).call host name request).1.records =
      ((served host handled before name).call host name request).1.records := by
    cases request with
    | create settings? => rw [records_call_create, records_call_create]
    | ask query =>
      simp only [call, (trace_own host handled before name).2]
      cases (served host handled before name).find? name <;> rfl
  rw [step_of_call, observe, ← LogLevel.filter_eq, ← hlevel, ← hrecords]

/-- A construction fails for its log if the file is not opened and none has been before. -/
theorem logFile_iff (host : Host) (handled : Bool) (before : History) (name : String)
    {settings? : Option Value} {e : FileError}
    (h : (Request.create settings?).obstacle? host = some e) :
    ((run host before (start handled)).step host name (.create settings?)).1.result =
        .created (.error (.logFile e)) ↔
      handled = false ∧ ∀ entry ∈ before, entry.2.opensLog host = false := by
  have hresult : ((run host before (start handled)).step host name (.create settings?)).1.result =
      .created ((Decoder.create host settings? (run host before (start handled)).logging).1.map
        fun _ => ()) := by
    rw [← create_fst host name]
    rfl
  have hhandled : (run host before (start handled)).logging.handled = false ↔
      handled = false ∧ ∀ entry ∈ before, entry.2.opensLog host = false := by
    rw [logging_run]
    simp [start]
  rw [hresult, ← hhandled]
  constructor
  · intro hfails
    by_contra hopen
    have hmade := Outcome.created.inj hfails
    rw [Decoder.create_fst_opened .initial
      (.inl ((Bool.not_eq_false _).mp hopen))] at hmade
    cases hcreated : (Decoder.create host.opened settings? .initial).1 with
    | ok decoder =>
      rw [hcreated] at hmade
      cases hmade
    | error found =>
      rw [hcreated] at hmade
      obtain rfl : found = .logFile e := Except.error.inj hmade
      exact Decoder.create_opened_ne_logFile e hcreated
  · intro hunhandled
    rw [Decoder.create_fst_of_obstacle h hunhandled]
    rfl

/-- What is seen of the calls of one name depends on the requests of other names only in that these
may open a file for the log, after which none of the own files is an obstacle. It does not depend
on them at all if no own file is one. The records that come out are those that the call makes by
itself, filtered by the level of the last construction that passed its check. -/
theorem independent (host : Host) (handled : Bool) :
    (∀ history name,
      (trace host history (start handled)).filter (fun seen => seen.name = name) =
        trace host (own name (early host handled history)) (start handled) ++
          trace host.opened (own name (late host handled history))
            (run host (own name (early host handled history)) (start handled))) ∧
    (∀ history name, Spared host handled (own name history) →
      (trace host history (start handled)).filter (fun seen => seen.name = name) =
        trace host (own name history) (start handled)) ∧
    (∀ before name request,
      ((run host before (start handled)).step host name request).1.records =
        ((served host handled before name).call host name request).1.records.filter
          fun r => (loggerLevel before).threshold ≤ r.severity.rank) ∧
    (∀ before name, Spared host handled (own name before) →
      (served host handled before name).find? name =
        (run host (own name before) (start handled)).find? name) ∧
    ∀ before name settings? e, (Request.create settings?).obstacle? host = some e →
      (((run host before (start handled)).step host name (.create settings?)).1.result =
          .created (.error (.logFile e)) ↔
        handled = false ∧ ∀ entry ∈ before, entry.2.opensLog host = false) := by
  have hspared : ∀ history name, Spared host handled (own name history) →
      (trace host history (start handled)).filter (fun seen => seen.name = name) =
          trace host (own name history) (start handled) ∧
        (run host history (start handled)).find? name =
          (run host (own name history) (start handled)).find? name := fun history name h =>
    (simulates_spared host name).trace_own history
      (h.imp_left fun htrue => ⟨htrue, htrue⟩) rfl
  refine ⟨fun history name => (trace_own host handled history name).1,
    fun history name h => (hspared history name h).1, records_step host handled,
    fun before name h => ?_,
    fun before name settings? e h => logFile_iff host handled before name h⟩
  rw [← (trace_own host handled before name).2, (hspared before name h).2]

/-- A host where one file cannot be opened. -/
def lacking (path : String) (reason : FileError) : Host :=
  ⟨none, fun other => if other = path then some reason else none⟩

/-- No decoder is made that names this file for its log, but one is made behind a decoder that has
opened another file. Behind a construction that fails after its check and asks for errors only, a
decoder no longer logs that bytes are malformed. -/
theorem independent_occurs :
    (∀ reason, ((start false).step (lacking "b.log" reason) "b"
        (.create (some (.record [("log", .text "b.log")])))).1.result =
      .created (.error (.logFile reason))) ∧
    (∀ reason, ((run (lacking "b.log" reason)
          [("a", .create (some (.record [("log", .text "a.log")])))] (start false)).step
        (lacking "b.log" reason) "b"
        (.create (some (.record [("log", .text "b.log")])))).1.result ≠
      .created (.error (.logFile reason))) ∧
    ((run .permissive [("a", .create none)] (start false)).step .permissive "a"
      (.ask (.decode [0, 22, 0, 1, 9]))).1.records.length = 1 ∧
    ((run .permissive [("a", .create none), ("b", .create (some (.record
        [("debug", .record [("trace", .null)]), ("log_level", .text "error")])))]
      (start false)).step .permissive "a" (.ask (.decode [0, 22, 0, 1, 9]))).1.records = [] := by
  have hobstacle : ∀ reason, (Request.create (some (.record [("log", .text "b.log")]))).obstacle?
      (lacking "b.log" reason) = some reason := fun _ => rfl
  refine ⟨fun reason => ?_, fun reason hfails => ?_, ?_, ?_⟩
  · obtain ⟨-, -, -, -, hlog⟩ := independent (lacking "b.log" reason) false
    exact (hlog [] "b" _ reason (hobstacle reason)).mpr ⟨rfl, fun _ h => by cases h⟩
  · obtain ⟨-, -, -, -, hlog⟩ := independent (lacking "b.log" reason) false
    obtain ⟨-, hnone⟩ := (hlog _ "b" _ reason (hobstacle reason)).mp hfails
    cases hnone _ List.mem_cons_self
  · obtain ⟨-, -, hrecords, -⟩ := independent .permissive false
    rw [hrecords]
    rfl
  · obtain ⟨-, -, hrecords, -⟩ := independent .permissive false
    rw [hrecords]
    rfl

end Pool
end HelloExtensions
