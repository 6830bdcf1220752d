import HelloExtensions.Proofs.Settings.OverlayPaths
import Mathlib.Data.List.Nodup

/-!
Laws of laying values over each other. To lay a second value over a first one, and the outcome over
a target, is the same as to lay the first one over the target and then the second one over that; if
the values fit for the latter, they also do for the former. A value that is laid over a target for a
second time changes nothing. Both are shown name by name: a record that fits joins what it has with
what was there under each name, and the order of the names follows from that of both.
-/
namespace HelloExtensions

/-- New names come after those before them, however they are put together. -/
theorem Entries.append_new_assoc (a b c : List String) :
    a ++ (b ++ c.filter fun name => name ∉ b).filter (fun name => name ∉ a) =
      a ++ b.filter (fun name => name ∉ a) ++
        c.filter fun name => name ∉ a ++ b.filter fun name => name ∉ a := by
  rw [List.filter_append, List.filter_filter, List.append_assoc]
  congr 2
  refine List.filter_congr fun name _ => ?_
  by_cases ha : name ∈ a <;> by_cases hb : name ∈ b <;> simp [ha, hb]

namespace Value

open Entries

/-- What stands under a name, if there is a record. -/
def under (target? : Option Value) (name : String) : Option Value :=
  target?.bind fun target => target.at? [name]

/-- The names in their order, if there is a record. -/
def namesOf : Option Value → List String
  | some (.record fields) => keys fields
  | _ => []

/-- What there is, laid over what there is in its place. -/
def overlay? : Option Value → Option Value → Option Value
  | some value, target? => some (value.overlay target?)
  | none, target? => target?

def Fits? (value? target? : Option Value) : Prop :=
  ∀ value ∈ value?, value.fits target? = true

/-- The record that comes of laying fields over a record, or over nothing: the names that were there
keep their places. -/
structure Joined (fields : Entries Value) (target? : Option Value) (result : Entries Value) :
    Prop where
  keys_eq : keys result =
    namesOf target? ++ (keys fields).filter fun name => name ∉ namesOf target?
  lookup_eq : ∀ name, result.lookup name = overlay? (fields.lookup name) (under target? name)

/-- A branch can be laid over another one, and the outcome over a target, with the same result as
laying them over the target one after the other. -/
structure Composes (second first : Value) (target? : Option Value) : Prop where
  fits_first : second.fits (some first) = true
  fits_target : (second.overlay (some first)).fits target? = true
  overlay_eq : (second.overlay (some first)).overlay target? =
    second.overlay (some (first.overlay target?))

/-- The same under one name, where either branch may have nothing. -/
structure ComposesAt (second? first? target? : Option Value) : Prop where
  fits_first : Fits? second? first?
  fits_target : Fits? (overlay? second? first?) target?
  overlay_eq : overlay? (overlay? second? first?) target? =
    overlay? second? (overlay? first? target?)

section

variable {fields above target result once : Entries Value} {target? : Option Value}
  {value first second : Value} {name : String}

@[simp] theorem under_none (name : String) : under none name = none := rfl

@[simp] theorem under_record (fields : Entries Value) (name : String) :
    under (some (.record fields)) name = fields.lookup name := by
  rw [under, Option.bind_some, at?_singleton]

@[simp] theorem overlay?_none (value? : Option Value) : overlay? value? none = value? := by
  cases value? with
  | none => rfl
  | some value => rw [overlay?, overlay_none]

theorem wellKeyed_of_mem (h : value.wellKeyed = true) :
    ∀ found ∈ some value, found.wellKeyed = true := fun _ hfound => Option.some.inj hfound ▸ h

theorem wellKeyed_under (h : ∀ found ∈ target?, found.wellKeyed = true) (name : String) :
    ∀ found ∈ under target? name, found.wellKeyed = true := by
  intro inner hinner
  obtain ⟨found, hfound, hinner⟩ := Option.bind_eq_some_iff.mp hinner
  exact wellKeyed_of_at? (h found hfound) hinner

theorem fits?_none (target? : Option Value) : Fits? none target? := by
  intro value hvalue
  cases hvalue

theorem fits?_some : Fits? (some value) target? ↔ value.fits target? = true := by
  simp [Fits?]

theorem fits_record_some_iff (hdistinct : (keys fields).Nodup) :
    (Value.record fields).fits (some (.record target)) = true ↔
      ∀ name, Fits? (fields.lookup name) (target.lookup name) := by
  rw [fits, fieldsFit_iff hdistinct]
  rfl

/-- A record fits on a record or where nothing is, if all that it has fits there. -/
theorem fits_record_iff (hdistinct : (keys fields).Nodup) :
    (Value.record fields).fits target? = true ↔
      (∀ found ∈ target?, ∃ target, found = .record target) ∧
        ∀ name, Fits? (fields.lookup name) (under target? name) := by
  cases target? with
  | none => simp [Fits?, fits_none]
  | some found =>
    constructor
    · intro h
      obtain ⟨target, rfl⟩ := exists_record_of_fits h
      rw [fits_record_some_iff hdistinct] at h
      refine ⟨fun found hfound => ⟨target, (Option.some.inj hfound).symm⟩, fun name => ?_⟩
      rw [under_record]
      exact h name
    · rintro ⟨hrecord, hdeep⟩
      obtain ⟨target, rfl⟩ := hrecord found rfl
      rw [fits_record_some_iff hdistinct]
      intro name
      have hname := hdeep name
      rwa [under_record] at hname

theorem exists_joined (hdistinct : (keys fields).Nodup)
    (h : (Value.record fields).fits target? = true) :
    ∃ result, (Value.record fields).overlay target? = .record result ∧
      Joined fields target? result := by
  cases target? with
  | none =>
    refine ⟨fields, overlay_none _, ?_, fun name => ?_⟩
    · simp [namesOf]
    · rw [under_none, overlay?_none]
  | some found =>
    obtain ⟨target, rfl⟩ := exists_record_of_fits h
    refine ⟨overlayFields fields target, by rw [overlay], keys_overlayFields hdistinct target, ?_⟩
    intro name
    rw [lookup_overlayFields hdistinct, under_record]
    cases fields.lookup name <;> rfl

theorem nodup_namesOf (h : ∀ found ∈ target?, found.wellKeyed = true) :
    (namesOf target?).Nodup := by
  unfold namesOf
  split
  · exact (wellKeyed_record_iff.mp (h _ rfl)).1
  · exact List.nodup_nil

theorem Joined.nodup_keys (h : Joined fields target? result) (hdistinct : (keys fields).Nodup)
    (htarget : (namesOf target?).Nodup) : (keys result).Nodup := by
  rw [h.keys_eq]
  refine htarget.append (hdistinct.filter _) ?_
  intro name hbelow hnew
  exact of_decide_eq_true (List.mem_filter.mp hnew).2 hbelow

/-- A record that is joined to what it was joined to before leaves this, if it has nothing new. -/
theorem Joined.again {twice : Entries Value} (honce : Joined fields target? once)
    (htwice : Joined fields (some (.record once)) twice) (hdistinct : (keys once).Nodup)
    (hsame : ∀ name, overlay? (fields.lookup name) (once.lookup name) = once.lookup name) :
    once = twice := by
  have hnew : (keys fields).filter (fun name => name ∉ keys once) = [] := by
    rw [honce.keys_eq, List.filter_eq_nil_iff]
    intro name hname
    by_cases hbelow : name ∈ namesOf target? <;> simp [hname, hbelow]
  refine Entries.eq_of_lookup hdistinct ?_ fun name => ?_
  · rw [htwice.keys_eq, namesOf, hnew, List.append_nil]
  · rw [htwice.lookup_eq, under_record, hsame]

/-- Two records that are joined to the target one after the other may as well be joined to each
other first. -/
theorem Joined.assoc {both whole last : Entries Value} (honce : Joined fields target? once)
    (hlast : Joined above (some (.record once)) last)
    (hboth : Joined above (some (.record fields)) both) (hwhole : Joined both target? whole)
    (hdistinct : (keys whole).Nodup)
    (hsame : ∀ name, ComposesAt (above.lookup name) (fields.lookup name) (under target? name)) :
    whole = last := by
  refine Entries.eq_of_lookup hdistinct ?_ fun name => ?_
  · rw [hwhole.keys_eq, hboth.keys_eq, hlast.keys_eq, namesOf, namesOf, honce.keys_eq]
    exact append_new_assoc _ _ _
  · rw [hwhole.lookup_eq, hboth.lookup_eq, hlast.lookup_eq, under_record, under_record,
      honce.lookup_eq, (hsame name).overlay_eq]

theorem wellKeyed_overlay (hkeyed : value.wellKeyed = true)
    (htarget : ∀ found ∈ target?, found.wellKeyed = true) (h : value.fits target? = true) :
    (value.overlay target?).wellKeyed = true := by
  induction value using induction_lookup generalizing target? with
  | plain value hvalue => rwa [overlay_of_not_record hvalue]
  | record fields ih =>
    obtain ⟨hdistinct, hinner⟩ := wellKeyed_record_iff.mp hkeyed
    obtain ⟨-, hdeep⟩ := (fits_record_iff hdistinct).mp h
    obtain ⟨result, hresult, hjoined⟩ := exists_joined hdistinct h
    rw [hresult, wellKeyed_record_iff]
    refine ⟨hjoined.nodup_keys hdistinct (nodup_namesOf htarget), fun name inner hlookup => ?_⟩
    rw [hjoined.lookup_eq] at hlookup
    have hunder := wellKeyed_under htarget name
    cases hvalue : fields.lookup name with
    | none =>
      rw [hvalue] at hlookup
      exact hunder inner hlookup
    | some value =>
      rw [hvalue] at hlookup
      obtain rfl := Option.some.inj hlookup
      exact ih name value hvalue (hinner name value hvalue) hunder (hdeep name value hvalue)

/-- What is laid over a target again fits there and changes nothing. -/
theorem overlay_again (hkeyed : value.wellKeyed = true)
    (htarget : ∀ found ∈ target?, found.wellKeyed = true) (h : value.fits target? = true) :
    value.fits (some (value.overlay target?)) = true ∧
      value.overlay (some (value.overlay target?)) = value.overlay target? := by
  induction value using induction_lookup generalizing target? with
  | plain value hvalue =>
    rw [overlay_of_not_record hvalue, overlay_of_not_record hvalue]
    exact ⟨fits_of_not_record hvalue _, rfl⟩
  | record fields ih =>
    obtain ⟨hdistinct, hinner⟩ := wellKeyed_record_iff.mp hkeyed
    obtain ⟨-, hdeep⟩ := (fits_record_iff hdistinct).mp h
    obtain ⟨once, honce, hjoined⟩ := exists_joined hdistinct h
    have hunder : ∀ name, Fits? (fields.lookup name) (once.lookup name) ∧
        overlay? (fields.lookup name) (once.lookup name) = once.lookup name := by
      intro name
      rw [hjoined.lookup_eq]
      cases hvalue : fields.lookup name with
      | none => exact ⟨fits?_none _, rfl⟩
      | some value =>
        obtain ⟨hagain, hsame⟩ := ih name value hvalue (hinner name value hvalue)
          (wellKeyed_under htarget name) (hdeep name value hvalue)
        exact ⟨fits?_some.mpr hagain, congrArg some hsame⟩
    have hfits : (Value.record fields).fits (some (.record once)) = true := by
      rw [fits_record_some_iff hdistinct]
      exact fun name => (hunder name).1
    obtain ⟨twice, htwice, htwiceJoined⟩ := exists_joined hdistinct hfits
    have hdistinctOnce := hjoined.nodup_keys hdistinct (nodup_namesOf htarget)
    rw [honce, htwice]
    refine ⟨hfits, congrArg Value.record (Eq.symm ?_)⟩
    exact hjoined.again htwiceJoined hdistinctOnce fun name => (hunder name).2

theorem exists_record_of_fits_overlay
    (h : (Value.record fields).fits (some (first.overlay target?)) = true) :
    ∃ own, first = .record own := by
  obtain ⟨below, hbelow⟩ := exists_record_of_fits h
  by_cases hrecord : ∃ own, first = .record own
  · exact hrecord
  · rw [overlay_of_not_record fun own heq => hrecord ⟨own, heq⟩] at hbelow
    exact ⟨below, hbelow⟩

/-- Two branches under one name compose if the records that both have there do. -/
theorem composes_at {second? first? : Option Value}
    (hdeep : ∀ second first, second? = some second → first? = some first →
      first.fits target? = true → second.fits (some (first.overlay target?)) = true →
        Composes second first target?)
    (hfirst : Fits? first? target?) (hsecond : Fits? second? (overlay? first? target?)) :
    ComposesAt second? first? target? := by
  cases second? with
  | none => exact ⟨fits?_none _, hfirst, rfl⟩
  | some second =>
    cases first? with
    | none =>
      have hboth : overlay? (some second) none = some second := overlay?_none _
      refine ⟨fits?_some.mpr (fits_none second), ?_, ?_⟩
      · rw [hboth]
        exact hsecond
      · rw [hboth]
        rfl
    | some first =>
      obtain ⟨hfits, htarget, hsame⟩ := hdeep second first rfl rfl (fits?_some.mp hfirst)
        (fits?_some.mp hsecond)
      exact ⟨fits?_some.mpr hfits, fits?_some.mpr htarget, congrArg some hsame⟩

/-- What fits on a record that comes of laying another one over the target. -/
theorem fits_overlay_iff (habove : (keys above).Nodup) (hdistinct : (keys fields).Nodup)
    (hfits : (Value.record fields).fits target? = true) :
    (Value.record above).fits (some ((Value.record fields).overlay target?)) = true ↔
      ∀ name, Fits? (above.lookup name) (overlay? (fields.lookup name) (under target? name)) := by
  obtain ⟨once, honce, hjoined⟩ := exists_joined hdistinct hfits
  rw [honce, fits_record_some_iff habove]
  simp only [hjoined.lookup_eq]

/-- Records compose if what they have under each name does. -/
theorem composes_record (habove : (keys above).Nodup) (hdistinct : (keys fields).Nodup)
    (htarget : (namesOf target?).Nodup) (hfits : (Value.record fields).fits target? = true)
    (hlater : (Value.record above).fits (some ((Value.record fields).overlay target?)) = true)
    (hunder : ∀ name, ComposesAt (above.lookup name) (fields.lookup name) (under target? name)) :
    Composes (.record above) (.record fields) target? := by
  obtain ⟨once, honce, hjoined⟩ := exists_joined hdistinct hfits
  rw [honce] at hlater
  obtain ⟨last, hlast, hlastJoined⟩ := exists_joined habove hlater
  have hfirst : (Value.record above).fits (some (.record fields)) = true :=
    (fits_record_some_iff habove).mpr fun name => (hunder name).fits_first
  obtain ⟨both, hboth, hbothJoined⟩ := exists_joined habove hfirst
  have hbothDistinct := hbothJoined.nodup_keys habove hdistinct
  have hbothFits : (Value.record both).fits target? = true := by
    obtain ⟨hroom, -⟩ := (fits_record_iff hdistinct).mp hfits
    refine (fits_record_iff hbothDistinct).mpr ⟨hroom, fun name => ?_⟩
    rw [hbothJoined.lookup_eq, under_record]
    exact (hunder name).fits_target
  obtain ⟨whole, hwhole, hwholeJoined⟩ := exists_joined hbothDistinct hbothFits
  have hdistinctWhole := hwholeJoined.nodup_keys hbothDistinct htarget
  refine ⟨hfirst, hboth ▸ hbothFits, ?_⟩
  rw [hboth, hwhole, honce, hlast]
  exact congrArg Value.record
    (hjoined.assoc hlastJoined hbothJoined hwholeJoined hdistinctWhole hunder)

/-- Branches that fit one after the other compose. -/
theorem composes (hfirst : first.wellKeyed = true) (hsecond : second.wellKeyed = true)
    (htarget : ∀ found ∈ target?, found.wellKeyed = true) (hfits : first.fits target? = true)
    (hlater : second.fits (some (first.overlay target?)) = true) :
    Composes second first target? := by
  induction second using induction_lookup generalizing first target? with
  | plain second hplain =>
    have hover := overlay_of_not_record hplain
    refine ⟨fits_of_not_record hplain _, ?_, ?_⟩
    · rw [hover]
      exact fits_of_not_record hplain _
    · rw [hover, hover, hover]
  | record above ih =>
    obtain ⟨fields, rfl⟩ := exists_record_of_fits_overlay hlater
    obtain ⟨hdistinct, hkeyed⟩ := wellKeyed_record_iff.mp hfirst
    obtain ⟨habove, hkeyedAbove⟩ := wellKeyed_record_iff.mp hsecond
    obtain ⟨-, hdeep⟩ := (fits_record_iff hdistinct).mp hfits
    have hlaterAt := (fits_overlay_iff habove hdistinct hfits).mp hlater
    refine composes_record habove hdistinct (nodup_namesOf htarget) hfits hlater fun name => ?_
    refine composes_at (fun second first hsecond hfirst => ?_) (hdeep name) (hlaterAt name)
    exact ih name second hsecond (hkeyed name first hfirst) (hkeyedAbove name second hsecond)
      (wellKeyed_under htarget name)

theorem IsObject.overlay (hsecond : second.IsObject) (hfirst : first.IsObject)
    (h : second.fits (some first) = true) : (second.overlay (some first)).IsObject := by
  obtain ⟨⟨above, rfl⟩, hkeyed⟩ := hsecond
  obtain ⟨result, hresult, -⟩ := exists_joined (wellKeyed_record_iff.mp hkeyed).1 h
  exact ⟨⟨result, hresult⟩, wellKeyed_overlay hkeyed (wellKeyed_of_mem hfirst.wellKeyed) h⟩

section

variable {found : Value} (hfirst : first.IsObject) (hfound : found.wellKeyed = true)
  (hclash : ¬ first.Clashes found)

include hfirst hfound hclash

theorem not_clashes_again : ¬ first.Clashes (first.overlay (some found)) ∧
    first.overlay (some (first.overlay (some found))) = first.overlay (some found) := by
  have htarget := wellKeyed_of_mem hfound
  have hfits := (fits_iff_not_clashes hfirst.wellKeyed).mpr hclash
  obtain ⟨hagain, hsame⟩ := overlay_again hfirst.wellKeyed htarget hfits
  exact ⟨(fits_iff_not_clashes hfirst.wellKeyed).mp hagain, hsame⟩

theorem not_clashes_of_later (hsecond : second.IsObject)
    (hlater : ¬ second.Clashes (first.overlay (some found))) :
    (second.overlay (some first)).IsObject ∧ ¬ second.Clashes first ∧
      ¬ (second.overlay (some first)).Clashes found ∧
      (second.overlay (some first)).overlay (some found) =
        second.overlay (some (first.overlay (some found))) := by
  have htarget := wellKeyed_of_mem hfound
  obtain ⟨hfits, hbothFits, hsame⟩ := composes hfirst.wellKeyed hsecond.wellKeyed htarget
    ((fits_iff_not_clashes hfirst.wellKeyed).mpr hclash)
    ((fits_iff_not_clashes hsecond.wellKeyed).mpr hlater)
  have hboth := hsecond.overlay hfirst hfits
  exact ⟨hboth, (fits_iff_not_clashes hsecond.wellKeyed).mp hfits,
    (fits_iff_not_clashes hboth.wellKeyed).mp hbothFits, hsame⟩

end

end

end Value
end HelloExtensions
