import HelloExtensions.Entries
import HelloExtensions.Value

/-!
Laying one value over another. A record is laid over a record name by name; anything else takes
the place of what it is laid over. What is found under a name afterwards comes from what both
records had under this name. A record that would have to be laid over something else than a record
does not fit there. To merge a value is to lay it over another one, except that an empty record
leaves what is no record as it is and any other one is not merged into it. What becomes of a record
that lands on null is not said here.
-/
namespace HelloExtensions.Value

mutual

/-- The value over what stands in its place, if anything does. -/
def overlay : Value → Option Value → Value
  | .record fields, some (.record target) => .record (overlayFields fields target)
  | value, _ => value

def overlayFields : List (String × Value) → Entries Value → Entries Value
  | [], target => target
  | (name, value) :: fields, target =>
    overlayFields fields (Entries.insert name (value.overlay (target.lookup name)) target)

end

mutual

/-- No record comes to stand over something that is there and is no record. -/
def fits : Value → Option Value → Bool
  | .record fields, some (.record target) => fieldsFit fields target
  | .record _, some _ => false
  | _, _ => true

def fieldsFit : List (String × Value) → Entries Value → Bool
  | [], _ => true
  | (name, value) :: fields, target => value.fits (target.lookup name) && fieldsFit fields target

end

mutual

/-- No record that is reached by names alone has a name twice. -/
def wellKeyed : Value → Bool
  | .record fields => decide (Entries.keys fields).Nodup && fieldsWellKeyed fields
  | _ => true

def fieldsWellKeyed : List (String × Value) → Bool
  | [] => true
  | (_, value) :: fields => value.wellKeyed && fieldsWellKeyed fields

end

/-- What stands after a record has been merged into something that is no record. -/
def leftAlone? : List (String × Value) → Value → Option Value
  | _, .null => none
  | [], target => some target
  | _ :: _, _ => none

mutual

/-- What stands after the value has been merged into what stands in its place, if anything does. -/
def merged? : Value → Option Value → Option Value
  | .record fields, some (.record target) => (mergedFields? fields target).map .record
  | .record fields, some target => leftAlone? fields target
  | value, _ => some value

def mergedFields? : List (String × Value) → Entries Value → Option (Entries Value)
  | [], target => some target
  | (name, value) :: fields, target =>
    (value.merged? (target.lookup name)).bind fun inner =>
      mergedFields? fields (Entries.insert name inner target)

end

/-- What the names lead to one after the other. -/
def at? : Value → List String → Option Value
  | value, [] => some value
  | .record fields, name :: names => (fields.lookup name).bind fun value => value.at? names
  | _, _ :: _ => none

/-- Some names lead to a record in the value and to null in the target. -/
def LandsOnNull (value target : Value) : Prop :=
  ∃ path fields, value.at? path = some (.record fields) ∧ target.at? path = some .null

theorem overlay_of_not_record {value : Value} (h : ∀ fields, value ≠ .record fields)
    (target? : Option Value) : value.overlay target? = value := by
  rw [overlay]
  intro fields target hvalue htarget
  exact h fields hvalue

theorem overlay_on_not_record {target : Value} (h : ∀ fields, target ≠ .record fields)
    (value : Value) : value.overlay (some target) = value := by
  rw [overlay]
  intro fields inner hvalue htarget
  exact h inner (Option.some.inj htarget)

theorem overlay_none (value : Value) : value.overlay none = value := by
  rw [overlay]
  intro fields target hvalue htarget
  cases htarget

theorem exists_record_of_fits {fields : List (String × Value)} {target : Value}
    (h : (Value.record fields).fits (some target) = true) : ∃ below, target = .record below := by
  cases target with
  | record below => exact ⟨below, rfl⟩
  | _ => cases h

theorem lookup_overlayFields {fields : List (String × Value)} (h : (Entries.keys fields).Nodup)
    (target : Entries Value) (name : String) :
    (overlayFields fields target).lookup name =
      match fields.lookup name with
      | some value => some (value.overlay (target.lookup name))
      | none => target.lookup name := by
  induction fields generalizing target with
  | nil => rw [overlayFields, List.lookup_nil]
  | cons field fields ih =>
    obtain ⟨key, value⟩ := field
    obtain ⟨hkey, hfields⟩ := List.nodup_cons.mp h
    have hnone : fields.lookup key = none := Entries.lookup_eq_none_of_not_mem hkey
    rw [overlayFields, ih hfields, Entries.lookup_cons]
    by_cases hname : name = key
    · subst hname
      rw [hnone, if_pos rfl]
      simp only [Entries.lookup_insert, if_true]
    · rw [if_neg hname]
      simp only [Entries.lookup_insert, if_neg hname]

theorem at?_singleton (fields : List (String × Value)) (name : String) :
    (Value.record fields).at? [name] = fields.lookup name := by
  rw [at?]
  cases fields.lookup name with
  | none => rfl
  | some value => rw [Option.bind_some, at?]

theorem at?_cons (fields : List (String × Value)) (name : String) (names : List String) :
    (Value.record fields).at? (name :: names) =
      (fields.lookup name).bind fun value => value.at? names := by
  rw [at?]

/-- No name comes twice in a record, and in no record under its names. -/
theorem wellKeyed_record_iff {fields : Entries Value} :
    (Value.record fields).wellKeyed = true ↔ (Entries.keys fields).Nodup ∧
      ∀ name value, fields.lookup name = some value → value.wellKeyed = true := by
  have hall : fieldsWellKeyed fields = fields.all fun field => field.2.wellKeyed := by
    induction fields with
    | nil => rw [fieldsWellKeyed, List.all_nil]
    | cons field fields ih => rw [fieldsWellKeyed, List.all_cons, ih]
  rw [wellKeyed, Bool.and_eq_true, decide_eq_true_eq, hall]
  exact and_congr_right fun hdistinct => Entries.all_iff hdistinct

/-- A record that comes of laying a value over a record has, under each name, what the value has
there laid over what was there. -/
theorem lookup_of_overlay {value : Value} (hkeyed : value.wellKeyed = true)
    {target fields : Entries Value} (h : value.overlay (some (.record target)) = .record fields)
    (name : String) :
    fields.lookup name = match value.at? [name] with
      | some inner => some (inner.overlay (target.lookup name))
      | none => target.lookup name := by
  by_cases hrecord : ∃ own, value = .record own
  · obtain ⟨own, rfl⟩ := hrecord
    rw [overlay] at h
    obtain rfl := Value.record.inj h
    rw [lookup_overlayFields (wellKeyed_record_iff.mp hkeyed).1, at?_singleton]
  · rw [overlay_of_not_record fun own heq => hrecord ⟨own, heq⟩] at h
    exact absurd ⟨fields, h⟩ hrecord

theorem wellKeyed_of_at? {value inner : Value} (hkeyed : value.wellKeyed = true)
    {names : List String} (h : value.at? names = some inner) : inner.wellKeyed = true := by
  induction names generalizing value with
  | nil =>
    rw [at?] at h
    obtain rfl := Option.some.inj h
    exact hkeyed
  | cons name names ih =>
    cases value with
    | record fields =>
      rw [at?_cons] at h
      obtain ⟨value, hvalue, hrest⟩ := Option.bind_eq_some_iff.mp h
      exact ih ((wellKeyed_record_iff.mp hkeyed).2 name value hvalue) hrest
    | _ => cases h

/-- Only the names that are laid over the record matter to whether they fit. -/
theorem fieldsFit_congr {fields : List (String × Value)} {a b : Entries Value}
    (h : ∀ name ∈ Entries.keys fields, a.lookup name = b.lookup name) :
    fieldsFit fields a = fieldsFit fields b := by
  induction fields with
  | nil => rw [fieldsFit, fieldsFit]
  | cons field fields ih =>
    obtain ⟨key, value⟩ := field
    have hfirst := h key List.mem_cons_self
    have hothers := ih fun name hname => h name (List.mem_cons_of_mem key hname)
    rw [fieldsFit, fieldsFit, hfirst, hothers]

section

variable {fields target : Entries Value} {value found : Value} {name : String}

theorem merged?_of_not_record (h : ∀ fields, value ≠ .record fields) (target? : Option Value) :
    value.merged? target? = some value := by
  rw [merged?]
  · intro fields target hvalue htarget
    exact h fields hvalue
  · intro fields target hvalue htarget
    exact h fields hvalue

theorem merged?_none (value : Value) : value.merged? none = some value := by
  rw [merged?]
  · intro fields target hvalue htarget
    cases htarget
  · intro fields target hvalue htarget
    cases htarget

theorem merged?_record (fields target : Entries Value) :
    (Value.record fields).merged? (some (.record target)) =
      (mergedFields? fields target).map .record := by
  rw [merged?]

theorem merged?_over (h : ∀ below, found ≠ .record below) (fields : Entries Value) :
    (Value.record fields).merged? (some found) = leftAlone? fields found := by
  rw [merged?]
  intro target hfound
  exact h target hfound

mutual

/-- A value that fits is merged by laying it over. -/
theorem merged?_of_fits {value : Value} {target? : Option Value} (hkeyed : value.wellKeyed = true)
    (h : value.fits target? = true) : value.merged? target? = some (value.overlay target?) := by
  cases value with
  | record fields =>
    cases target? with
    | none => rw [merged?_none, overlay_none]
    | some target =>
      obtain ⟨below, rfl⟩ := exists_record_of_fits h
      rw [fits] at h
      rw [wellKeyed, Bool.and_eq_true, decide_eq_true_eq] at hkeyed
      rw [merged?_record, mergedFields?_of_fit hkeyed.1 hkeyed.2 h, overlay, Option.map_some]
  | _ => rw [merged?_of_not_record (by simp), overlay_of_not_record (by simp)]

theorem mergedFields?_of_fit {fields target : Entries Value}
    (hdistinct : (Entries.keys fields).Nodup) (hkeyed : fieldsWellKeyed fields = true)
    (h : fieldsFit fields target = true) :
    mergedFields? fields target = some (overlayFields fields target) := by
  cases fields with
  | nil => rw [mergedFields?, overlayFields]
  | cons field fields =>
    obtain ⟨name, value⟩ := field
    obtain ⟨hname, hothers⟩ := List.nodup_cons.mp hdistinct
    rw [fieldsWellKeyed, Bool.and_eq_true] at hkeyed
    rw [fieldsFit, Bool.and_eq_true] at h
    have hrest : fieldsFit fields
        (Entries.insert name (value.overlay (target.lookup name)) target) = true := by
      rw [← h.2]
      apply fieldsFit_congr
      intro other hother
      have hne : other ≠ name := fun heq => hname (heq ▸ hother)
      rw [Entries.lookup_insert, if_neg hne]
    rw [mergedFields?, merged?_of_fits hkeyed.1 h.1, Option.bind_some,
      mergedFields?_of_fit hothers hkeyed.2 hrest, overlayFields]

end

/-- A field that lands on null lands there as a part of the record. -/
theorem LandsOnNull.of_lookup (h : value.LandsOnNull found)
    (hvalue : fields.lookup name = some value)
    (hfound : target.lookup name = some found) :
    (Value.record fields).LandsOnNull (.record target) := by
  obtain ⟨path, inner, hinner, hnull⟩ := h
  refine ⟨name :: path, inner, ?_, ?_⟩
  · rw [at?_cons, hvalue, Option.bind_some, hinner]
  · rw [at?_cons, hfound, Option.bind_some, hnull]

theorem fits_of_lookup (h : fieldsFit fields target = true)
    (hvalue : fields.lookup name = some value) : value.fits (target.lookup name) = true := by
  induction fields with
  | nil => cases hvalue
  | cons field fields ih =>
    obtain ⟨key, first⟩ := field
    rw [fieldsFit, Bool.and_eq_true] at h
    rw [Entries.lookup_cons] at hvalue
    by_cases hname : name = key
    · subst hname
      rw [if_pos rfl] at hvalue
      obtain rfl := Option.some.inj hvalue
      exact h.1
    · rw [if_neg hname] at hvalue
      exact ih h.2 hvalue

/-- What fits, fits wherever names lead. -/
theorem fits_at? (h : value.fits (some found) = true) {inner below : Value} {path : List String}
    (hinner : value.at? path = some inner) (hbelow : found.at? path = some below) :
    inner.fits (some below) = true := by
  induction path generalizing value found with
  | nil =>
    rw [at?] at hinner hbelow
    obtain rfl := Option.some.inj hinner
    obtain rfl := Option.some.inj hbelow
    exact h
  | cons name path ih =>
    cases value with
    | record fields =>
      obtain ⟨target, rfl⟩ := exists_record_of_fits h
      rw [at?_cons] at hinner hbelow
      obtain ⟨value, hvalue, hinner⟩ := Option.bind_eq_some_iff.mp hinner
      obtain ⟨found, hfound, hbelow⟩ := Option.bind_eq_some_iff.mp hbelow
      rw [fits] at h
      have hdeep := fits_of_lookup h hvalue
      rw [hfound] at hdeep
      exact ih hdeep hinner hbelow
    | _ => cases hinner

theorem not_landsOnNull_of_fits (h : value.fits (some found) = true) :
    ¬ value.LandsOnNull found := by
  rintro ⟨path, fields, hfields, hnull⟩
  obtain ⟨below, hbelow⟩ := exists_record_of_fits (fits_at? h hfields hnull)
  cases hbelow

theorem landsOnNull_null (fields : Entries Value) : (Value.record fields).LandsOnNull .null :=
  ⟨[], fields, by rw [at?], by rw [at?]⟩

end

/-- The branch has something at the path, or something that is no record on the way there. -/
def Names (branch : Value) (path : List String) : Prop :=
  branch.at? path ≠ none ∨
    ∃ front value, front <+: path ∧ branch.at? front = some value ∧ ∀ fields, value ≠ .record fields

section

variable {fields target result : Entries Value} {branch found left : Value} {name : String}
  {path : List String}

theorem at?_nil (value : Value) : value.at? [] = some value := by rw [at?]

theorem at?_of_not_record (h : ∀ fields, branch ≠ .record fields) (name : String)
    (path : List String) : branch.at? (name :: path) = none := by
  cases branch with
  | record fields => exact absurd rfl (h fields)
  | _ => rfl

theorem names_of_not_record (h : ∀ fields, branch ≠ .record fields) (path : List String) :
    branch.Names path :=
  .inr ⟨[], branch, List.nil_prefix, at?_nil branch, h⟩

theorem Names.cons (h : branch.Names path) (hbranch : fields.lookup name = some branch) :
    (Value.record fields).Names (name :: path) := by
  rcases h with hsome | ⟨front, value, hfront, hvalue, hrecord⟩
  · left
    rwa [at?_cons, hbranch, Option.bind_some]
  · refine .inr ⟨name :: front, value, List.cons_prefix_cons.mpr ⟨rfl, hfront⟩, ?_, hrecord⟩
    rw [at?_cons, hbranch, Option.bind_some, hvalue]

theorem eq_of_leftAlone? (h : leftAlone? fields found = some left) : left = found := by
  cases fields with
  | nil =>
    cases found with
    | null => cases h
    | _ => exact (Option.some.inj h).symm
  | cons field fields => cases found <;> cases h

theorem lookup_mergedFields? (hdistinct : (Entries.keys fields).Nodup)
    (h : mergedFields? fields target = some result) (name : String) :
    match fields.lookup name with
    | some value =>
      ∃ inner, value.merged? (target.lookup name) = some inner ∧ result.lookup name = some inner
    | none => result.lookup name = target.lookup name := by
  induction fields generalizing target with
  | nil =>
    rw [mergedFields?] at h
    obtain rfl := Option.some.inj h
    rfl
  | cons field fields ih =>
    obtain ⟨key, value⟩ := field
    obtain ⟨hkey, hothers⟩ := List.nodup_cons.mp hdistinct
    rw [mergedFields?] at h
    obtain ⟨inner, hinner, hrest⟩ := Option.bind_eq_some_iff.mp h
    have hlater := ih hothers hrest
    rw [Entries.lookup_cons]
    by_cases hname : name = key
    · subst hname
      rw [Entries.lookup_eq_none_of_not_mem hkey] at hlater
      rw [if_pos rfl]
      refine ⟨inner, hinner, ?_⟩
      rw [hlater, Entries.lookup_insert, if_pos rfl]
    · rw [Entries.lookup_insert, if_neg hname] at hlater
      rw [if_neg hname]
      exact hlater

/-- A merge of two records, one name further in. -/
theorem exists_of_merged? (hkeyed : (Value.record fields).wellKeyed = true)
    (h : (Value.record fields).merged? (some (.record target)) = some left) (name : String) :
    ∃ result : Entries Value, left = .record result ∧ match fields.lookup name with
      | some value => value.wellKeyed = true ∧
        ∃ inner, value.merged? (target.lookup name) = some inner ∧ result.lookup name = some inner
      | none => result.lookup name = target.lookup name := by
  obtain ⟨hdistinct, hinner⟩ := wellKeyed_record_iff.mp hkeyed
  rw [merged?_record] at h
  obtain ⟨result, hresult, rfl⟩ := Option.map_eq_some_iff.mp h
  have hlookup := lookup_mergedFields? hdistinct hresult name
  refine ⟨result, rfl, ?_⟩
  cases hvalue : fields.lookup name with
  | none =>
    rw [hvalue] at hlookup
    exact hlookup
  | some value =>
    rw [hvalue] at hlookup
    exact ⟨hinner name value hvalue, hlookup⟩

/-- What the branch does not name stays as it is. -/
theorem at?_merged?_of_not_names (hkeyed : branch.wellKeyed = true)
    (h : branch.merged? (some found) = some left) (hnames : ¬ branch.Names path) :
    left.at? path = found.at? path := by
  induction path generalizing branch found left with
  | nil => exact absurd (.inl (by simp [at?_nil])) hnames
  | cons name path ih =>
    by_cases hbranch : ∃ fields, branch = .record fields
    · obtain ⟨fields, rfl⟩ := hbranch
      by_cases hfound : ∃ target, found = .record target
      · obtain ⟨target, rfl⟩ := hfound
        obtain ⟨result, rfl, hlookup⟩ := exists_of_merged? hkeyed h name
        rw [at?_cons, at?_cons]
        cases hvalue : fields.lookup name with
        | none =>
          rw [hvalue] at hlookup
          rw [hlookup]
        | some value =>
          have hdeep : ¬ value.Names path := fun hdeep => hnames (hdeep.cons hvalue)
          rw [hvalue] at hlookup
          obtain ⟨hinner, inner, hmerged, hresult⟩ := hlookup
          rw [hresult, Option.bind_some]
          cases hbelow : target.lookup name with
          | none =>
            rw [hbelow, merged?_none] at hmerged
            obtain rfl := Option.some.inj hmerged
            exact Classical.byContradiction fun hsome => hdeep (.inl hsome)
          | some below =>
            rw [hbelow] at hmerged
            exact ih hinner hmerged hdeep
      · rw [merged?_over fun target heq => hfound ⟨target, heq⟩] at h
        rw [eq_of_leftAlone? h]
    · exact absurd (names_of_not_record (fun fields heq => hbranch ⟨fields, heq⟩) _) hnames

/-- What is new comes from the branch. -/
theorem at?_ne_none_of_new (hkeyed : branch.wellKeyed = true)
    (h : branch.merged? (some found) = some left) (hnew : left.at? path ≠ none)
    (hnone : found.at? path = none) : branch.at? path ≠ none := by
  induction path generalizing branch found left with
  | nil => cases hnone.symm.trans (at?_nil found)
  | cons name path ih =>
    by_cases hbranch : ∃ fields, branch = .record fields
    · obtain ⟨fields, rfl⟩ := hbranch
      by_cases hfound : ∃ target, found = .record target
      · obtain ⟨target, rfl⟩ := hfound
        obtain ⟨result, rfl, hlookup⟩ := exists_of_merged? hkeyed h name
        rw [at?_cons] at hnew hnone ⊢
        cases hvalue : fields.lookup name with
        | none =>
          rw [hvalue] at hlookup
          rw [hlookup] at hnew
          exact absurd hnone hnew
        | some value =>
          rw [hvalue] at hlookup
          obtain ⟨hinner, inner, hmerged, hresult⟩ := hlookup
          rw [hresult, Option.bind_some] at hnew
          rw [Option.bind_some]
          cases hbelow : target.lookup name with
          | none =>
            rw [hbelow, merged?_none] at hmerged
            obtain rfl := Option.some.inj hmerged
            exact hnew
          | some below =>
            rw [hbelow] at hmerged hnone
            exact ih hinner hmerged hnew hnone
      · rw [merged?_over fun target heq => hfound ⟨target, heq⟩] at h
        rw [eq_of_leftAlone? h] at hnew
        exact absurd hnone hnew
    · have hnot : ∀ fields, branch ≠ .record fields := fun fields heq => hbranch ⟨fields, heq⟩
      rw [merged?_of_not_record hnot] at h
      obtain rfl := Option.some.inj h
      exact hnew

end

end HelloExtensions.Value
