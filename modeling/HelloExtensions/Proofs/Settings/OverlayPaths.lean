import HelloExtensions.Proofs.Settings.Overlay

/-!
Overlays path by path. A branch clashes with a target if some names lead to a record in the branch
and to something else in the target. A branch that does not clash can be laid over the target, and
then every path leads to what the branch has there laid over what the target had there.
-/
namespace HelloExtensions.Value

open Entries

/-- Some names lead to a record in the branch, and to something in the target that is no record. -/
def Clashes (branch target : Value) : Prop :=
  ∃ path fields found, branch.at? path = some (.record fields) ∧ target.at? path = some found ∧
    ∀ below, found ≠ .record below

/-- A record that may be a branch: no name comes twice in it. -/
structure IsObject (value : Value) : Prop where
  exists_record : ∃ fields, value = .record fields
  wellKeyed : value.wellKeyed = true

/-- What a branch that is laid over a record makes of it, path by path. -/
structure LaidOver (branch before after : Value) : Prop where
  /-- Anything but a record takes the place of what was there. -/
  plain : ∀ path value, branch.at? path = some value → (∀ fields, value ≠ .record fields) →
    after.at? path = some value
  /-- A record where nothing was is there as it is. -/
  added : ∀ path fields, branch.at? path = some (.record fields) → before.at? path = none →
    after.at? path = some (.record fields)
  /-- A record where a record was leaves a record, in which new names come last. -/
  joined : ∀ path fields target, branch.at? path = some (.record fields) →
    before.at? path = some (.record target) → ∃ result, after.at? path = some (.record result) ∧
      keys result = keys target ++ (keys fields).filter fun name => name ∉ keys target
  /-- Any other path leads to what it led to. -/
  kept : ∀ path, ¬ branch.Names path → after.at? path = before.at? path

/-- What is shown of a record may make use of what stands under its names. -/
@[elab_as_elim]
theorem induction_lookup {motive : Value → Prop}
    (plain : ∀ value, (∀ fields, value ≠ .record fields) → motive value)
    (record : ∀ fields, (∀ name inner, fields.lookup name = some inner → motive inner) →
      motive (.record fields)) (value : Value) : motive value := by
  cases value with
  | record fields =>
    refine record fields fun name inner h => ?_
    have hsize := List.sizeOf_lt_of_mem (Entries.mem_of_lookup_eq_some h)
    exact induction_lookup plain record inner
  | _ => exact plain _ (by simp)
termination_by sizeOf value
decreasing_by
  subst_vars
  simp only [Prod.mk.sizeOf_spec, Value.record.sizeOf_spec] at hsize ⊢
  omega

section

variable {fields target : Entries Value} {branch value inner found : Value} {name : String}
  {path : List String}

theorem fits_none (value : Value) : value.fits none = true := by cases value <;> rfl

theorem fits_of_not_record (h : ∀ fields, value ≠ .record fields) (target? : Option Value) :
    value.fits target? = true := by
  cases value with
  | record fields => exact absurd rfl (h fields)
  | _ => rfl

theorem fieldsFit_iff (hdistinct : (keys fields).Nodup) :
    fieldsFit fields target = true ↔
      ∀ name value, fields.lookup name = some value → value.fits (target.lookup name) = true := by
  have hall : fieldsFit fields target =
      fields.all fun field => field.2.fits (target.lookup field.1) := by
    clear hdistinct
    induction fields with
    | nil => rw [fieldsFit, List.all_nil]
    | cons field fields ih => rw [fieldsFit, List.all_cons, ih]
  rw [hall, all_iff hdistinct]

theorem Clashes.of_lookup (h : value.Clashes found) (hvalue : fields.lookup name = some value)
    (hfound : target.lookup name = some found) :
    (Value.record fields).Clashes (.record target) := by
  obtain ⟨path, inner, below, hinner, hbelow, hrecord⟩ := h
  refine ⟨name :: path, inner, below, ?_, ?_, hrecord⟩
  · rw [at?_cons, hvalue, Option.bind_some, hinner]
  · rw [at?_cons, hfound, Option.bind_some, hbelow]

/-- To fit is not to clash. -/
theorem fits_iff_not_clashes (hkeyed : branch.wellKeyed = true) :
    branch.fits (some found) = true ↔ ¬ branch.Clashes found := by
  constructor
  · rintro hfits ⟨path, fields, below, hfields, hbelow, hrecord⟩
    obtain ⟨target, rfl⟩ := exists_record_of_fits (fits_at? hfits hfields hbelow)
    exact hrecord target rfl
  · intro hclash
    induction branch using induction_lookup generalizing found with
    | plain value hvalue => exact fits_of_not_record hvalue _
    | record fields ih =>
      obtain ⟨hdistinct, hinner⟩ := wellKeyed_record_iff.mp hkeyed
      have htarget : ∃ target, found = .record target := by
        refine Classical.byContradiction fun hno => hclash ?_
        exact ⟨[], fields, found, at?_nil _, at?_nil _, fun below heq => hno ⟨below, heq⟩⟩
      obtain ⟨target, rfl⟩ := htarget
      rw [fits, fieldsFit_iff hdistinct]
      intro name value hvalue
      cases hbelow : target.lookup name with
      | none => exact fits_none value
      | some below =>
        exact ih name value hvalue (hinner name value hvalue) fun hdeep =>
          hclash (hdeep.of_lookup hvalue hbelow)

/-- The names of the target stay in their places, and new ones follow as the branch has them. -/
theorem keys_overlayFields (hdistinct : (keys fields).Nodup) (target : Entries Value) :
    keys (overlayFields fields target) =
      keys target ++ (keys fields).filter fun name => name ∉ keys target := by
  induction fields generalizing target with
  | nil => simp [overlayFields, keys]
  | cons field fields ih =>
    obtain ⟨key, value⟩ := field
    obtain ⟨hkey, hothers⟩ := List.nodup_cons.mp hdistinct
    have hcons : keys ((key, value) :: fields) = key :: keys fields := rfl
    rw [overlayFields, ih hothers, keys_insert, hcons, List.filter_cons]
    by_cases hmem : key ∈ keys target
    · simp [hmem]
    · have hsame : (keys fields).filter (fun name => name ∉ keys target ++ [key]) =
          (keys fields).filter fun name => name ∉ keys target := by
        refine List.filter_congr fun name hname => ?_
        have hne : name ≠ key := fun heq => hkey (heq ▸ hname)
        simp [hne]
      simp only [hmem, if_false, hsame]
      simp

/-- A path that the branch has leads to what the branch has there, laid over what was there. -/
theorem at?_overlay (hkeyed : branch.wellKeyed = true) (h : branch.at? path = some value)
    (found : Value) :
    (branch.overlay (some found)).at? path = some (value.overlay (found.at? path)) := by
  induction path generalizing branch found with
  | nil =>
    obtain rfl := Option.some.inj ((at?_nil branch).symm.trans h)
    rw [at?_nil, at?_nil]
  | cons name path ih =>
    cases branch with
    | record fields =>
      by_cases hfound : ∃ target, found = .record target
      · obtain ⟨target, rfl⟩ := hfound
        obtain ⟨hdistinct, hinner⟩ := wellKeyed_record_iff.mp hkeyed
        rw [at?_cons] at h
        obtain ⟨inner, hlookup, hrest⟩ := Option.bind_eq_some_iff.mp h
        rw [overlay, at?_cons, at?_cons, lookup_overlayFields hdistinct, hlookup]
        dsimp only
        rw [Option.bind_some]
        cases hbelow : target.lookup name with
        | none => rw [overlay_none, Option.bind_none, overlay_none, hrest]
        | some below => exact ih (hinner name inner hlookup) hrest below
      · have hnot : ∀ target, found ≠ .record target := fun target heq => hfound ⟨target, heq⟩
        rw [overlay_on_not_record hnot, at?_of_not_record hnot, overlay_none, h]
    | _ => cases h

/-- A branch that does not clash is laid over the target. -/
theorem laidOver_overlay (hkeyed : branch.wellKeyed = true) (hclash : ¬ branch.Clashes found) :
    LaidOver branch found (branch.overlay (some found)) where
  plain path value hvalue hrecord := by
    rw [at?_overlay hkeyed hvalue, overlay_of_not_record hrecord]
  added path fields hfields hnone := by
    rw [at?_overlay hkeyed hfields, hnone, overlay_none]
  joined path fields target hfields htarget := by
    obtain ⟨hdistinct, -⟩ := wellKeyed_record_iff.mp (wellKeyed_of_at? hkeyed hfields)
    refine ⟨overlayFields fields target, ?_, keys_overlayFields hdistinct target⟩
    rw [at?_overlay hkeyed hfields, htarget, overlay]
  kept path hnames := by
    have hfits := (fits_iff_not_clashes hkeyed).mpr hclash
    exact at?_merged?_of_not_names hkeyed (merged?_of_fits hkeyed hfits) hnames

end

end HelloExtensions.Value
