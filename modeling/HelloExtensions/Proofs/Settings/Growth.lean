import HelloExtensions.Proofs.Settings.Grafting
import HelloExtensions.Proofs.Settings.Representation

/-!
Configurations that grow by merges. As long as no record of the settings lands on null, the
configuration stays a tree: a merge changes what the settings name and nothing else. The first
record that lands on null makes the configuration lead back to its root.
-/
namespace HelloExtensions.Settings

open Value

theorem meetsRoot_of_at? {store : Store} {root : Nat} {names : List String} {value : Value}
    {slot : Slot} {fields : Entries Value} (hvalue : value.at? names = some (.record fields))
    (hslot : store.at? slot names = some (.plain .null)) : MeetsRoot store root value slot := by
  induction names generalizing value slot with
  | nil =>
    rw [Value.at?_nil] at hvalue
    rw [Store.at?_nil] at hslot
    obtain rfl := Option.some.inj hvalue
    obtain rfl := Option.some.inj hslot
    exact .null fields
  | cons name names ih =>
    cases value with
    | record own =>
      cases slot with
      | table id =>
        rw [Value.at?_cons] at hvalue
        rw [Store.at?_cons] at hslot
        obtain ⟨inner, hinner, hdeep⟩ := Option.bind_eq_some_iff.mp hvalue
        obtain ⟨below, hbelow, hnull⟩ := Option.bind_eq_some_iff.mp hslot
        exact .inner hinner hbelow (ih hdeep hnull)
      | _ => cases hslot
    | _ => cases hvalue

/-- In a tree, merging comes upon null if a record lands there. -/
theorem Holds.meetsRootUnder_of_landsOnNull {store : Store} {root : Nat} {value : Value}
    {share : Finset Nat} (h : Holds store (.table root) value share) {fields : Entries Value}
    (hnull : (Value.record fields).LandsOnNull value) :
    ∃ name, MeetsRootUnder store root fields root name := by
  obtain ⟨names, inner, hinner, hfound⟩ := hnull
  rw [← h.at?_eq_null_iff] at hfound
  cases names with
  | nil => cases hfound
  | cons name names =>
    rw [Value.at?_cons] at hinner
    rw [Store.at?_cons] at hfound
    obtain ⟨value, hvalue, hdeep⟩ := Option.bind_eq_some_iff.mp hinner
    obtain ⟨slot, hslot, hnull⟩ := Option.bind_eq_some_iff.mp hfound
    exact ⟨name, value, slot, hvalue, hslot, meetsRoot_of_at? hdeep hnull⟩

namespace Configuration

/-- What the names lead to from the root. -/
def at? (c : Configuration) (names : List String) : Option Slot := c.store.at? (.table c.root) names

/-- Some names lead to a record in the settings and to null in the configuration. -/
def LandsOnNull (c : Configuration) (settings : Value) : Prop :=
  ∃ names fields, settings.at? names = some (.record fields) ∧ c.at? names = some (.plain .null)

/-- Some table of the configuration is inside itself. -/
def HasLoop (c : Configuration) : Prop :=
  ∃ steps id, c.store.Leads (.table c.root) steps id ∧ c.store.InsideItself id

/-- Merge settings one after the other, if each of these merges returns. -/
def mergeEach (c : Configuration) : List Value → Option Configuration
  | [] => some c
  | settings :: later => match c.mergeValue settings with
    | (.ok _, after) => after.mergeEach later
    | (.error _, _) => none

/-- None of the settings has a record that lands on null when its turn comes. -/
def Spares (c : Configuration) : List Value → Prop
  | [] => True
  | settings :: later => ¬ c.LandsOnNull settings ∧ (c.mergeValue settings).2.Spares later

/-- What may have changed under the names of some settings. -/
structure ChangedBy (settings before after : Value) : Prop where
  at?_eq : ∀ names, ¬ settings.Names names → after.at? names = before.at? names
  at?_ne_none : ∀ names, before.at? names = none → after.at? names ≠ none →
    settings.at? names ≠ none

section

variable {c after : Configuration} {value settings : Value} {result : Slot}

theorem Represents.not_hasLoop (h : c.Represents value) : ¬ c.HasLoop := by
  rintro ⟨steps, id, hleads, hloop⟩
  obtain ⟨share, hholds⟩ := h
  exact hholds.not_insideItself hleads hloop

theorem Represents.landsOnNull_iff (h : c.Represents value) :
    c.LandsOnNull settings ↔ settings.LandsOnNull value := by
  obtain ⟨share, hholds⟩ := h
  simp only [LandsOnNull, Value.LandsOnNull, at?, hholds.at?_eq_null_iff]

/-- A merge that returns, of settings that spare null, merges values. -/
theorem exists_of_mergeValue (hc : c.Represents value) (hkeyed : settings.wellKeyed = true)
    (hnull : ¬ c.LandsOnNull settings) (h : c.mergeValue settings = (.ok result, after)) :
    ∃ new, settings.merged? (some value) = some new ∧ after.Represents new := by
  by_cases hrecord : ∃ fields, settings = .record fields
  · obtain ⟨fields, rfl⟩ := hrecord
    rw [hc.landsOnNull_iff] at hnull
    have hmerge := mergeValue_of_represents hkeyed hc hnull
    rw [h] at hmerge
    cases hnew : (Value.record fields).merged? (some value) with
    | none =>
      rw [hnew] at hmerge
      obtain ⟨e, found, hfound⟩ := hmerge
      cases hfound
    | some new =>
      rw [hnew] at hmerge
      obtain ⟨found, hfound, hrepresents⟩ := hmerge
      obtain ⟨-, rfl⟩ := Prod.mk.inj hfound
      exact ⟨new, rfl, hrepresents⟩
  · have herror := mergeValue_of_not_record (c := c) fun fields heq => hrecord ⟨fields, heq⟩
    rw [h] at herror
    cases herror

/-- Merging a record into a tree comes to an end. If it returns, and a record has landed on null,
then the configuration leads back to its root. -/
theorem outcome_of_mergeValue (hc : c.Represents value) {fields : Entries Value}
    (hkeyed : (Value.record fields).wellKeyed = true) :
    ∃ outcome last, c.mergeValue (.record fields) = (outcome, last) ∧
      SucceedsOrLacksTable outcome (.table c.root)
        (last.HasLoop ∨ ¬ (Value.record fields).LandsOnNull value) := by
  obtain ⟨store, branch, part, hloaded⟩ := exists_loaded c fields
  obtain ⟨share, htarget, hdisjoint⟩ := hloaded.exists_share hc
  have hfresh : Fresh (fun id names => store.at? (.table c.root) names = some (.table id)) part :=
    fun id hid names hat => Finset.disjoint_right.mp hdisjoint hid (htarget.mem_of_at? hat).1
  obtain ⟨outcome, last, wider, hmerge, -, houtcome⟩ := mergeTable_grafts c.root hloaded.card_le
    hkeyed store branch c.root [] _ hloaded.holds (.of_holds htarget) (Store.at?_nil _ _) hfresh
  refine ⟨outcome, ⟨last, c.root⟩, by rw [hloaded.mergeValue_eq, hmerge], ?_⟩
  cases outcome with
  | error e => exact houtcome
  | ok result =>
    refine ⟨houtcome.1, ?_⟩
    rcases houtcome.2 with hleads | ⟨-, hmeets⟩
    · exact .inl ⟨[], c.root, .here _, hleads.exists_leads⟩
    · right
      intro hnull
      obtain ⟨name, hname⟩ := htarget.meetsRootUnder_of_landsOnNull hnull
      exact hmeets name hname

/-- The first record that lands on null makes the configuration lead back to its root. -/
theorem hasLoop_of_mergeValue (hc : c.Represents value) (hkeyed : settings.wellKeyed = true)
    (hnull : c.LandsOnNull settings) (h : c.mergeValue settings = (.ok result, after)) :
    after.HasLoop := by
  rw [hc.landsOnNull_iff] at hnull
  by_cases hrecord : ∃ fields, settings = .record fields
  · obtain ⟨fields, rfl⟩ := hrecord
    obtain ⟨outcome, last, hmerge, houtcome⟩ := outcome_of_mergeValue hc hkeyed
    rw [h] at hmerge
    obtain ⟨rfl, rfl⟩ := Prod.mk.inj hmerge
    exact houtcome.2.resolve_right fun hspares => hspares hnull
  · have herror := mergeValue_of_not_record (c := c) fun fields heq => hrecord ⟨fields, heq⟩
    rw [h] at herror
    cases herror

/-- What a merge that spares null has changed. -/
theorem changedBy_of_merged? {new : Value} (hkeyed : settings.wellKeyed = true)
    (h : settings.merged? (some value) = some new) : ChangedBy settings value new :=
  ⟨fun _ hnames => at?_merged?_of_not_names hkeyed h hnames,
    fun _ hnone hnew => at?_ne_none_of_new hkeyed h hnew hnone⟩

theorem Represents.mergeEach {later : List Value} (hc : c.Represents value)
    (hkeyed : ∀ settings ∈ later, settings.wellKeyed = true) (hspares : c.Spares later)
    (h : c.mergeEach later = some after) : ∃ new, after.Represents new := by
  induction later generalizing c value with
  | nil =>
    obtain rfl := Option.some.inj h
    exact ⟨value, hc⟩
  | cons settings later ih =>
    obtain ⟨hnull, hspares⟩ := hspares
    rw [Configuration.mergeEach] at h
    rcases hmerge : c.mergeValue settings with ⟨e | result, middle⟩
    · rw [hmerge] at h
      cases h
    · rw [hmerge] at h hspares
      obtain ⟨new, -, hnew⟩ :=
        exists_of_mergeValue hc (hkeyed settings List.mem_cons_self) hnull hmerge
      exact ih hnew (fun other hother => hkeyed other (List.mem_cons_of_mem settings hother))
        hspares h

end

/-- As long as no record lands on null, the configuration is a tree, and a merge that returns
changes what its settings name. It keeps the configuration a tree exactly if it spares null. -/
theorem tree_of_mergeEach {earlier : List Value}
    (hearlier : ∀ settings ∈ earlier, settings.wellKeyed = true) {c : Configuration}
    (h : initial.mergeEach earlier = some c) (hspares : initial.Spares earlier) :
    (∃ value, c.Represents value) ∧ ¬ c.HasLoop ∧
      ∀ settings result after, settings.wellKeyed = true →
        c.mergeValue settings = (.ok result, after) →
        (after.HasLoop ↔ c.LandsOnNull settings) ∧
        (¬ c.LandsOnNull settings → ∀ value, c.Represents value →
          ∃ new, after.Represents new ∧ ChangedBy settings value new) := by
  obtain ⟨value, hvalue⟩ := represents_initial.mergeEach hearlier hspares h
  refine ⟨⟨value, hvalue⟩, hvalue.not_hasLoop,
    fun settings result after hkeyed hmerge => ⟨⟨?_, ?_⟩, ?_⟩⟩
  · intro hloop
    by_contra hnull
    obtain ⟨new, -, hnew⟩ := exists_of_mergeValue hvalue hkeyed hnull hmerge
    exact hnew.not_hasLoop hloop
  · exact fun hnull => hasLoop_of_mergeValue hvalue hkeyed hnull hmerge
  · intro hnull found hfound
    obtain ⟨new, hnew, hrepresents⟩ := exists_of_mergeValue hfound hkeyed hnull hmerge
    exact ⟨new, hrepresents, changedBy_of_merged? hkeyed hnew⟩

/-- After one merge, a text for `log` keeps the configuration a tree and a record does not. -/
theorem tree_of_mergeEach_forked :
    ∃ c, initial.mergeEach [.record [("x", .record [("y", .int 1)])]] = some c ∧ ¬ c.HasLoop ∧
      (∃ result after, c.mergeValue (.record [("log", .text "file")]) = (.ok result, after) ∧
        ¬ after.HasLoop) ∧
      ∃ result after,
        c.mergeValue (.record [("log", .record [("a", .int 1)])]) = (.ok result, after) ∧
        after.HasLoop := by
  obtain ⟨c, result, after, other, looped, hc, hlog, hmerge, hother⟩ :
      ∃ c result after other looped,
        initial.mergeEach [.record [("x", .record [("y", .int 1)])]] = some c ∧
        c.at? ["log"] = some (.plain .null) ∧
        c.mergeValue (.record [("log", .text "file")]) = (.ok result, after) ∧
        c.mergeValue (.record [("log", .record [("a", .int 1)])]) = (.ok other, looped) :=
    ⟨_, _, _, _, _, rfl, rfl, rfl, rfl⟩
  have hspares : initial.Spares [.record [("x", .record [("y", .int 1)])]] := by
    refine ⟨?_, trivial⟩
    rw [represents_initial.landsOnNull_iff]
    exact not_landsOnNull_of_fits rfl
  have hkeyed : ∀ settings ∈ [Value.record [("x", .record [("y", .int 1)])]],
      settings.wellKeyed = true := by
    intro settings hsettings
    rw [List.mem_singleton.mp hsettings]
    rfl
  obtain ⟨-, hloop, hnext⟩ := tree_of_mergeEach hkeyed hc hspares
  refine ⟨c, hc, hloop, ⟨result, after, hmerge, ?_⟩, other, looped, hother, ?_⟩
  · rw [(hnext _ result after rfl hmerge).1]
    rintro ⟨names, fields, hfields, hnull⟩
    cases names with
    | nil => cases hnull
    | cons name names =>
      by_cases hname : name = "log"
      · cases names <;> simp [Value.at?, hname] at hfields
      · simp [Value.at?, Entries.lookup_cons, hname] at hfields
  · exact (hnext _ other looped rfl hother).1.mpr ⟨["log"], [("a", .int 1)], rfl, hlog⟩

end Configuration

end HelloExtensions.Settings
