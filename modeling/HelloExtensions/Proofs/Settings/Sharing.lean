import HelloExtensions.Proofs.Settings.Accepted
import HelloExtensions.Proofs.Settings.Charts

/-!
What becomes of the objects that callers merge. A configuration takes tables over as they are, so a
later merge may write into a table of an object passed before. It does so only where the
configuration has this table and the branch another one, and never in an object that it is given
itself. All other tables of all objects stay as they are, whatever is done to the configuration.
-/
namespace HelloExtensions.Settings.Configuration

open Value

/-- What callers do to a configuration. -/
inductive Operation where
  | merge (branch : Slot)
  | setLogLevel (level : Snapshot)
  | check

/-- The configuration that an operation leaves, whatever its outcome. -/
def perform (c : Configuration) : Operation → Configuration
  | .merge branch => (c.merge branch (.plain .null)).2
  | .setLogLevel level => match c.setLogLevel level with
    | .ok after => after
    | .error _ => c
  | .check => c.check.2

def performEach (c : Configuration) (operations : List Operation) : Configuration :=
  operations.foldl perform c

/-- Make room for several values that are going to be merged. -/
def loadEach (c : Configuration) (values : List Value) : List Slot × Configuration :=
  let (slots, store) := Store.loadItems values c.store
  (slots, { c with store })

/-- Merging the branch puts another table onto this one. -/
def Overlays (c : Configuration) (branch : Slot) (id : Nat) : Prop :=
  c.store.Overlays branch (.table c.root) id

/-- One of the operations puts another table onto this one. -/
def OverlaidIn (c : Configuration) (operations : List Operation) (id : Nat) : Prop :=
  ∃ earlier branch later, operations = earlier ++ .merge branch :: later ∧
    (c.performEach earlier).Overlays branch id

/-- None of the operations merges a table into null. -/
def SparesNull (c : Configuration) : List Operation → Prop
  | [] => True
  | operation :: later =>
    (∀ branch, operation = .merge branch → ¬ c.store.LandsOnNull branch (.table c.root)) ∧
      (c.perform operation).SparesNull later

section

variable {c after : Configuration} {chart : Nat → List Step → Prop} {operation : Operation}
  {operations : List Operation} {branch : Slot} {id : Nat}

theorem performEach_cons (c : Configuration) (operation : Operation)
    (operations : List Operation) :
    c.performEach (operation :: operations) = (c.perform operation).performEach operations := rfl

theorem performEach_append (c : Configuration) (earlier later : List Operation) :
    c.performEach (earlier ++ later) = (c.performEach earlier).performEach later :=
  List.foldl_append

theorem OverlaidIn.cons (h : (c.perform operation).OverlaidIn operations id) :
    c.OverlaidIn (operation :: operations) id := by
  obtain ⟨earlier, branch, later, rfl, hover⟩ := h
  exact ⟨operation :: earlier, branch, later, rfl, hover⟩

theorem SparesNull.append_right {earlier later : List Operation}
    (h : c.SparesNull (earlier ++ later)) : (c.performEach earlier).SparesNull later := by
  induction earlier generalizing c with
  | nil => exact h
  | cons operation earlier ih => exact ih h.2

theorem SparesNull.append_left {earlier later : List Operation}
    (h : c.SparesNull (earlier ++ later)) : c.SparesNull earlier := by
  induction earlier generalizing c with
  | nil => trivial
  | cons operation earlier ih => exact ⟨h.1, ih h.2⟩

/-- The chart covers the configuration and whatever an operation merges. -/
structure ChartedFor (c : Configuration) (chart : Nat → List Step → Prop)
    (operations : List Operation) : Prop where
  charted : Charted c.store chart
  root_charted : chart c.root []
  branch_charted : ∀ id, .merge (.table id) ∈ operations → chart id []

/-- After an operation that keeps to the chart, only the root and what is overlaid have changed. -/
structure KeptBy (c after : Configuration) (chart : Nat → List Step → Prop)
    (operation : Operation) : Prop where
  root_eq : after.root = c.root
  size_eq : after.store.size = c.store.size
  charted : Charted after.store chart
  table_eq : ∀ id, id ≠ c.root → (∀ branch, operation = .merge branch → ¬ c.Overlays branch id) →
    after.store.table id = c.store.table id

theorem KeptBy.refl (h : Charted c.store chart) (operation : Operation) :
    KeptBy c c chart operation := ⟨rfl, rfl, h, fun _ _ _ => rfl⟩

/-- The level is written into the root. -/
theorem keptBy_of_level (h : Charted c.store chart) (hroot : chart c.root []) (level : LogLevel)
    (operation : Operation) :
    KeptBy c { c with store := c.store.insert c.root "log_level" (.plain (.text level.name)) } chart
      operation := by
  refine ⟨rfl, Store.size_insert _ _ _ _, ?_, fun id hid _ => ?_⟩
  · exact h.insert hroot fun steps inner hleads => by cases hleads
  · exact Store.table_insert_of_ne (h.lt_size hroot) _ _ hid

theorem keptBy_of_setLogLevel (h : Charted c.store chart) (hroot : chart c.root [])
    {level : Snapshot} (hlevel : c.setLogLevel level = .ok after) (operation : Operation) :
    KeptBy c after chart operation := by
  obtain ⟨_, found, -, -, rfl⟩ := exists_level_of_setLogLevel hlevel
  exact keptBy_of_level h hroot found operation

theorem keptBy_merge (h : Charted c.store chart) (hroot : chart c.root [])
    (hbranch : ∀ id, branch = .table id → chart id [])
    (hspares : ¬ c.store.LandsOnNull branch (.table c.root)) :
    KeptBy c (c.perform (.merge branch)) chart (.merge branch) := by
  cases branch with
  | table id =>
    obtain ⟨outcome, store, hmerge, hkept, -⟩ := mergeTable_keeps c.root (depthLimit c.store) chart
      c.store id (.table c.root) [] h (hbranch id rfl) (fun root heq => Slot.table.inj heq ▸ hroot)
      hspares
    have hperform : c.perform (.merge (.table id)) = { c with store } := by
      rw [perform, merge, Settings.merge, mergeTable_null, hmerge]
    rw [hperform]
    exact ⟨rfl, hkept.size_eq, hkept.charted, fun other _ hnot => hkept.table_eq other (hnot _ rfl)⟩
  | plain value => exact .refl h _
  | list number slots => exact .refl h _

theorem keptBy_perform (h : c.ChartedFor chart (operation :: operations))
    (hspares : c.SparesNull (operation :: operations)) :
    KeptBy c (c.perform operation) chart operation := by
  cases operation with
  | merge branch =>
    refine keptBy_merge h.charted h.root_charted (fun id heq => ?_) (hspares.1 branch rfl)
    exact h.branch_charted id (heq ▸ List.mem_cons_self)
  | setLogLevel level =>
    rw [perform]
    split
    · next after hlevel => exact keptBy_of_setLogLevel h.charted h.root_charted hlevel _
    · exact .refl h.charted _
  | check =>
    rw [perform, check]
    split
    · exact .refl h.charted _
    · exact .refl h.charted _
    · split
      · exact .refl h.charted _
      · next after hlevel => exact keptBy_of_setLogLevel h.charted h.root_charted hlevel _

theorem KeptBy.chartedFor (h : KeptBy c (c.perform operation) chart operation)
    (hc : c.ChartedFor chart (operation :: operations)) :
    (c.perform operation).ChartedFor chart operations :=
  ⟨h.charted, h.root_eq ▸ hc.root_charted,
    fun id hid => hc.branch_charted id (List.mem_cons_of_mem _ hid)⟩

/-- A run that keeps to the chart. -/
theorem performEach_kept (h : c.ChartedFor chart operations) (hspares : c.SparesNull operations) :
    (c.performEach operations).root = c.root ∧
      (c.performEach operations).store.size = c.store.size ∧
      Charted (c.performEach operations).store chart ∧
      ∀ id, id ≠ c.root → ¬ c.OverlaidIn operations id →
        (c.performEach operations).store.table id = c.store.table id := by
  induction operations generalizing c with
  | nil => exact ⟨rfl, rfl, h.charted, fun _ _ _ => rfl⟩
  | cons operation operations ih =>
    have hstep := keptBy_perform h hspares
    obtain ⟨hroot, hsize, hcharted, htable⟩ := ih (hstep.chartedFor h) hspares.2
    rw [performEach_cons]
    refine ⟨hroot.trans hstep.root_eq, hsize.trans hstep.size_eq, hcharted, fun id hid hnot => ?_⟩
    rw [htable id (hstep.root_eq ▸ hid) fun hover => hnot hover.cons]
    refine hstep.table_eq id hid fun branch heq hover => ?_
    exact hnot ⟨[], branch, operations, by rw [heq]; rfl, hover⟩

theorem ChartedFor.performEach {earlier later : List Operation}
    (h : c.ChartedFor chart (earlier ++ later)) (hspares : c.SparesNull (earlier ++ later)) :
    (c.performEach earlier).ChartedFor chart later := by
  have hearlier : c.ChartedFor chart earlier :=
    ⟨h.charted, h.root_charted, fun id hid => h.branch_charted id (List.mem_append_left _ hid)⟩
  obtain ⟨hroot, -, hcharted, -⟩ := performEach_kept hearlier hspares.append_left
  exact ⟨hcharted, hroot ▸ h.root_charted,
    fun id hid => h.branch_charted id (List.mem_append_right _ hid)⟩

/-- No merge puts a table onto one of the branch it is given. -/
theorem not_overlays_of_leads (h : Charted c.store chart) (hroot : chart c.root [])
    (hbranch : ∀ id, branch = .table id → chart id []) {steps : List Step}
    (hleads : c.store.Leads branch steps id) : ¬ c.Overlays branch id := by
  rintro ⟨names, other, hat, hother, hne⟩
  cases branch with
  | table outer =>
    have hsteps := h.unique (h.leads (hbranch outer rfl) hleads) (h.chart_of_at? hroot hat)
    rw [List.nil_append, List.nil_append] at hsteps
    rw [hsteps, Store.leads_map_name_iff, hother] at hleads
    exact hne (Slot.table.inj (Option.some.inj hleads))
  | plain value => cases hleads
  | list number slots => cases names <;> cases hother

end

/-- The objects as callers hold them. -/
def slotsOf (objects : List (Entries Value)) : List Slot :=
  (initial.loadEach (objects.map .record)).1

/-- The configuration, and the objects with it, after some operations. -/
def reached (objects : List (Entries Value)) (operations : List Operation) : Configuration :=
  (initial.loadEach (objects.map .record)).2.performEach operations

/-- The steps that lead to the tables of the template and of the objects. -/
def chartOf (objects : List (Entries Value)) (id : Nat) (place : List Step) : Prop :=
  ∃ slot ∈ Slot.table (reached objects []).root :: slotsOf objects,
    (reached objects []).store.Leads slot place id

section

variable {objects : List (Entries Value)} {operations earlier later : List Operation}
  {object branch : Slot} {steps : List Step} {id : Nat}

theorem reached_append (objects : List (Entries Value)) (earlier later : List Operation) :
    reached objects (earlier ++ later) = (reached objects earlier).performEach later :=
  performEach_append _ earlier later

/-- The template and the objects are trees that share no table. -/
theorem holdsItems_reached (objects : List (Entries Value)) :
    HoldsItems .empty (reached objects []).store
      (.table (reached objects []).root :: slotsOf objects)
      (template :: objects.map .record) := by
  have hloaded := (holds_loadItems (template :: objects.map .record) .empty).2
  rw [Store.loadItems_cons, load_template] at hloaded
  exact hloaded

/-- An object is a table, and not the root. -/
theorem exists_table_of_mem (hobject : object ∈ slotsOf objects) :
    ∃ id, object = .table id ∧ id ≠ (reached objects []).root := by
  obtain ⟨hlength, parts, -, hdisjoint, hitems⟩ := holdsItems_reached objects
  obtain ⟨position, hposition⟩ := List.mem_iff_getElem?.mp hobject
  obtain ⟨value, hvalue⟩ := exists_of_length_eq (Nat.succ.inj hlength) hposition
  obtain ⟨fields, -, rfl⟩ := List.mem_map.mp (List.mem_of_getElem? hvalue)
  have hholds := hitems (position + 1) object _ hposition hvalue
  obtain ⟨id, rfl, hid⟩ := hholds.exists_table
  refine ⟨id, rfl, ?_⟩
  rintro rfl
  have hroot := (hitems 0 _ _ rfl rfl).mem_of_leads (.here _)
  exact Finset.disjoint_left.mp (hdisjoint 0 (position + 1) (by omega)) hroot.1 hid

theorem chartOf_of_mem (hobject : .table id ∈ slotsOf objects) : chartOf objects id [] :=
  ⟨_, List.mem_cons_of_mem _ hobject, .here id⟩

theorem chartedFor_reached (hkeyed : ∀ fields ∈ objects, (Value.record fields).wellKeyed = true)
    (huses : ∀ branch, .merge branch ∈ operations → branch ∈ slotsOf objects) :
    (reached objects []).ChartedFor (chartOf objects) operations := by
  refine ⟨.of_holdsItems (holdsItems_reached objects) ?_,
    ⟨_, List.mem_cons_self, .here _⟩, fun id hid => chartOf_of_mem (huses _ hid)⟩
  intro value hvalue
  rcases List.mem_cons.mp hvalue with rfl | hobject
  · rfl
  · obtain ⟨fields, hfields, rfl⟩ := List.mem_map.mp hobject
    exact hkeyed fields hfields

/-- The root belongs to none of the objects. -/
theorem ne_root_of_leads (hkeyed : ∀ fields ∈ objects, (Value.record fields).wellKeyed = true)
    (huses : ∀ branch, .merge branch ∈ earlier ++ later → branch ∈ slotsOf objects)
    (hspares : (reached objects []).SparesNull (earlier ++ later))
    (hobject : object ∈ slotsOf objects)
    (hleads : (reached objects earlier).store.Leads object steps id) :
    id ≠ (reached objects earlier).root := by
  rintro rfl
  have hroot : (reached objects earlier).root = (reached objects []).root :=
    (performEach_kept (chartedFor_reached hkeyed fun branch hmerge =>
      huses branch (List.mem_append_left later hmerge)) hspares.append_left).1
  have hmiddle := (chartedFor_reached hkeyed huses).performEach hspares
  obtain ⟨outer, rfl, houter⟩ := exists_table_of_mem hobject
  have hplace := hmiddle.charted.leads (chartOf_of_mem hobject) hleads
  obtain rfl := hmiddle.charted.unique hplace hmiddle.root_charted
  cases hleads
  exact houter hroot

end

/-- As long as no record lands on null, a table of an object that was passed keeps what it has
unless a later merge puts another table onto it, and no merge does that to the object it is given.
An object none of whose tables is overlaid holds its value. -/
theorem objects_kept {objects : List (Entries Value)}
    (hkeyed : ∀ fields ∈ objects, (Value.record fields).wellKeyed = true)
    {operations : List Operation}
    (huses : ∀ branch, .merge branch ∈ operations → branch ∈ slotsOf objects)
    (hspares : (reached objects []).SparesNull operations) :
    (∀ earlier later, operations = earlier ++ later → ∀ object ∈ slotsOf objects, ∀ steps id,
      (reached objects earlier).store.Leads object steps id →
        (reached objects operations).store.table id = (reached objects earlier).store.table id ∨
          (reached objects earlier).OverlaidIn later id) ∧
    (∀ earlier branch later, operations = earlier ++ .merge branch :: later → ∀ steps id,
      (reached objects earlier).store.Leads branch steps id →
        ¬ (reached objects earlier).Overlays branch id) ∧
    ∀ (position : Nat) object fields, (slotsOf objects)[position]? = some object →
      objects[position]? = some fields →
      (∀ steps id, (reached objects []).store.Leads object steps id →
        ¬ (reached objects []).OverlaidIn operations id) →
      ∃ share, Holds (reached objects operations).store object (.record fields) share := by
  have hsame : ∀ earlier later, operations = earlier ++ later → ∀ object ∈ slotsOf objects,
      ∀ steps id, (reached objects earlier).store.Leads object steps id →
        (reached objects operations).store.table id = (reached objects earlier).store.table id ∨
          (reached objects earlier).OverlaidIn later id := by
    rintro earlier later rfl object hobject steps id hleads
    by_cases hover : (reached objects earlier).OverlaidIn later id
    · exact .inr hover
    · obtain ⟨-, -, -, htable⟩ := performEach_kept
        ((chartedFor_reached hkeyed huses).performEach hspares) hspares.append_right
      rw [reached_append]
      exact .inl (htable id (ne_root_of_leads hkeyed huses hspares hobject hleads) hover)
  refine ⟨hsame, ?_, ?_⟩
  · rintro earlier branch later rfl steps id hleads
    have hmiddle := (chartedFor_reached hkeyed huses).performEach hspares
    exact not_overlays_of_leads hmiddle.charted hmiddle.root_charted
      (fun id heq => hmiddle.branch_charted id (heq ▸ List.mem_cons_self)) hleads
  · intro position object fields hobject hfields hnot
    obtain ⟨-, parts, -, -, hitems⟩ := holdsItems_reached objects
    have hholds := hitems (position + 1) object (.record fields) hobject
      (by rw [List.getElem?_cons_succ, List.getElem?_map, hfields, Option.map_some])
    have hsize := (performEach_kept (chartedFor_reached hkeyed huses) hspares).2.1
    refine ⟨_, hholds.frame_of_leads (Nat.le_of_eq hsize.symm) fun steps id hleads => ?_⟩
    have hkept := hsame [] operations rfl object (List.mem_of_getElem? hobject) steps id hleads
    exact hkept.resolve_right (hnot steps id hleads)

/-- Two objects that have a table each under the same name. -/
def rivals : List (Entries Value) :=
  [[("x", .record [("y", .int 1)])], [("x", .record [("y", .int 2)])]]

/-- The table inside of the first object takes what the second object has in its place. -/
theorem object_changed :
    ∃ first second, slotsOf rivals = [first, second] ∧
      (reached rivals []).snapshot first = .table [("x", .table [("y", .plain (.int 1))])] ∧
      (reached rivals [.merge first, .merge second]).snapshot first =
        .table [("x", .table [("y", .plain (.int 2))])] :=
  ⟨_, _, rfl, rfl, rfl⟩

theorem not_landsOnNull_of_single {store : Store} {branch inner root : Nat} {value : Value}
    (hbranch : store.table branch = [("x", .table inner)])
    (hinner : store.table inner = [("y", .plain value)])
    (hroot : (store.table root).lookup "x" ≠ some (.plain .null)) :
    ¬ store.LandsOnNull (.table branch) (.table root) := by
  rintro ⟨names, found, hfound, hnull⟩
  cases names with
  | nil => cases hnull
  | cons name names =>
    rw [Store.at?_cons, hbranch, Entries.lookup_cons] at hfound
    by_cases hname : name = "x"
    · subst hname
      rw [if_pos rfl, Option.bind_some] at hfound
      cases names with
      | nil =>
        rw [Store.at?_cons] at hnull
        obtain ⟨slot, hslot, hat⟩ := Option.bind_eq_some_iff.mp hnull
        rw [Store.at?_nil] at hat
        exact hroot (hslot.trans hat)
      | cons key names =>
        rw [Store.at?_cons, hinner, Entries.lookup_cons] at hfound
        by_cases hkey : key = "y"
        · rw [if_pos hkey, Option.bind_some] at hfound
          cases names <;> cases hfound
        · rw [if_neg hkey] at hfound
          cases hfound
    · rw [if_neg hname] at hfound
      cases hfound

/-- The second object is not written to by the merge that it is given to. -/
theorem objects_kept_rivals :
    ∃ first second inner, slotsOf rivals = [first, second] ∧
      (reached rivals [.merge first, .check]).store.Leads second [.name "x"] inner ∧
      ¬ (reached rivals [.merge first, .check]).Overlays second inner := by
  have hkeyed : ∀ fields ∈ rivals, (Value.record fields).wellKeyed = true := by
    intro fields hfields
    rcases List.mem_pair.mp hfields with rfl | rfl <;> rfl
  have huses : ∀ branch, Operation.merge branch ∈
      [Operation.merge (.table 4), .check, .merge (.table 6)] → branch ∈ slotsOf rivals := by
    intro branch hbranch
    have hslot : branch = .table 4 ∨ branch = .table 6 := by simpa using hbranch
    exact List.mem_pair.mpr hslot
  have hspares : (reached rivals []).SparesNull [.merge (.table 4), .check, .merge (.table 6)] := by
    refine ⟨fun branch hbranch => ?_, fun branch hbranch => ?_, fun branch hbranch => ?_, trivial⟩
    · obtain rfl := Operation.merge.inj hbranch
      exact not_landsOnNull_of_single rfl rfl fun h => by cases h
    · cases hbranch
    · obtain rfl := Operation.merge.inj hbranch
      exact not_landsOnNull_of_single rfl rfl fun h => by cases h
  have hleads : (reached rivals [.merge (.table 4), .check]).store.Leads (.table 6) [.name "x"] 5 :=
    .name rfl (.here 5)
  obtain ⟨-, hown, -⟩ := objects_kept hkeyed huses hspares
  exact ⟨.table 4, .table 6, 5, rfl, hleads, hown [.merge (.table 4), .check] _ [] rfl _ _ hleads⟩

end HelloExtensions.Settings.Configuration
