import HelloExtensions.Proofs.Settings.Accepted
import HelloExtensions.Proofs.Settings.Charts

/-!
The check of any configuration, even of one whose tables are shared or lead back to themselves. It
passes exactly the valid ones. Before it comes to the section for the decoder it writes the level of
logging in capital letters, and this stays so if the section fails; nothing else ever changes. The
second check then meets a level that is in capital letters already, so it ends like the first.
-/
namespace HelloExtensions

namespace Text

/-- All characters are of ASCII. -/
def IsAscii (cs : List Char) : Prop := ∀ c ∈ cs, c.toNat < 128

theorem isAscii_of_all {cs : List Char} (h : (cs.all fun c => decide (c.toNat < 128)) = true) :
    IsAscii cs := by
  intro c hc
  exact of_decide_eq_true (List.all_eq_true.mp h c hc)

/-- An upper-casing of all characters. As long as ASCII comes of a character it is `capital`;
what else there is in upper case is not of ASCII. -/
def Uppercases (upper : Char → List Char) : Prop :=
  ∀ c, IsAscii (upper c) ∨ IsAscii (capital c) → upper c = capital c

/-- A text in the upper case of each of its characters. -/
def uppercase (upper : Char → List Char) (s : String) : String :=
  String.ofList (s.toList.flatMap upper)

/-- Where two upper-casings agree in ASCII, a text of ASCII comes of both or of none. -/
theorem flatMap_eq_of_isAscii {upper other : Char → List Char}
    (h : ∀ c, IsAscii (upper c) → upper c = other c) {cs name : List Char} (hname : IsAscii name)
    (heq : cs.flatMap upper = name) : cs.flatMap other = name := by
  have hsame : ∀ c ∈ cs, upper c = other c := by
    intro c hc
    refine h c fun d hd => hname d ?_
    rw [← heq]
    exact List.mem_flatMap.mpr ⟨c, hc, hd⟩
  rw [← heq, List.flatMap_congr hsame]

theorem Uppercases.uppercase_eq_iff {upper : Char → List Char} (h : Uppercases upper)
    {s name : String} (hname : IsAscii name.toList) :
    uppercase upper s = name ↔ capitals s = name := by
  rw [uppercase, capitals, ← String.toList_inj, ← String.toList_inj, String.toList_ofList,
    String.toList_ofList]
  constructor
  · exact flatMap_eq_of_isAscii (fun c hc => h c (.inl hc)) hname
  · exact flatMap_eq_of_isAscii (fun c hc => (h c (.inr hc)).symm) hname

end Text

/-- The names of levels are in capital letters already. -/
theorem LogLevel.capitals_name (level : LogLevel) : Text.capitals level.name = level.name := by
  cases level <;> decide

theorem LogLevel.isAscii_name (level : LogLevel) : Text.IsAscii level.name.toList := by
  cases level <;> exact Text.isAscii_of_all rfl

namespace Settings

/-- What is seen below some tables does not depend on what these tables hold. -/
theorem Snapshot.unfold_congr {store other : Store} {path : List Nat}
    (hsame : ∀ id, id ∉ path → other.table id = store.table id) (limit id : Nat) :
    unfold other limit path id = unfold store limit path id := by
  induction limit generalizing path id with
  | zero => rfl
  | succ limit ih =>
    rw [unfold, unfold]
    cases hfound : path.reverse.idxOf? id with
    | some depth => rfl
    | none =>
      have hnew : id ∉ path := by
        rw [← List.mem_reverse]
        exact List.idxOf?_eq_none_iff.mp hfound
      have hinner : unfold other limit (id :: path) = unfold store limit (id :: path) :=
        funext fun inner => ih (fun id hid => hsame id fun hold => hid (.tail _ hold)) inner
      rw [hsame id hnew, hinner]

namespace Configuration

/-- What a configuration must hold to pass the check. -/
structure Valid (upper : Char → List Char) (c : Configuration) : Prop where
  log : ∃ path, c.table.lookup "log" = some (.plain path) ∧ (path = .null ∨ ∃ s, path = .text s)
  level : ∃ s level, c.table.lookup "log_level" = some (.plain (.text s)) ∧
    Text.uppercase upper s = LogLevel.name level
  debug : (c.table.lookup "debug").isSome = true
  decoder : ∃ id, c.table.lookup "decoder" = some (.table id) ∧
    (∀ slot, (c.store.table id).lookup "grease_as_unknown" = some slot →
      ∃ b, slot = .plain (.bool b)) ∧
    ∀ slot, (c.store.table id).lookup "max_extensions" = some slot →
      slot = .plain .null ∨ ∃ n, 0 ≤ n ∧ slot = .plain (.int n)

/-- The level was a text that names one, and it is in upper case afterwards. -/
def CapitalizesLevel (upper : Char → List Char) (before after : Configuration) : Prop :=
  ∃ s level, before.table.lookup "log_level" = some (.plain (.text s)) ∧
    Text.uppercase upper s = LogLevel.name level ∧
    after.table.lookup "log_level" = some (.plain (.text (Text.uppercase upper s)))

/-- Nothing differs but the level, and this is left as it is or put in upper case. The same is seen
from the root. -/
structure DiffersInLevel (upper : Char → List Char) (before after : Configuration) : Prop where
  root_eq : after.root = before.root
  size_eq : after.store.size = before.store.size
  lists_eq : after.store.lists = before.store.lists
  table_eq : ∀ id, id ≠ before.root → after.store.table id = before.store.table id
  keys_eq : Entries.keys after.table = Entries.keys before.table
  lookup_eq : ∀ key, key ≠ "log_level" → after.table.lookup key = before.table.lookup key
  level : after.table.lookup "log_level" = before.table.lookup "log_level" ∨
    CapitalizesLevel upper before after
  view : after.view = before.view ∨
    ∃ entries s level, before.view = .table entries ∧
      entries.lookup "log_level" = some (.plain (.text s)) ∧
      Text.uppercase upper s = LogLevel.name level ∧
      after.view = .table
        (Entries.insert "log_level" (.plain (.text (Text.uppercase upper s))) entries)

/-- The configuration with the name of a level for its level. -/
def withLevel (c : Configuration) (level : LogLevel) : Configuration :=
  { c with store := c.store.insert c.root "log_level" (.plain (.text level.name)) }

/-- The check comes to write this level: the keys are there, the log has a place, and the text for
the level names it. -/
structure Reaches (c : Configuration) (level : LogLevel) : Prop where
  keys : ∀ key ∈ requiredKeys, (c.table.lookup key).isSome = true
  log : ∀ slot, c.table.lookup "log" = some slot → isPath slot = true
  named : ∃ s, c.table.lookup "log_level" = some (.plain (.text s)) ∧ Text.capitals s = level.name

section

variable {c : Configuration} {level : LogLevel}

theorem checkLog_eq_ok_iff :
    c.checkLog = .ok () ↔ ∀ slot, c.table.lookup "log" = some slot → isPath slot = true := by
  unfold checkLog
  cases hlog : c.table.lookup "log" with
  | none => simp
  | some slot => by_cases hpath : isPath slot = true <;> simp [hpath]

theorem setLogLevel_eq_ok_iff {after : Configuration} :
    c.setLogLevel (((c.table.lookup "log_level").map c.snapshot).getD (.plain .null)) = .ok after ↔
      ∃ s level, c.table.lookup "log_level" = some (.plain (.text s)) ∧
        Text.capitals s = LogLevel.name level ∧ after = c.withLevel level := by
  constructor
  · intro h
    obtain ⟨s, level, hsnapshot, hlevel, hafter⟩ := exists_level_of_setLogLevel h
    refine ⟨s, level, ?_, (LogLevel.ofName?_eq_some_iff.mp hlevel).symm, hafter⟩
    cases hslot : c.table.lookup "log_level" with
    | none =>
      rw [hslot] at hsnapshot
      cases hsnapshot
    | some slot =>
      rw [hslot] at hsnapshot
      rw [eq_plain_of_snapshot hsnapshot]
  · rintro ⟨s, level, hslot, hname, rfl⟩
    have hlevel : LogLevel.ofText? s = some level := LogLevel.ofName?_eq_some_iff.mpr hname.symm
    rw [hslot]
    show c.setLogLevel (.plain (.text s)) = _
    rw [setLogLevel, hlevel]
    rfl

/-- The section is checked with the level written, and what is written stays. -/
theorem Reaches.check_eq (h : c.Reaches level) :
    c.check = ((c.withLevel level).checkDecoder, c.withLevel level) := by
  obtain ⟨s, hslot, hname⟩ := h.named
  rw [check, checkKeys_eq_ok_iff.mpr h.keys, checkLog_eq_ok_iff.mpr h.log]
  dsimp only
  rw [setLogLevel_eq_ok_iff.mpr ⟨s, level, hslot, hname, rfl⟩]

/-- Either the level is written and the section is checked, or the check stops before it writes
anything. -/
theorem check_cases (c : Configuration) :
    (∃ level, c.Reaches level ∧ c.check = ((c.withLevel level).checkDecoder, c.withLevel level)) ∨
      (∀ level, ¬ c.Reaches level) ∧ ∃ e, c.check = (.error e, c) := by
  by_cases h : ∃ level, c.Reaches level
  · obtain ⟨level, hreaches⟩ := h
    exact .inl ⟨level, hreaches, hreaches.check_eq⟩
  · refine .inr ⟨not_exists.mp h, ?_⟩
    unfold check
    cases hkeys : c.checkKeys with
    | error e => exact ⟨e, rfl⟩
    | ok result =>
      cases hlog : c.checkLog with
      | error e => exact ⟨e, rfl⟩
      | ok result =>
        dsimp only
        cases hset : c.setLogLevel
            (((c.table.lookup "log_level").map c.snapshot).getD (.plain .null)) with
        | error e => exact ⟨e, rfl⟩
        | ok after =>
          obtain ⟨s, level, hslot, hname, -⟩ := setLogLevel_eq_ok_iff.mp hset
          have hreaches : c.Reaches level :=
            ⟨checkKeys_eq_ok_iff.mp hkeys, checkLog_eq_ok_iff.mp hlog, s, hslot, hname⟩
          exact absurd ⟨level, hreaches⟩ h

theorem Reaches.lt_size (h : c.Reaches level) : c.root < c.store.size := by
  obtain ⟨s, hslot, -⟩ := h.named
  exact Store.lt_size_of_lookup hslot

theorem Reaches.lookup_withLevel (h : c.Reaches level) (key : String) :
    (c.withLevel level).table.lookup key =
      if key = "log_level" then some (.plain (.text level.name)) else c.table.lookup key := by
  rw [table, withLevel, Store.lookup_insert h.lt_size]
  simp only [true_and]
  rfl

theorem Reaches.withLevel (h : c.Reaches level) : (c.withLevel level).Reaches level := by
  refine ⟨fun key hkey => ?_, fun slot hslot => ?_, level.name, ?_, level.capitals_name⟩
  · rw [h.lookup_withLevel]
    split
    · rfl
    · exact h.keys key hkey
  · rw [h.lookup_withLevel, if_neg (by decide)] at hslot
    exact h.log slot hslot
  · rw [h.lookup_withLevel, if_pos rfl]

theorem Reaches.withLevel_withLevel (h : c.Reaches level) :
    (c.withLevel level).withLevel level = c.withLevel level := by
  have hfound : ((c.withLevel level).store.table c.root).lookup "log_level" =
      some (.plain (.text level.name)) :=
    (h.lookup_withLevel "log_level").trans (if_pos rfl)
  exact congrArg (fun store => Configuration.mk store c.root) (Store.insert_of_lookup hfound)

/-- A second check has nothing left to write, and finds the section as it was. -/
theorem check_again (c : Configuration) : c.check.2.check = c.check := by
  obtain ⟨level, hreaches, hcheck⟩ | ⟨-, e, herror⟩ := c.check_cases
  · rw [hcheck]
    dsimp only
    rw [hreaches.withLevel.check_eq, hreaches.withLevel_withLevel]
  · rw [herror]
    dsimp only
    exact herror

/-- What the check wants, in the terms of the tests that it makes. -/
theorem valid_iff {upper : Char → List Char} (hupper : Text.Uppercases upper) :
    c.Valid upper ↔ ∃ level, c.Reaches level ∧ ∃ id, c.HasSection id := by
  constructor
  · intro h
    obtain ⟨path, hlog, hpath⟩ := h.log
    obtain ⟨s, level, hslot, hname⟩ := h.level
    obtain ⟨id, hid, hflag, hlimit⟩ := h.decoder
    refine ⟨level, ⟨?_, ?_, s, hslot, (hupper.uppercase_eq_iff level.isAscii_name).mp hname⟩,
      id, hid, ?_, ?_⟩
    · intro key hkey
      simp only [requiredKeys, List.mem_cons, List.not_mem_nil, or_false] at hkey
      rcases hkey with rfl | rfl | rfl | rfl
      · rw [hlog, Option.isSome_some]
      · rw [hslot, Option.isSome_some]
      · exact h.debug
      · rw [hid, Option.isSome_some]
    · intro slot hfound
      obtain rfl := Option.some.inj (hlog.symm.trans hfound)
      rcases hpath with rfl | ⟨place, rfl⟩
      · rfl
      · rfl
    · intro slot hfound
      obtain ⟨b, rfl⟩ := hflag slot hfound
      rfl
    · intro slot hfound
      rcases hlimit slot hfound with rfl | ⟨n, hn, rfl⟩
      · rfl
      · exact decide_eq_true hn
  · rintro ⟨level, h, id, hsection⟩
    obtain ⟨s, hslot, hname⟩ := h.named
    constructor
    · obtain ⟨path, hlog⟩ := Option.isSome_iff_exists.mp (h.keys "log" (by decide))
      have hpath := h.log path hlog
      unfold isPath at hpath
      split at hpath
      · exact ⟨.null, hlog, .inl rfl⟩
      · next place => exact ⟨.text place, hlog, .inr ⟨place, rfl⟩⟩
      · cases hpath
    · exact ⟨s, level, hslot, (hupper.uppercase_eq_iff level.isAscii_name).mpr hname⟩
    · exact h.keys "debug" (by decide)
    · refine ⟨id, hsection.lookup_eq, fun slot hfound => ?_, fun slot hfound => ?_⟩
      · have hflag := hsection.flag slot hfound
        unfold isFlag at hflag
        split at hflag
        · next b => exact ⟨b, rfl⟩
        · cases hflag
      · have hlimit := hsection.limit slot hfound
        unfold isLimit at hlimit
        split at hlimit
        · exact .inl rfl
        · next n => exact .inr ⟨n, of_decide_eq_true hlimit, rfl⟩
        · cases hlimit

theorem checkDecoder_of_hasSection {id : Nat} (h : c.HasSection id) :
    c.checkDecoder = .ok () := by
  have hpasses : ∀ (test : Slot → Bool) (key : String),
      (∀ slot, (c.store.table id).lookup key = some slot → test slot = true) →
        (((c.store.table id).lookup key).map test).getD true = true := by
    intro test key htest
    cases hslot : (c.store.table id).lookup key with
    | none => rfl
    | some slot => exact htest slot hslot
  rw [checkDecoder, h.lookup_eq]
  dsimp only
  rw [if_pos (hpasses isFlag _ h.flag), if_pos (hpasses isLimit _ h.limit)]
  rfl

/-- The level is none of the settings of the section. -/
theorem Reaches.hasSection_withLevel_iff (h : c.Reaches level) (id : Nat) :
    (c.withLevel level).HasSection id ↔ c.HasSection id := by
  have hlookup : ∀ key, key ≠ "log_level" →
      ((c.withLevel level).store.table id).lookup key = (c.store.table id).lookup key := by
    intro key hkey
    rw [Configuration.withLevel, Store.lookup_insert h.lt_size, if_neg fun heq => hkey heq.2]
  have hdecoder := h.lookup_withLevel "decoder"
  rw [if_neg (by decide)] at hdecoder
  constructor
  · rintro ⟨hid, hflag, hlimit⟩
    rw [hlookup _ (by decide)] at hflag hlimit
    exact ⟨hdecoder ▸ hid, hflag, hlimit⟩
  · rintro ⟨hid, hflag, hlimit⟩
    rw [← hlookup _ (by decide)] at hflag hlimit
    exact ⟨hdecoder.trans hid, hflag, hlimit⟩

theorem Reaches.check_eq_ok_iff (h : c.Reaches level) :
    c.check.1 = .ok () ↔ ∃ id, c.HasSection id := by
  rw [h.check_eq]
  constructor
  · intro hok
    obtain ⟨id, hsection⟩ := exists_section_of_checkDecoder hok
    exact ⟨id, (h.hasSection_withLevel_iff id).mp hsection⟩
  · rintro ⟨id, hsection⟩
    exact checkDecoder_of_hasSection ((h.hasSection_withLevel_iff id).mpr hsection)

theorem check_eq_ok_iff {upper : Char → List Char} (hupper : Text.Uppercases upper) :
    c.check.1 = .ok () ↔ c.Valid upper := by
  rw [valid_iff hupper]
  obtain ⟨level, hreaches, -⟩ | ⟨hnone, e, herror⟩ := c.check_cases
  · rw [hreaches.check_eq_ok_iff]
    constructor
    · exact fun hsection => ⟨level, hreaches, hsection⟩
    · rintro ⟨-, -, hsection⟩
      exact hsection
  · rw [herror]
    constructor
    · intro hok
      cases hok
    · rintro ⟨level, hreaches, -⟩
      exact absurd hreaches (hnone level)

/-- The entries of the root as they are seen. -/
def visible (c : Configuration) : Entries Snapshot :=
  c.table.map fun e => (e.1, Snapshot.expand (Snapshot.unfold c.store c.store.size [c.root]) e.2)

theorem view_eq (c : Configuration) : c.view = .table c.visible := by
  rw [view, snapshot, Snapshot.ofSlot, Snapshot.expand, Snapshot.unfold]
  rfl

/-- What leads back to the root is not followed, so it is seen as before. -/
theorem Reaches.visible_withLevel (h : c.Reaches level) :
    (c.withLevel level).visible =
      Entries.insert "log_level" (.plain (.text level.name)) c.visible := by
  have hsize : (c.withLevel level).store.size = c.store.size := Store.size_insert _ _ _ _
  have htable : (c.withLevel level).table = Entries.insert "log_level" _ c.table :=
    Store.table_insert_self h.lt_size _ _
  have hsee : Snapshot.unfold (c.withLevel level).store c.store.size [c.root] =
      Snapshot.unfold c.store c.store.size [c.root] := by
    refine funext fun id => Snapshot.unfold_congr (fun other hother => ?_) _ _
    exact Store.table_insert_of_ne h.lt_size _ _ fun heq => hother (List.mem_singleton.mpr heq)
  have hseen : (c.withLevel level).visible = (c.withLevel level).table.map fun e =>
      (e.1, Snapshot.expand (Snapshot.unfold c.store c.store.size [c.root]) e.2) := by
    rw [visible, hsize, ← hsee]
    rfl
  rw [hseen, htable, Entries.map_insert, Snapshot.expand]
  rfl

theorem DiffersInLevel.refl (upper : Char → List Char) (c : Configuration) :
    DiffersInLevel upper c c :=
  ⟨rfl, rfl, rfl, fun _ _ => rfl, rfl, fun _ _ => rfl, .inl rfl, .inl rfl⟩

theorem Reaches.capitalizesLevel {upper : Char → List Char} (hupper : Text.Uppercases upper)
    (h : c.Reaches level) : CapitalizesLevel upper c (c.withLevel level) := by
  obtain ⟨s, hslot, hname⟩ := h.named
  have hupperName := (hupper.uppercase_eq_iff level.isAscii_name).mpr hname
  refine ⟨s, level, hslot, hupperName, ?_⟩
  rw [h.lookup_withLevel, if_pos rfl, hupperName]

theorem Reaches.differsInLevel {upper : Char → List Char} (hupper : Text.Uppercases upper)
    (h : c.Reaches level) : DiffersInLevel upper c (c.withLevel level) := by
  obtain ⟨s, hslot, hname⟩ := h.named
  have hupperName := (hupper.uppercase_eq_iff level.isAscii_name).mpr hname
  have htable : (c.withLevel level).table = Entries.insert "log_level" _ c.table :=
    Store.table_insert_self h.lt_size _ _
  refine ⟨rfl, Store.size_insert _ _ _ _, rfl, fun id hid => ?_, ?_, fun key hkey => ?_,
    .inr (h.capitalizesLevel hupper),
    .inr ⟨c.visible, s, level, c.view_eq, ?_, hupperName, ?_⟩⟩
  · exact Store.table_insert_of_ne h.lt_size _ _ hid
  · have hkey : "log_level" ∈ Entries.keys c.table :=
      (Entries.isSome_lookup_iff _ _).mp (h.keys "log_level" (by decide))
    rw [htable, Entries.keys_insert, if_pos hkey]
  · rw [h.lookup_withLevel, if_neg hkey]
  · rw [visible, Entries.lookup_map, hslot, Option.map_some, Snapshot.expand]
  · rw [view_eq, h.visible_withLevel, hupperName]

theorem differsInLevel_check {upper : Char → List Char} (hupper : Text.Uppercases upper)
    (c : Configuration) : DiffersInLevel upper c c.check.2 := by
  obtain ⟨level, hreaches, hcheck⟩ | ⟨-, e, herror⟩ := c.check_cases
  · rw [hcheck]
    exact hreaches.differsInLevel hupper
  · rw [herror]
    exact .refl upper c

theorem capitalizesLevel_check {upper : Char → List Char} (hupper : Text.Uppercases upper)
    (h : c.check.1 = .ok ()) : CapitalizesLevel upper c c.check.2 := by
  obtain ⟨level, hreaches, hcheck⟩ | ⟨-, e, herror⟩ := c.check_cases
  · rw [hcheck]
    exact hreaches.capitalizesLevel hupper
  · rw [herror] at h
    cases h

end

/-- The check passes the valid configurations. Whatever it finds, nothing but the level differs
afterwards, and another check finds the same and changes nothing. What has passed has its level in
upper case. -/
theorem check_settles {upper : Char → List Char} (hupper : Text.Uppercases upper)
    (c : Configuration) :
    (c.check.1 = .ok () ↔ c.Valid upper) ∧ DiffersInLevel upper c c.check.2 ∧
      (c.check.1 = .ok () → CapitalizesLevel upper c c.check.2) ∧ c.check.2.check = c.check :=
  ⟨check_eq_ok_iff hupper, differsInLevel_check hupper c, capitalizesLevel_check hupper,
    check_again c⟩

/-- Settings with a level in small letters, one of them a dotless i, and a limit below zero. -/
def belowLimit : Configuration :=
  (initial.mergeValue (.record [("log_level", .text "ınfo"),
    ("decoder", .record [("max_extensions", .int (-1))])])).2

/-- The level is written though the limit is then refused. -/
theorem check_settles_belowLimit :
    Text.Uppercases Text.capital ∧ belowLimit.check.1 ≠ .ok () ∧
      belowLimit.table.lookup "log_level" = some (.plain (.text "ınfo")) ∧
      belowLimit.check.2.table.lookup "log_level" = some (.plain (.text "INFO")) ∧
      belowLimit.check.2.check = belowLimit.check := by
  have hupper : Text.Uppercases Text.capital := fun _ _ => rfl
  obtain ⟨hvalid, -, -, hagain⟩ := check_settles hupper belowLimit
  refine ⟨hupper, fun hok => ?_, rfl, rfl, hagain⟩
  obtain ⟨id, hid, -, hlimit⟩ := (hvalid.mp hok).decoder
  obtain rfl := Slot.table.inj (Option.some.inj hid)
  rcases hlimit _ rfl with hnull | ⟨n, hn, hint⟩
  · cases hnull
  · obtain rfl := Value.int.inj (Slot.plain.inj hint)
    omega

end Configuration

end Settings

end HelloExtensions
