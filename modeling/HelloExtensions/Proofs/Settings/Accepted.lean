import HelloExtensions.Decoder
import HelloExtensions.Proofs.Settings.Representation

/-!
Configurations that pass the check. Whatever has been merged, a checked configuration names a level
and has a section for the decoder, in which a setting is of the right kind if it is there at all.
If the settings of the user also fit the template, then the configuration holds the template with
these settings laid over it. So every setting is there, the one of the user or else the one of the
template.
-/
namespace HelloExtensions.Settings.Configuration

open Value

/-- The configuration that settings lead to, unless they are not merged or fail the check. -/
def accepted? (settings? : Option Value) : Option Configuration :=
  match merged settings? with
  | (.error _, _) => none
  | (.ok _, c) => match c.check with
    | (.error _, _) => none
    | (.ok (), checked) => some checked

/-- A section for the decoder, with settings of the right kind. -/
structure HasSection (c : Configuration) (id : Nat) : Prop where
  lookup_eq : c.table.lookup "decoder" = some (.table id)
  flag : ∀ slot, (c.store.table id).lookup "grease_as_unknown" = some slot → isFlag slot = true
  limit : ∀ slot, (c.store.table id).lookup "max_extensions" = some slot → isLimit slot = true

/-- A checked configuration names its level, and has a section for the decoder. -/
structure Checked (c : Configuration) : Prop where
  exists_level : ∃ level : LogLevel, c.table.lookup "log_level" = some (.plain (.text level.name))
  exists_section : ∃ id, c.HasSection id

section

variable {c checked : Configuration}

theorem eq_plain_of_snapshot {slot : Slot} {value : Value} (h : c.snapshot slot = .plain value) :
    slot = .plain value := by
  unfold snapshot Snapshot.ofSlot at h
  cases slot with
  | plain found =>
    rw [Snapshot.expand] at h
    rw [Snapshot.plain.inj h]
  | list id items =>
    rw [Snapshot.expand] at h
    cases h
  | table id =>
    rw [Snapshot.expand, Snapshot.unfold] at h
    cases h

theorem checkKeys_eq_ok_iff :
    c.checkKeys = .ok () ↔ ∀ key ∈ requiredKeys, (c.table.lookup key).isSome = true := by
  have hnone : c.checkKeys = .ok () ↔
      (requiredKeys.find? fun key => (c.table.lookup key).isNone) = none := by
    unfold checkKeys
    split
    · next key hkey => simp [hkey]
    · next hkeys => simp [hkeys]
  rw [hnone, List.find?_eq_none]
  refine forall₂_congr fun key _ => ?_
  cases c.table.lookup key <;> simp

theorem exists_level_of_setLogLevel {level : Snapshot} (h : c.setLogLevel level = .ok checked) :
    ∃ s l, level = .plain (.text s) ∧ LogLevel.ofText? s = some l ∧
      checked = { c with store := c.store.insert c.root "log_level" (.plain (.text l.name)) } := by
  unfold setLogLevel at h
  split at h
  · next s =>
    split at h
    · next l hl => exact ⟨s, l, rfl, hl, (Except.ok.inj h).symm⟩
    · cases h
  · cases h

/-- The check writes the level in capital letters and changes nothing else. -/
theorem exists_level_of_check (h : c.check = (.ok (), checked)) :
    ∃ s level, c.table.lookup "log_level" = some (.plain (.text s)) ∧
      LogLevel.ofText? s = some level ∧
      checked =
        { c with store := c.store.insert c.root "log_level" (.plain (.text level.name)) } ∧
      checked.checkDecoder = .ok () := by
  unfold check at h
  split at h
  · cases h
  · cases h
  · split at h
    · cases h
    · next after hset =>
      obtain ⟨hdecoder, rfl⟩ := Prod.mk.inj h
      obtain ⟨s, level, hsnapshot, hlevel, hafter⟩ := exists_level_of_setLogLevel hset
      refine ⟨s, level, ?_, hlevel, hafter, hdecoder⟩
      cases hlookup : c.table.lookup "log_level" with
      | none =>
        rw [hlookup] at hsnapshot
        cases hsnapshot
      | some slot =>
        rw [hlookup] at hsnapshot
        rw [eq_plain_of_snapshot hsnapshot]

theorem exists_section_of_checkDecoder (h : c.checkDecoder = .ok ()) :
    ∃ id, c.HasSection id := by
  unfold checkDecoder at h
  split at h
  · next id hid =>
    dsimp only at h
    split at h
    · next hflag =>
      split at h
      · next hlimit =>
        refine ⟨id, hid, fun slot hslot => ?_, fun slot hslot => ?_⟩
        · rwa [hslot] at hflag
        · rwa [hslot] at hlimit
      · cases h
    · cases h
  · cases h

theorem checked_of_check (h : c.check = (.ok (), checked)) : checked.Checked := by
  obtain ⟨s, level, hlookup, -, hchecked, hdecoder⟩ := exists_level_of_check h
  refine ⟨⟨level, ?_⟩, exists_section_of_checkDecoder hdecoder⟩
  have hroot : c.root < c.store.size := Store.lt_size_of_lookup hlookup
  rw [hchecked, table, Store.lookup_insert hroot, if_pos ⟨rfl, rfl⟩]

theorem exists_merged_of_accepted? {settings? : Option Value}
    (h : accepted? settings? = some checked) :
    ∃ result c, merged settings? = (.ok result, c) ∧ c.check = (.ok (), checked) := by
  unfold accepted? at h
  split at h
  · cases h
  · next result c hmerged =>
    split at h
    · cases h
    · next after hcheck =>
      obtain rfl := Option.some.inj h
      exact ⟨result, c, hmerged, hcheck⟩

theorem checked_of_accepted? {settings? : Option Value}
    (h : accepted? settings? = some checked) : checked.Checked := by
  obtain ⟨result, c, -, hcheck⟩ := exists_merged_of_accepted? h
  exact checked_of_check hcheck

theorem HasSection.decoderSetting_eq {id : Nat} (h : c.HasSection id) (key : String) :
    c.decoderSetting key = match (c.store.table id).lookup key with
      | some slot => .ok slot
      | none => .error (.noEntry (.text key)) := by
  have hsection : c.store.get (.table c.root) (.text "decoder") = .ok (.table id) := by
    simp only [Store.get, Value.key, Value.text?, bind, Except.bind, Option.bind]
    rw [show (c.store.table c.root).lookup "decoder" = some (.table id) from h.lookup_eq]
  have hkey : c.store.get (.table id) (.text key) =
      match (c.store.table id).lookup key with
      | some slot => .ok slot
      | none => .error (.noEntry (.text key)) := rfl
  simp only [decoderSetting, follow, Store.follow, List.foldlM_cons, List.foldlM_nil, bind,
    Except.bind, hsection, hkey]
  cases (c.store.table id).lookup key with
  | none => rfl
  | some slot => rfl

theorem logLevel_of_lookup {level : LogLevel}
    (h : c.table.lookup "log_level" = some (.plain (.text level.name))) : c.logLevel = level := by
  rw [logLevel, h]
  dsimp only
  rw [LogLevel.ofName?_eq_some_iff.mpr rfl, Option.getD_some]

end

/-- No record of the settings has a name twice, and none of them lands on a value of the template
that is no record. -/
def Fits (settings? : Option Value) : Prop :=
  ∀ settings ∈ settings?, settings.wellKeyed = true ∧ settings.fits (some template) = true

/-- The template with the settings laid over it. -/
def settled (settings? : Option Value) : Value :=
  match settings? with
  | some settings => settings.overlay (some template)
  | none => template

theorem represents_merged {settings? : Option Value} (hfits : Fits settings?) {result : Slot}
    {c : Configuration} (h : merged settings? = (.ok result, c)) :
    c.Represents (settled settings?) := by
  cases settings? with
  | none =>
    obtain ⟨-, rfl⟩ := Prod.mk.inj h
    exact represents_initial
  | some settings =>
    obtain ⟨hkeyed, hover⟩ := hfits settings rfl
    have hmerged : initial.mergeValue settings = (.ok result, c) := h
    by_cases hrecord : ∃ fields, settings = .record fields
    · obtain ⟨fields, rfl⟩ := hrecord
      have hresult := mergeValue_of_represents hkeyed represents_initial
        (not_landsOnNull_of_fits hover)
      rw [merged?_of_fits hkeyed hover, hmerged] at hresult
      obtain ⟨after, heq, hafter⟩ := hresult
      obtain ⟨-, rfl⟩ := Prod.mk.inj heq
      exact hafter
    · have hnone := mergeValue_of_not_record (c := initial)
        fun fields heq => hrecord ⟨fields, heq⟩
      rw [hmerged] at hnone
      cases hnone

/-- The level is written as one more field of the value. -/
theorem Represents.insert_level {c : Configuration} {fields : Entries Value}
    (hc : c.Represents (.record fields)) (level : LogLevel) :
    Represents { c with store := c.store.insert c.root "log_level" (.plain (.text level.name)) }
      (.record (Entries.insert "log_level" (.text level.name) fields)) := by
  obtain ⟨share, hholds⟩ := hc
  obtain ⟨parts, hbut, -, -, -⟩ := hholds.exists_but "log_level"
  exact ⟨share ∪ ∅, hbut.insert (.plain rfl) (Finset.notMem_empty _)
    fun _ _ => Finset.disjoint_empty_right _⟩

/-- The check leaves the value as it is, but for the name of the level. -/
theorem Represents.check {c checked : Configuration} {fields : Entries Value}
    (hc : c.Represents (.record fields)) (h : c.check = (.ok (), checked)) :
    ∃ level : LogLevel,
      checked.Represents (.record (Entries.insert "log_level" (.text level.name) fields)) := by
  obtain ⟨s, level, -, -, hchecked, -⟩ := exists_level_of_check h
  exact ⟨level, hchecked ▸ hc.insert_level level⟩

/-- What an accepted configuration holds, if the settings fit the template. -/
theorem represents_accepted? {settings? : Option Value} (hfits : Fits settings?)
    {checked : Configuration} (h : accepted? settings? = some checked) :
    ∃ (fields : Entries Value) (level : LogLevel), settled settings? = .record fields ∧
      checked.Represents (.record (Entries.insert "log_level" (.text level.name) fields)) := by
  obtain ⟨result, c, hmerged, hcheck⟩ := exists_merged_of_accepted? h
  have hrepresents := represents_merged hfits hmerged
  obtain ⟨fields, hfields⟩ := hrepresents.exists_record
  rw [hfields] at hrepresents
  obtain ⟨level, hchecked⟩ := hrepresents.check hcheck
  exact ⟨fields, level, hfields, hchecked⟩

/-- What the settings say along a path, or else what the template says. -/
def saidOr (settings? : Option Value) (path : List String) (default : Value) : Value :=
  (settings?.bind fun settings => settings.at? path).getD default

/-- The section for the decoder in the template. -/
def decoderTemplate : Entries Value :=
  [("grease_as_unknown", .bool false), ("max_extensions", .null)]

/-- What the settings say about the decoder, or else what the template says. -/
def settingOr (settings? : Option Value) (key : String) (default : Value) : Value :=
  saidOr settings? ["decoder", key] default

section

variable {settings? : Option Value} {name key : String} {own : Entries Value} {default : Value}

theorem lookup_settled (hfits : Fits settings?) {fields sect : Entries Value}
    (hsettled : settled settings? = .record fields)
    (hsect : fields.lookup name = some (.record sect))
    (hown : template.at? [name] = some (.record own)) (hdefault : own.lookup key = some default)
    (hplain : ∀ below, default ≠ .record below) :
    sect.lookup key = some (saidOr settings? [name, key] default) := by
  obtain ⟨target, htemplate⟩ : ∃ target, template = .record target := ⟨_, rfl⟩
  have htarget : target.lookup name = some (.record own) := by
    rw [← at?_singleton, ← htemplate, hown]
  cases settings? with
  | none =>
    obtain rfl := Value.record.inj (htemplate.symm.trans hsettled)
    rw [htarget] at hsect
    obtain rfl := Value.record.inj (Option.some.inj hsect)
    exact hdefault
  | some settings =>
    obtain ⟨hkeyed, -⟩ := hfits settings rfl
    rw [settled, htemplate] at hsettled
    rw [lookup_of_overlay hkeyed hsettled, htarget] at hsect
    have hpath : settings.at? [name, key] =
        (settings.at? [name]).bind fun inner => inner.at? [key] := by
      cases settings with
      | record own => rw [at?_cons, at?_singleton]
      | _ => rfl
    rw [saidOr, Option.bind_some, hpath]
    cases hinner : settings.at? [name] with
    | none =>
      rw [hinner] at hsect
      obtain rfl := Value.record.inj (Option.some.inj hsect)
      exact hdefault
    | some inner =>
      rw [hinner] at hsect
      have hsect' := lookup_of_overlay (wellKeyed_of_at? hkeyed hinner) (Option.some.inj hsect) key
      rw [hsect', Option.bind_some]
      cases hsaid : inner.at? [key] with
      | none => exact hdefault
      | some said =>
        dsimp only
        rw [hdefault, overlay_on_not_record hplain, Option.getD_some]

/-- A section has a setting for each one of the template. -/
theorem exists_slot_of_section (hfits : Fits settings?) {checked : Configuration}
    (h : accepted? settings? = some checked) {id : Nat}
    (hsection : checked.table.lookup name = some (.table id)) (hname : name ≠ "log_level")
    (hown : template.at? [name] = some (.record own)) (hdefault : own.lookup key = some default)
    (hplain : ∀ below, default ≠ .record below) :
    ∃ slot share, (checked.store.table id).lookup key = some slot ∧
      Holds checked.store slot (saidOr settings? [name, key] default) share := by
  obtain ⟨fields, level, hfields, share, hchecked⟩ := represents_accepted? hfits h
  have hsome := hchecked.isSome_lookup_eq name
  rw [show (checked.store.table checked.root).lookup name = _ from hsection] at hsome
  obtain ⟨value, hvalue⟩ := Option.isSome_iff_exists.mp hsome.symm
  obtain ⟨slot, hslot, hheld⟩ := hchecked.lookup hvalue
  obtain rfl := Option.some.inj (hsection.symm.trans hslot)
  obtain ⟨sect, rfl⟩ := hheld.exists_record
  rw [Entries.lookup_insert, if_neg hname] at hvalue
  obtain ⟨found, hfound, hsetting⟩ := hheld.lookup
    (lookup_settled hfits hfields hvalue hown hdefault hplain)
  exact ⟨found, _, hfound, hsetting⟩

theorem exists_slot_of_accepted? (hfits : Fits settings?) {checked : Configuration}
    (h : accepted? settings? = some checked) {id : Nat} (hsection : checked.HasSection id)
    (hdefault : decoderTemplate.lookup key = some default)
    (hplain : ∀ below, default ≠ .record below) :
    ∃ slot share, (checked.store.table id).lookup key = some slot ∧
      Holds checked.store slot (settingOr settings? key default) share :=
  exists_slot_of_section hfits h hsection.lookup_eq (by decide) rfl hdefault hplain

end

/-- What keeps the log from being opened, if anything does. -/
def logObstacle? (host : Host) (c : Configuration) : Option FileError :=
  c.logPath?.bind host.logObstacle?

/-- The configuration has a place for the log, and nothing keeps it from being opened. -/
def opensLog (host : Host) (c : Configuration) : Bool :=
  c.logPath?.isSome && (c.logObstacle? host).isNone

end HelloExtensions.Settings.Configuration

namespace HelloExtensions

/-- Every file is opened, and integers of any length are written. -/
def Host.permissive : Host := ⟨none, fun _ => none⟩

/-- No level has been set, and the root logger has no handler. -/
def Logging.initial : Logging := ⟨.notSet, false⟩

namespace Decoder

open Settings

variable {host : Host} {settings? : Option Value} {c : Configuration} {logging : Logging}
  {decoder : Decoder}

theorem unfold_ne_plain (store : Store) (limit : Nat) (path : List Nat) (id : Nat)
    (value : Value) : Snapshot.unfold store limit path id ≠ .plain value := by
  cases limit with
  | zero => simp [Snapshot.unfold]
  | succ limit =>
    rw [Snapshot.unfold]
    split <;> simp

/-- A tracer is asked for by what stands in its section, and not by how this is seen. -/
theorem ofSettings_table (c : Configuration) (id : Nat) :
    Tracer.ofSettings (c.snapshot (.table id)) =
      match (c.store.table id).lookup "trace" with
      | none => .ok ⟨false⟩
      | some (.plain (.bool b)) => .ok ⟨b⟩
      | some _ => .error (.trace (c.snapshot (.table id))) := by
  have hseen : c.snapshot (.table id) = .table ((c.store.table id).map fun entry =>
      (entry.1, Snapshot.expand (Snapshot.unfold c.store c.store.size [id]) entry.2)) := rfl
  rw [hseen, Tracer.ofSettings, Entries.lookup_map]
  cases (c.store.table id).lookup "trace" with
  | none => rfl
  | some found =>
    rw [Option.map_some]
    cases found with
    | plain value => cases value <;> rfl
    | list id items => rfl
    | table inner =>
      rw [Snapshot.expand]
      split
      · next hnone => cases hnone
      · next b hb => exact absurd (Option.some.inj hb) (unfold_ne_plain _ _ _ _ _)
      · rfl

/-- Settings are refused before anything is done about the log. -/
theorem exists_error_of_create (host : Host) (h : Configuration.accepted? settings? = none) :
    ∃ e, ∀ obstacle? logging,
      create { host with obstacle? := obstacle? } settings? logging = (.error e, logging) := by
  unfold Configuration.accepted? at h
  unfold create
  rcases hmerged : Configuration.merged settings? with ⟨e | result, merged⟩
  · exact ⟨.merge e, fun _ _ => rfl⟩
  · rw [hmerged] at h
    dsimp only at h ⊢
    rcases hcheck : merged.check with ⟨e | _, checked⟩
    · exact ⟨.ofConfiguration host e, fun _ _ => rfl⟩
    · rw [hcheck] at h
      cases h

theorem create_of_accepted? (h : Configuration.accepted? settings? = some c) :
    create host settings? logging = ofConfiguration host c logging := by
  obtain ⟨result, merged, hmerged, hcheck⟩ := Configuration.exists_merged_of_accepted? h
  rw [create, hmerged]
  dsimp only
  rw [hcheck]

/-- What comes of a configuration that has been accepted, if the log is no obstacle. -/
def traced (host : Host) (c : Configuration) : Except CreationError Decoder :=
  ((Tracer.ofSettings (debugSettings c)).map fun tracer => ⟨c, tracer⟩).mapError
    (CreationError.ofConfiguration host)

theorem attach_of_obstacle (logging : Logging) {e : FileError}
    (h : c.logObstacle? host = some e) (hunhandled : logging.handled = false) :
    logging.attach host c.logPath? = .error e := by
  obtain ⟨path, hpath, hobstacle⟩ := Option.bind_eq_some_iff.mp h
  simp [Logging.attach, hpath, hunhandled, hobstacle]

theorem attach_of_no_obstacle (logging : Logging)
    (h : logging.handled = true ∨ c.logObstacle? host = none) :
    logging.attach host c.logPath? =
      .ok ⟨logging.level, logging.handled || c.opensLog host⟩ := by
  obtain ⟨level, handled⟩ := logging
  unfold Configuration.logObstacle? at h
  unfold Logging.attach Configuration.opensLog Configuration.logObstacle?
  cases hpath : c.logPath? with
  | none => simp
  | some path =>
    rw [hpath] at h
    cases handled with
    | true => rfl
    | false =>
      have hnone : host.logObstacle? path = none := h.resolve_left Bool.false_ne_true
      simp [hnone]

theorem ofConfiguration_of_obstacle {e : FileError} (h : c.logObstacle? host = some e)
    (hunhandled : logging.handled = false) :
    ofConfiguration host c logging = (.error (.logFile e), ⟨c.logLevel, logging.handled⟩) := by
  unfold ofConfiguration
  dsimp only
  rw [attach_of_obstacle ⟨c.logLevel, logging.handled⟩ h hunhandled]

theorem ofConfiguration_of_no_obstacle
    (h : logging.handled = true ∨ c.logObstacle? host = none) :
    ofConfiguration host c logging =
      (traced host c, ⟨c.logLevel, logging.handled || c.opensLog host⟩) := by
  unfold ofConfiguration traced
  dsimp only
  rw [attach_of_no_obstacle ⟨c.logLevel, logging.handled⟩ h]
  cases Tracer.ofSettings (debugSettings c) <;> rfl

theorem ofSettings_of_ofConfiguration (h : (ofConfiguration host c logging).1 = .ok decoder) :
    decoder.configuration = c ∧ Tracer.ofSettings (debugSettings c) = .ok decoder.tracer := by
  unfold ofConfiguration at h
  dsimp only at h
  split at h
  · cases h
  · split at h
    · cases h
    · next hsettings =>
      obtain rfl := Except.ok.inj h
      exact ⟨rfl, hsettings⟩

/-- A decoder follows the configuration that has been accepted. -/
theorem accepted?_of_create (h : (create host settings? logging).1 = .ok decoder) :
    Configuration.accepted? settings? = some decoder.configuration ∧
      Tracer.ofSettings (debugSettings decoder.configuration) = .ok decoder.tracer := by
  cases haccepted : Configuration.accepted? settings? with
  | none =>
    obtain ⟨e, he⟩ := exists_error_of_create host haccepted
    rw [show create host settings? logging = _ from he host.obstacle? logging] at h
    cases h
  | some c =>
    rw [create_of_accepted? haccepted] at h
    obtain ⟨rfl, htracer⟩ := ofSettings_of_ofConfiguration h
    exact ⟨rfl, htracer⟩

end Decoder
end HelloExtensions
