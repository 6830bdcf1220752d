import HelloExtensions.Proofs.Projection
import HelloExtensions.Proofs.Settings.Accepted

/-!
What a decoder that has been made can be asked for. Decoding one extension always ends in an
extension or in an error about the bytes. Decoding a region also looks up the limit in the section
for the decoder, and a summary looks up how GREASE is counted; the check of the configuration does
not ask whether these settings are there. They are if the settings of the user fit the template. A
null that takes the place of the section lets the whole configuration become the section, and then
they need not be there.
-/
namespace HelloExtensions

namespace ExtensionError

/-- The error tells that bytes are missing, or that the bytes are not accepted. -/
def IsAboutBytes (e : ExtensionError) : Prop :=
  ∃ report, e.report? = some report ∧ (report.kind = .incomplete ∨ report.kind = .verification)

theorem isAboutBytes_incomplete (needed : Nat) : IsAboutBytes (.incomplete needed) :=
  ⟨_, rfl, .inl rfl⟩

theorem isAboutBytes_tooMany (count : Nat) (limit : Int) : IsAboutBytes (.tooMany count limit) :=
  ⟨_, rfl, .inr rfl⟩

theorem IsVerification.isAboutBytes {e : ExtensionError} (h : e.IsVerification) :
    e.IsAboutBytes := by
  obtain ⟨message, hreport⟩ := h
  exact ⟨_, hreport, .inr rfl⟩

theorem not_isAboutBytes_shape (reason : ShapeError) : ¬ IsAboutBytes (shape reason) := by
  rintro ⟨report, hreport, -⟩
  cases hreport

end ExtensionError

namespace Extension

/-- An extension is not decoded because bytes are missing or because they are malformed. -/
theorem incomplete_or_isVerification_of_decode {bytes : List UInt8} {e : ExtensionError}
    (h : decode bytes = .error e) : (∃ needed, e = .incomplete needed) ∨ e.IsVerification := by
  rcases unfinished_or_envelope bytes with hunfinished | ⟨envelope, rest, rfl⟩
  · rw [decode_of_unfinished hunfinished] at h
    obtain rfl := Except.error.inj h
    exact .inl ⟨_, rfl⟩
  · rw [envelope.decode_append] at h
    cases hextension : envelope.extension with
    | error found =>
      rw [hextension] at h
      obtain rfl := Except.error.inj h
      exact .inr (Envelope.isVerification_of_extension_eq_error hextension)
    | ok ext =>
      rw [hextension] at h
      cases h

theorem isAboutBytes_of_decode {bytes : List UInt8} {e : ExtensionError}
    (h : decode bytes = .error e) : e.IsAboutBytes := by
  rcases incomplete_or_isVerification_of_decode h with ⟨needed, rfl⟩ | hverification
  · exact ExtensionError.isAboutBytes_incomplete needed
  · exact hverification.isAboutBytes

/-- A region is either decoded, extension by extension, or ends in the error of one of them. -/
theorem decodeAll_cases (bytes : List UInt8) :
    (∃ exts, decodeAll bytes = .ok exts ∧
      ∀ ext ∈ exts, ∃ data rest, decode data = .ok (ext, rest)) ∨
    ∃ data e, decodeAll bytes = .error e ∧ decode data = .error e := by
  induction hlength : bytes.length using Nat.strongRecOn generalizing bytes with
  | ind n ih =>
    by_cases hnil : bytes = []
    · subst hnil
      exact .inl ⟨[], decodeAll_nil, fun ext hmem => absurd hmem List.not_mem_nil⟩
    · cases hfirst : decode bytes with
      | error e => exact .inr ⟨bytes, e, decodeAll_of_error hnil hfirst, hfirst⟩
      | ok result =>
        obtain ⟨ext, rest⟩ := result
        have hshorter := length_of_decode hfirst
        rw [headerSize] at hshorter
        rw [decodeAll_of_ok hfirst]
        rcases ih rest.length (by omega) rest rfl with ⟨exts, hrest, hexts⟩ | ⟨data, e, hrest, he⟩
        · refine .inl ⟨ext :: exts, by rw [hrest]; rfl, fun other hother => ?_⟩
          rcases List.mem_cons.mp hother with rfl | hmem
          · exact ⟨bytes, rest, hfirst⟩
          · exact hexts other hmem
        · exact .inr ⟨data, e, by rw [hrest]; rfl, he⟩

theorem isAboutBytes_of_decodeAll {bytes : List UInt8} {e : ExtensionError}
    (h : decodeAll bytes = .error e) : e.IsAboutBytes := by
  rcases decodeAll_cases bytes with ⟨exts, hok, -⟩ | ⟨data, found, herror, hfound⟩
  · rw [hok] at h
    cases h
  · rw [herror] at h
    obtain rfl := Except.error.inj h
    exact isAboutBytes_of_decode hfound

theorem exists_labelOf_of_decode {bytes rest : List UInt8} {ext : Extension}
    (h : decode bytes = .ok (ext, rest)) : ∃ label, Decoder.labelOf ext = some label := by
  obtain ⟨envelope, rfl, hdecoded⟩ := exists_envelope_of_decode h
  obtain ⟨left, hcontent⟩ := (decodeContent_eq_ok_iff _ _ _).mp hdecoded
  obtain ⟨label, -, hlabelled⟩ := Schema.exists_label_of_decode _ (isLabelled_layout _ _) hcontent
  refine ⟨label, ?_⟩
  rw [Decoder.labelOf, hlabelled.label_eq]
  rfl

end Extension

namespace Decoder

open Settings

section

variable {decoder : Decoder} {id : Nat}

/-- The settings that the section for the decoder has. -/
def settings (decoder : Decoder) (id : Nat) : Table := decoder.configuration.store.table id

/-- The limit is a number or null. Without a setting for it there is none to ask. -/
theorem limit?_cases (h : decoder.configuration.HasSection id) :
    ((decoder.settings id).lookup "max_extensions" = none ∧
      decoder.limit? = .error (.noEntry (.text "max_extensions"))) ∨
    ∃ limit? : Option Nat, decoder.limit? = .ok (limit?.map fun n : Nat => (n : Int)) ∧
      (decoder.settings id).lookup "max_extensions" =
        some (.plain ((limit?.map fun n : Nat => .int n).getD .null)) := by
  have hsetting := h.decoderSetting_eq "max_extensions"
  unfold limit? settings
  cases hlookup : (decoder.configuration.store.table id).lookup "max_extensions" with
  | none =>
    rw [hlookup] at hsetting
    exact .inl ⟨rfl, by rw [hsetting]; rfl⟩
  | some slot =>
    rw [hlookup] at hsetting
    rw [hsetting]
    have hlimit := h.limit slot hlookup
    unfold Configuration.isLimit at hlimit
    split at hlimit
    · exact .inr ⟨none, rfl, rfl⟩
    · next n =>
      obtain ⟨m, rfl⟩ := Int.eq_ofNat_of_zero_le (of_decide_eq_true hlimit)
      exact .inr ⟨some m, rfl, rfl⟩
    · cases hlimit

theorem decode_of_error {bytes : List UInt8} {e : ExtensionError}
    (h : Extension.decodeAll bytes = .error e) : (decoder.decode bytes).result = .error e := by
  simp only [decode, h]

theorem decode_of_no_limit {bytes : List UInt8} {exts : List Extension}
    (h : Extension.decodeAll bytes = .ok exts) {reason : ShapeError}
    (hlimit : decoder.limit? = .error reason) :
    (decoder.decode bytes).result = .error (.shape reason) := by
  simp only [decode, h, hlimit]

/-- A limit only turns lists that are longer into an error. -/
theorem decode_of_limit {bytes : List UInt8} {exts : List Extension}
    (h : Extension.decodeAll bytes = .ok exts) {limit? : Option Nat}
    (hlimit : decoder.limit? = .ok (limit?.map fun n : Nat => (n : Int))) :
    (decoder.decode bytes).result = match limit?.filter fun n => n < exts.length with
      | some n => .error (.tooMany exts.length n)
      | none => .ok exts := by
  simp only [decode, h, hlimit]
  cases limit? with
  | none => rfl
  | some n =>
    rw [Option.map_some]
    by_cases hlt : n < exts.length
    · have hint : ((n : Int) < (exts.length : Int)) := Int.ofNat_lt.mpr hlt
      rw [Option.filter_some, Option.filter_some, if_pos (by simpa using hint),
        if_pos (by simpa using hlt)]
    · have hint : ¬ ((n : Int) < (exts.length : Int)) := fun hlt' => hlt (Int.ofNat_lt.mp hlt')
      rw [Option.filter_some, Option.filter_some, if_neg (by simpa using hint),
        if_neg (by simpa using hlt)]

theorem decodeOne_result (bytes : List UInt8) :
    (decoder.decodeOne bytes).result = Extension.decode bytes := by
  unfold decodeOne
  cases hfirst : Extension.decode bytes with
  | error e => rfl
  | ok result => rfl

theorem summary_cases (h : decoder.configuration.HasSection id) (exts : List Extension) :
    ((decoder.settings id).lookup "grease_as_unknown" = none →
      decoder.summary exts = .error (.noEntry (.text "grease_as_unknown"))) ∧
    ((decoder.settings id).lookup "grease_as_unknown" ≠ none →
      ∃ summary, decoder.summary exts = .ok summary) := by
  have hsetting := h.decoderSetting_eq "grease_as_unknown"
  unfold summary settings
  cases hlookup : (decoder.configuration.store.table id).lookup "grease_as_unknown" with
  | none =>
    rw [hlookup] at hsetting
    rw [hsetting]
    exact ⟨fun _ => rfl, fun hsome => absurd rfl hsome⟩
  | some slot =>
    rw [hlookup] at hsetting
    rw [hsetting]
    exact ⟨fun hnone => absurd hnone (Option.some_ne_none slot), fun _ => ⟨_, rfl⟩⟩

end

/-- What comes of the questions to a decoder, of which the settings are in this table. -/
structure Answers (decoder : Decoder) (settings : Table) : Prop where
  first : ∀ bytes e, (decoder.decodeOne bytes).result = .error e → e.IsAboutBytes
  region : (∀ bytes e, (decoder.decode bytes).result = .error e → e.IsAboutBytes) ↔
    settings.lookup "max_extensions" ≠ none
  region_without_limit : settings.lookup "max_extensions" = none → ∀ bytes exts,
    Extension.decodeAll bytes = .ok exts →
      (decoder.decode bytes).result = .error (.shape (.noEntry (.text "max_extensions")))
  summary : (∀ bytes exts, Extension.decodeAll bytes = .ok exts →
      ∃ summary, decoder.summary exts = .ok summary) ↔
    settings.lookup "grease_as_unknown" ≠ none
  summary_without_flag : settings.lookup "grease_as_unknown" = none → ∀ exts,
    decoder.summary exts = .error (.noEntry (.text "grease_as_unknown"))
  labelled : ∀ bytes exts, Extension.decodeAll bytes = .ok exts →
    ∀ ext ∈ exts, ∃ label, labelOf ext = some label

theorem answers_of_section {decoder : Decoder} {id : Nat}
    (h : decoder.configuration.HasSection id) : decoder.Answers (decoder.settings id) where
  first := by
    intro bytes e he
    rw [decodeOne_result] at he
    exact Extension.isAboutBytes_of_decode he
  region := by
    constructor
    · intro hreported hnone
      rcases limit?_cases h with ⟨-, hlimit⟩ | ⟨limit?, -, hsome⟩
      · have hempty := decode_of_no_limit Extension.decodeAll_nil hlimit
        exact ExtensionError.not_isAboutBytes_shape _ (hreported [] _ hempty)
      · rw [hsome] at hnone
        cases hnone
    · intro hsome bytes e he
      rcases limit?_cases h with ⟨hnone, -⟩ | ⟨limit?, hlimit, -⟩
      · exact absurd hnone hsome
      · cases hall : Extension.decodeAll bytes with
        | error found =>
          rw [decode_of_error hall] at he
          obtain rfl := Except.error.inj he
          exact Extension.isAboutBytes_of_decodeAll hall
        | ok exts =>
          rw [decode_of_limit hall hlimit] at he
          split at he
          · obtain rfl := Except.error.inj he
            exact ExtensionError.isAboutBytes_tooMany _ _
          · cases he
  region_without_limit := by
    intro hnone bytes exts hall
    rcases limit?_cases h with ⟨-, hlimit⟩ | ⟨limit?, -, hsome⟩
    · exact decode_of_no_limit hall hlimit
    · rw [hsome] at hnone
      cases hnone
  summary := by
    constructor
    · intro hreturns hnone
      obtain ⟨summary, hok⟩ := hreturns [] [] Extension.decodeAll_nil
      rw [(summary_cases h []).1 hnone] at hok
      cases hok
    · intro hsome bytes exts _
      exact (summary_cases h exts).2 hsome
  summary_without_flag := fun hnone exts => (summary_cases h exts).1 hnone
  labelled := by
    intro bytes exts hall ext hmem
    rcases Extension.decodeAll_cases bytes with ⟨found, hfound, hdecoded⟩ | ⟨-, e, herror, -⟩
    · obtain rfl := Except.ok.inj (hall.symm.trans hfound)
      obtain ⟨data, rest, hdecode⟩ := hdecoded ext hmem
      exact Extension.exists_labelOf_of_decode hdecode
    · rw [herror] at hall
      cases hall

/-- A decoder that has been made answers as its section has the settings. Both of them are there if
the settings of the user fit the template. -/
theorem answers_of_create {host : Host} {settings? : Option Value} {logging : Logging}
    {decoder : Decoder} (h : (create host settings? logging).1 = .ok decoder) :
    ∃ id, decoder.configuration.HasSection id ∧ decoder.Answers (decoder.settings id) ∧
      (Configuration.Fits settings? →
        (decoder.settings id).lookup "max_extensions" ≠ none ∧
          (decoder.settings id).lookup "grease_as_unknown" ≠ none) := by
  obtain ⟨haccepted, -⟩ := accepted?_of_create h
  obtain ⟨id, hsection⟩ := (Configuration.checked_of_accepted? haccepted).exists_section
  have hthere : Configuration.Fits settings? → ∀ key default,
      Configuration.decoderTemplate.lookup key = some default →
      (∀ below, default ≠ .record below) → (decoder.settings id).lookup key ≠ none := by
    intro hfits key default hdefault hplain
    obtain ⟨slot, share, hslot, -⟩ :=
      Configuration.exists_slot_of_accepted? hfits haccepted hsection hdefault hplain
    rw [settings, hslot]
    exact Option.some_ne_none slot
  refine ⟨id, hsection, answers_of_section hsection, fun hfits => ⟨?_, ?_⟩⟩
  · exact hthere hfits "max_extensions" .null rfl (by simp)
  · exact hthere hfits "grease_as_unknown" (.bool false) rfl (by simp)

/-- With these settings the whole configuration becomes the section for the decoder. -/
def rootAsSection : Value :=
  .record [("decoder", .null), ("log", .record [("decoder", .record []), ("z", .null)]),
    ("z", .record [("log", .null)])]

/-- A decoder is made of them that can neither decode an empty region nor summarise an empty list.
A decoder that is made of settings that fit the template can do both. -/
theorem answers_of_create_at_root :
    (∃ decoder, (create .permissive (some rootAsSection) .initial).1 = .ok decoder ∧
      (decoder.decode []).result = .error (.shape (.noEntry (.text "max_extensions"))) ∧
      decoder.summary [] = .error (.noEntry (.text "grease_as_unknown"))) ∧
    ∃ decoder,
      (create .permissive (some (.record [("decoder", .record [("max_extensions", .int 1)])]))
        .initial).1 = .ok decoder ∧
      (∀ bytes e, (decoder.decode bytes).result = .error e → e.IsAboutBytes) ∧
      ∃ summary, decoder.summary [] = .ok summary := by
  constructor
  · obtain ⟨id, hsection, hanswers, -⟩ :=
      @answers_of_create .permissive (some rootAsSection) .initial _ rfl
    have hid : some (Slot.table 2) = some (.table id) := hsection.lookup_eq
    obtain rfl := Slot.table.inj (Option.some.inj hid)
    exact ⟨_, rfl, hanswers.region_without_limit rfl [] [] rfl,
      hanswers.summary_without_flag rfl []⟩
  · obtain ⟨id, -, hanswers, hfits⟩ := @answers_of_create .permissive
      (some (.record [("decoder", .record [("max_extensions", .int 1)])])) .initial _ rfl
    have hthere := hfits fun settings hsettings => by
      obtain rfl := Option.some.inj hsettings
      exact ⟨by decide, by decide⟩
    exact ⟨_, rfl, hanswers.region.mpr hthere.1, hanswers.summary.mpr hthere.2 [] [] rfl⟩

end Decoder
end HelloExtensions
