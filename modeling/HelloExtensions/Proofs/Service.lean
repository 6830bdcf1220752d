import HelloExtensions.Proofs.Usability

/-!
Decoders made of no settings, or of settings that fit the template, decode as it is done without a
decoder. Only a list that is longer than the limit becomes an error, and this is reported as too
many extensions; an error in the bytes comes first. Without a limit, to decode a region and to
decode its extensions one after the other is the same. Of all settings the limit alone matters to
these results.
-/
namespace HelloExtensions

namespace Decoder

open Settings

/-- The extensions that are decoded one after the other until no bytes remain. -/
def decodeInTurn (decoder : Decoder) (bytes : List UInt8) :
    Except ExtensionError (List Extension) :=
  if bytes = [] then .ok []
  else match _ : (decoder.decodeOne bytes).result with
    | .error e => .error e
    | .ok (ext, rest) => (decodeInTurn decoder rest).map (ext :: ·)
termination_by bytes.length
decreasing_by
  have hresult : (decoder.decodeOne bytes).result = .ok (ext, rest) := ‹_›
  rw [decodeOne_result] at hresult
  have hlength := Extension.length_of_decode hresult
  rw [Extension.headerSize] at hlength
  omega

section

variable (decoder : Decoder)

theorem decodeInTurn_nil : decoder.decodeInTurn [] = .ok [] := by
  rw [decodeInTurn, if_pos rfl]

theorem decodeInTurn_of_error {bytes : List UInt8} (hne : bytes ≠ []) {e : ExtensionError}
    (h : Extension.decode bytes = .error e) : decoder.decodeInTurn bytes = .error e := by
  rw [decodeInTurn, if_neg hne]
  split
  · next found hfound =>
    rw [decodeOne_result, h] at hfound
    rw [Except.error.inj hfound]
  · next ext rest hfound =>
    rw [decodeOne_result, h] at hfound
    cases hfound

theorem decodeInTurn_of_ok {bytes rest : List UInt8} (hne : bytes ≠ []) {ext : Extension}
    (h : Extension.decode bytes = .ok (ext, rest)) :
    decoder.decodeInTurn bytes = (decoder.decodeInTurn rest).map (ext :: ·) := by
  rw [decodeInTurn, if_neg hne]
  split
  · next found hfound =>
    rw [decodeOne_result, h] at hfound
    cases hfound
  · next other left hfound =>
    rw [decodeOne_result, h] at hfound
    obtain ⟨rfl, rfl⟩ := Prod.mk.inj (Except.ok.inj hfound)
    rfl

/-- Decoding extensions one after the other is decoding the region. -/
theorem decodeInTurn_eq (bytes : List UInt8) :
    decoder.decodeInTurn bytes = Extension.decodeAll bytes := by
  induction hlength : bytes.length using Nat.strongRecOn generalizing bytes with
  | ind n ih =>
    by_cases hnil : bytes = []
    · rw [hnil, decodeInTurn_nil, Extension.decodeAll_nil]
    · cases hfirst : Extension.decode bytes with
      | error e => rw [decodeInTurn_of_error decoder hnil hfirst,
          Extension.decodeAll_of_error hnil hfirst]
      | ok result =>
        obtain ⟨ext, rest⟩ := result
        have hshorter := Extension.length_of_decode hfirst
        rw [Extension.headerSize] at hshorter
        rw [decodeInTurn_of_ok decoder hnil hfirst, Extension.decodeAll_of_ok hfirst,
          ih rest.length (by omega) rest rfl]

end

/-- The decoder decodes as it is done without one, except that it refuses longer lists than the
limit allows. -/
structure Refines (decoder : Decoder) (limit? : Option Nat) : Prop where
  error : ∀ bytes e, Extension.decodeAll bytes = .error e →
    (decoder.decode bytes).result = .error e
  within : ∀ bytes exts, Extension.decodeAll bytes = .ok exts →
    (∀ limit ∈ limit?, exts.length ≤ limit) → (decoder.decode bytes).result = .ok exts
  beyond : ∀ bytes exts limit, Extension.decodeAll bytes = .ok exts → limit? = some limit →
    limit < exts.length → ∃ e report, (decoder.decode bytes).result = .error e ∧
      e.report? = some report ∧ report.kind = .verification ∧
      report.status = .text "too_many_extensions"
  first : ∀ bytes, (decoder.decodeOne bytes).result = Extension.decode bytes
  inTurn : limit? = none → ∀ bytes, decoder.decodeInTurn bytes = (decoder.decode bytes).result

theorem refines_of_limit {decoder : Decoder} {limit? : Option Nat}
    (hlimit : decoder.limit? = .ok (limit?.map fun n : Nat => (n : Int))) :
    decoder.Refines limit? where
  error := fun bytes e h => decode_of_error h
  within := by
    intro bytes exts h hwithin
    rw [decode_of_limit h hlimit]
    cases limit? with
    | none => rfl
    | some limit =>
      have hle := hwithin limit rfl
      rw [Option.filter_some, if_neg (by simpa using hle)]
  beyond := by
    intro bytes exts limit h hsome hlt
    subst hsome
    rw [decode_of_limit h hlimit, Option.filter_some, if_pos (by simpa using hlt)]
    exact ⟨_, _, rfl, rfl, rfl, rfl⟩
  first := decodeOne_result
  inTurn := by
    intro hnone bytes
    subst hnone
    rw [decodeInTurn_eq]
    cases h : Extension.decodeAll bytes with
    | error e => rw [decode_of_error h]
    | ok exts =>
      rw [decode_of_limit h hlimit]
      rfl

/-- The limit of a decoder whose settings fit the template is the one that they say, if any. -/
theorem exists_limit_of_create {host : Host} {settings? : Option Value} {logging : Logging}
    {decoder : Decoder} (h : (create host settings? logging).1 = .ok decoder)
    (hfits : Configuration.Fits settings?) :
    ∃ limit? : Option Nat,
      Configuration.settingOr settings? "max_extensions" .null =
        (limit?.map fun n : Nat => .int n).getD .null ∧
      decoder.limit? = .ok (limit?.map fun n : Nat => (n : Int)) := by
  obtain ⟨haccepted, -⟩ := accepted?_of_create h
  have hdefault : Configuration.decoderTemplate.lookup "max_extensions" = some .null := rfl
  obtain ⟨id, hsection⟩ := (Configuration.checked_of_accepted? haccepted).exists_section
  obtain ⟨slot, share, hslot, hheld⟩ :=
    Configuration.exists_slot_of_accepted? hfits haccepted hsection hdefault (by simp)
  rcases limit?_cases hsection with ⟨hnone, -⟩ | ⟨limit?, hlimit, hsome⟩
  · rw [settings, hslot] at hnone
    cases hnone
  · rw [settings, hslot] at hsome
    rw [Option.some.inj hsome] at hheld
    exact ⟨limit?, hheld.eq_of_plain, hlimit⟩

/-- With settings that fit the template, or none, a decoder refines decoding without one up to the
limit that they say. Two such decoders for which the same limit is said give the same results. -/
theorem refines_of_create {host : Host} {settings? : Option Value} {logging : Logging}
    {decoder : Decoder} (h : (create host settings? logging).1 = .ok decoder)
    (hfits : Configuration.Fits settings?) :
    (∃ limit? : Option Nat,
      Configuration.settingOr settings? "max_extensions" .null =
        (limit?.map fun n : Nat => .int n).getD .null ∧
      decoder.Refines limit?) ∧
    ∀ elsewhere others? noting other, (create elsewhere others? noting).1 = .ok other →
      Configuration.Fits others? →
      Configuration.settingOr others? "max_extensions" .null =
        Configuration.settingOr settings? "max_extensions" .null →
      ∀ bytes, (other.decode bytes).result = (decoder.decode bytes).result ∧
        (other.decodeOne bytes).result = (decoder.decodeOne bytes).result ∧
        other.decodeInTurn bytes = decoder.decodeInTurn bytes := by
  obtain ⟨limit?, hsaid, hlimit⟩ := exists_limit_of_create h hfits
  refine ⟨⟨limit?, hsaid, refines_of_limit hlimit⟩, ?_⟩
  intro elsewhere others? noting other hother hfits' hsame bytes
  obtain ⟨limit?', hsaid', hlimit'⟩ := exists_limit_of_create hother hfits'
  have heq : limit?' = limit? := by
    rw [hsaid, hsaid'] at hsame
    cases limit? with
    | none =>
      cases limit?' with
      | none => rfl
      | some n => cases hsame
    | some m =>
      cases limit?' with
      | none => cases hsame
      | some n => rw [Int.ofNat.inj (Value.int.inj hsame)]
  subst heq
  refine ⟨?_, by rw [decodeOne_result, decodeOne_result], by rw [decodeInTurn_eq, decodeInTurn_eq]⟩
  cases hall : Extension.decodeAll bytes with
  | error e => rw [decode_of_error hall, decode_of_error hall]
  | ok exts => rw [decode_of_limit hall hlimit, decode_of_limit hall hlimit']

/-- With a limit of one, a region of two extensions is refused, and tracing changes nothing. -/
theorem refines_of_create_limited :
    ∃ decoder other e report,
      (create .permissive (some (.record [("decoder", .record [("max_extensions", .int 1)])]))
        .initial).1 = .ok decoder ∧
      (decoder.decode [0, 23, 0, 0, 0, 22, 0, 0]).result = .error e ∧
      e.report? = some report ∧ report.status = .text "too_many_extensions" ∧
      (create .permissive (some (.record [("debug", .record [("trace", .bool true)]),
        ("decoder", .record [("max_extensions", .int 1)])])) ⟨.debug, true⟩).1 = .ok other ∧
      (other.decode [0, 23, 0, 0, 0, 22, 0, 0]).result = .error e := by
  have hfits : Configuration.Fits
      (some (.record [("decoder", .record [("max_extensions", .int 1)])])) := by
    intro settings hsettings
    obtain rfl := Option.some.inj hsettings
    exact ⟨by decide, by decide⟩
  have hfits' : Configuration.Fits (some (.record [("debug", .record [("trace", .bool true)]),
      ("decoder", .record [("max_extensions", .int 1)])])) := by
    intro settings hsettings
    obtain rfl := Option.some.inj hsettings
    exact ⟨by decide, by decide⟩
  obtain ⟨⟨limit?, hsaid, hrefines⟩, hothers⟩ :=
    @refines_of_create .permissive _ .initial _ rfl hfits
  have hlimit : limit? = some 1 := by
    cases limit? with
    | none => cases hsaid
    | some n => rw [← Int.ofNat.inj (Value.int.inj hsaid)]
  obtain ⟨e, report, herror, hreport, -, hstatus⟩ :=
    hrefines.beyond [0, 23, 0, 0, 0, 22, 0, 0] _ 1 rfl hlimit (by decide)
  obtain ⟨hsame, -, -⟩ :=
    hothers .permissive _ ⟨.debug, true⟩ _ rfl hfits' rfl [0, 23, 0, 0, 0, 22, 0, 0]
  exact ⟨_, _, e, report, rfl, herror, hreport, hstatus, rfl, hsame.trans herror⟩

end Decoder
end HelloExtensions
