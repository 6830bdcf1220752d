import HelloExtensions.Proofs.Transcripts
import HelloExtensions.Proofs.Variants

/-!
Summaries of regions. A summary lists and counts the extensions that have been decoded, but it can
be told from the headers of the region alone: it has the numbers on the wire, and it counts GREASE
numbers and numbers without a listed layout. So the bodies have no bearing on it, it is the same
number of extensions that is counted whichever way GREASE is, and the summary of one region behind
another is that of the two together.
-/
namespace HelloExtensions

open RegionGrammar

namespace Extension

/-- The numbers of types that the headers name, one header after the other. -/
def wireNumbers (bytes : List UInt8) : List Nat :=
  if Unfinished bytes then []
  else wireNumber bytes :: wireNumbers (bytes.drop (headerSize + declaredLength bytes))
termination_by bytes.length
decreasing_by
  have hfinished : ¬ Unfinished bytes := ‹_›
  unfold Unfinished headerSize at hfinished
  rw [List.length_drop, headerSize]
  omega

theorem wireNumbers_nil : wireNumbers [] = [] := by
  rw [wireNumbers, if_pos (.inl (by decide))]

theorem wireNumbers_append (envelope : Envelope) (rest : List UInt8) :
    wireNumbers (envelope.bytes ++ rest) = envelope.number :: wireNumbers rest := by
  have hdrop : (envelope.bytes ++ rest).drop (headerSize + envelope.body.length) = rest :=
    List.drop_left' envelope.length_bytes
  rw [wireNumbers, if_neg (envelope.not_unfinished_append rest), envelope.wireNumber_append,
    envelope.declaredLength_append, hdrop]

theorem wireNumbers_region (envelopes : List Envelope) (tail : List UInt8) :
    wireNumbers (region envelopes tail) =
      envelopes.map Envelope.number ++ wireNumbers tail := by
  induction envelopes with
  | nil => rfl
  | cons envelope envelopes ih =>
    rw [region_cons, wireNumbers_append, ih, List.map_cons, List.cons_append]

/-- A region that is decoded ends where an envelope ends, so the walk goes on right behind it. -/
theorem append_of_decodeAll {data : List UInt8} {exts : List Extension}
    (h : decodeAll data = .ok exts) (rest : List UInt8) :
    decodeAll (data ++ rest) = (decodeAll rest).map (exts ++ ·) ∧
      wireNumbers (data ++ rest) = wireNumbers data ++ wireNumbers rest := by
  obtain ⟨envelopes, rfl, hexts⟩ := exists_envelopes_of_decodeAll h
  have hregion : region envelopes [] ++ rest = region envelopes rest := by
    rw [region, region, List.append_nil]
  rw [hregion, decodeAll_region_of_decodesTo hexts, wireNumbers_region, wireNumbers_region,
    wireNumbers_nil, List.append_nil]
  exact ⟨rfl, rfl⟩

end Extension

namespace Decoder

open Extension Settings

namespace Summary

/-- A number whose two bytes end in the hexadecimal digit a. -/
def isMasked (number : Nat) : Bool := number &&& 0x0f0f == 0x0a0a

/-- A number that is no GREASE one and has no layout of its own. -/
def isUnlisted (number : Nat) : Bool := !isMasked number && (Content.listed? number).isNone

/-- The summary of types of these numbers. -/
def ofNumbers (asUnknown : Bool) (numbers : List Nat) : Summary where
  types := numbers.map fun number : Nat => (number : Int)
  grease := if asUnknown then 0 else numbers.countP isMasked
  unknown := numbers.countP isUnlisted + if asUnknown then numbers.countP isMasked else 0

/-- The summary of what two summaries are about. -/
def append (a b : Summary) : Summary :=
  ⟨a.types ++ b.types, a.grease + b.grease, a.unknown + b.unknown⟩

theorem ofNumbers_append (asUnknown : Bool) (a b : List Nat) :
    ofNumbers asUnknown (a ++ b) = (ofNumbers asUnknown a).append (ofNumbers asUnknown b) := by
  cases asUnknown with
  | false => simp [ofNumbers, append]
  | true =>
    simp [ofNumbers, append]
    omega

theorem total_ofNumbers (asUnknown : Bool) (numbers : List Nat) :
    (ofNumbers asUnknown numbers).grease + (ofNumbers asUnknown numbers).unknown =
      numbers.countP isMasked + numbers.countP isUnlisted := by
  simp only [ofNumbers]
  cases asUnknown with
  | false => rfl
  | true =>
    simp only [if_true]
    omega

end Summary

/-- The decoder has been told whether GREASE extensions count as unknown ones. -/
def CountsGrease (decoder : Decoder) (asUnknown : Bool) : Prop :=
  decoder.configuration.decoderSetting "grease_as_unknown" = .ok (.plain (.bool asUnknown))

theorem number_of_decodesTo {envelope : Envelope} {ext : Extension}
    (h : DecodesTo envelope ext) : ext.type.number = envelope.number := by
  rw [(Envelope.type_and_length_of_decodesTo h).1]
  rfl

/-- The label of what is decoded is the one that the number and the length select. -/
theorem exists_selects_of_decodesTo {envelope : Envelope} {ext : Extension}
    (h : DecodesTo envelope ext) :
    ∃ label, labelOf ext = some label ∧ envelope.Selects label := by
  obtain ⟨label, hlabel, hselects⟩ :=
    Envelope.exists_selects_of_gives ((envelope.gives_iff _).mpr (decodeContent_of_decodesTo h))
  refine ⟨label, ?_, hselects⟩
  rw [labelOf, hlabel]
  rfl

theorem labelOf_beq_grease {envelope : Envelope} {ext : Extension} (h : DecodesTo envelope ext) :
    (labelOf ext == some "Grease") = Summary.isMasked envelope.number := by
  obtain ⟨label, hlabel, hselects⟩ := exists_selects_of_decodesTo h
  rw [Bool.eq_iff_iff, beq_iff_eq, hlabel, Option.some.injEq, hselects.grease_iff,
    Summary.isMasked, beq_iff_eq]

theorem labelOf_beq_unknown {envelope : Envelope} {ext : Extension} (h : DecodesTo envelope ext) :
    (labelOf ext == some "Unknown") = Summary.isUnlisted envelope.number := by
  obtain ⟨label, hlabel, hselects⟩ := exists_selects_of_decodesTo h
  rw [Bool.eq_iff_iff, beq_iff_eq, hlabel, Option.some.injEq, hselects.unknown_iff,
    Summary.isUnlisted, Summary.isMasked]
  simp

section

variable {envelopes : List Envelope} {exts : List Extension}

theorem map_number (h : List.Forall₂ DecodesTo envelopes exts) :
    (exts.map fun ext => ext.type.number) =
      (envelopes.map Envelope.number).map fun number : Nat => (number : Int) := by
  induction h with
  | nil => rfl
  | cons hfirst _ ih =>
    rw [List.map_cons, List.map_cons, List.map_cons, ih, number_of_decodesTo hfirst]

/-- Where a label is told from the number on the wire, counting labels is counting numbers. -/
theorem countP_label {label : String} {p : Nat → Bool}
    (hlabel : ∀ envelope ext, DecodesTo envelope ext →
      (labelOf ext == some label) = p envelope.number)
    (h : List.Forall₂ DecodesTo envelopes exts) :
    (exts.countP fun ext => labelOf ext == some label) =
      (envelopes.map Envelope.number).countP p := by
  induction h with
  | nil => rfl
  | cons hfirst _ ih =>
    rw [List.map_cons, List.countP_cons, List.countP_cons, ih, hlabel _ _ hfirst]

end

theorem summary_of_decodeAll {decoder : Decoder} {asUnknown : Bool}
    (hflag : decoder.CountsGrease asUnknown) {data : List UInt8} {exts : List Extension}
    (h : decodeAll data = .ok exts) :
    decoder.summary exts = .ok (.ofNumbers asUnknown (wireNumbers data)) := by
  obtain ⟨envelopes, rfl, hexts⟩ := exists_envelopes_of_decodeAll h
  have hgrease := countP_label (fun _ _ => labelOf_beq_grease) hexts
  have hunknown := countP_label (fun _ _ => labelOf_beq_unknown) hexts
  rw [CountsGrease] at hflag
  rw [wireNumbers_region, wireNumbers_nil, List.append_nil]
  simp only [summary, hflag, bind, Except.bind, map_number hexts, hgrease, hunknown]
  cases asUnknown with
  | false => rfl
  | true =>
    show Except.ok (Summary.mk _ 0 (_ + _)) = _
    rw [Nat.add_comm]
    rfl

/-- Summaries that are told from the headers of the region that has been decoded. -/
structure Tallies (decoder : Decoder) (asUnknown : Bool) : Prop where
  headers : ∀ data exts, decodeAll data = .ok exts →
    decoder.summary exts = .ok (.ofNumbers asUnknown (wireNumbers data))
  bodies : ∀ data exts other others, decodeAll data = .ok exts → decodeAll other = .ok others →
    wireNumbers data = wireNumbers other → decoder.summary exts = decoder.summary others
  total : ∀ (another : Decoder) asUnknown', another.CountsGrease asUnknown' → ∀ data exts,
    decodeAll data = .ok exts → ∃ a b, decoder.summary exts = .ok a ∧
      another.summary exts = .ok b ∧ a.types = b.types ∧
      a.grease + a.unknown = b.grease + b.unknown
  joined : ∀ data exts other others, decodeAll data = .ok exts → decodeAll other = .ok others →
    decodeAll (data ++ other) = .ok (exts ++ others) ∧
    ∃ a b, decoder.summary exts = .ok a ∧ decoder.summary others = .ok b ∧
      decoder.summary (exts ++ others) = .ok (a.append b)

theorem tallies_of_countsGrease {decoder : Decoder} {asUnknown : Bool}
    (hflag : decoder.CountsGrease asUnknown) : decoder.Tallies asUnknown where
  headers := fun data exts h => summary_of_decodeAll hflag h
  bodies := by
    intro data exts other others h hother hnumbers
    rw [summary_of_decodeAll hflag h, summary_of_decodeAll hflag hother, hnumbers]
  total := by
    intro another asUnknown' hanother data exts h
    refine ⟨_, _, summary_of_decodeAll hflag h, summary_of_decodeAll hanother h, rfl, ?_⟩
    rw [Summary.total_ofNumbers, Summary.total_ofNumbers]
  joined := by
    intro data exts other others h hother
    obtain ⟨happend, hnumbers⟩ := append_of_decodeAll h other
    have hboth : decodeAll (data ++ other) = .ok (exts ++ others) := by
      rw [happend, hother]
      rfl
    refine ⟨hboth, _, _, summary_of_decodeAll hflag h, summary_of_decodeAll hflag hother, ?_⟩
    rw [summary_of_decodeAll hflag hboth, hnumbers, Summary.ofNumbers_append]

/-- How GREASE is counted is what the settings say, if they fit the template. -/
theorem exists_countsGrease_of_create {host : Host} {settings? : Option Value}
    {logging : Logging} {decoder : Decoder}
    (h : (create host settings? logging).1 = .ok decoder) (hfits : Configuration.Fits settings?) :
    ∃ asUnknown, Configuration.settingOr settings? "grease_as_unknown" (.bool false) =
      .bool asUnknown ∧ decoder.CountsGrease asUnknown := by
  have haccepted := (accepted?_of_create h).1
  have hdefault : Configuration.decoderTemplate.lookup "grease_as_unknown" =
    some (.bool false) := rfl
  obtain ⟨id, hsection⟩ := (Configuration.checked_of_accepted? haccepted).exists_section
  obtain ⟨slot, share, hslot, hheld⟩ :=
    Configuration.exists_slot_of_accepted? hfits haccepted hsection hdefault (by simp)
  have hsetting := hsection.decoderSetting_eq "grease_as_unknown"
  rw [hslot] at hsetting
  have hflag := hsection.flag slot hslot
  unfold Configuration.isFlag at hflag
  split at hflag
  · next asUnknown => exact ⟨asUnknown, hheld.eq_of_plain, hsetting⟩
  · cases hflag

/-- A decoder that has been told how GREASE is counted summarises regions by their headers. With
settings that fit the template, or none, it has been told what they say. -/
theorem tallies (decoder : Decoder) :
    (∀ asUnknown, decoder.CountsGrease asUnknown → decoder.Tallies asUnknown) ∧
    ∀ host settings? logging, (create host settings? logging).1 = .ok decoder →
      Configuration.Fits settings? →
      ∃ asUnknown, Configuration.settingOr settings? "grease_as_unknown" (.bool false) =
        .bool asUnknown ∧ decoder.CountsGrease asUnknown :=
  ⟨fun _ hflag => tallies_of_countsGrease hflag,
    fun _ _ _ h hfits => exists_countsGrease_of_create h hfits⟩

/-- Of a GREASE extension, one without a layout and one with, a decoder that has been told to
counts two as unknown and any other decoder one as GREASE and one as unknown. -/
theorem tallies_grease_as_unknown :
    ∃ decoder exts,
      (create .permissive
        (some (.record [("decoder", .record [("grease_as_unknown", .bool true)])]))
        .initial).1 = .ok decoder ∧
      decodeAll [0x1a, 0x1a, 0, 1, 5, 0, 47, 0, 0, 0, 23, 0, 0] = .ok exts ∧
      decoder.summary exts = .ok ⟨[0x1a1a, 47, 23], 0, 2⟩ ∧
      ∀ another : Decoder, another.CountsGrease false →
        another.summary exts = .ok ⟨[0x1a1a, 47, 23], 1, 1⟩ := by
  obtain ⟨exts, hexts⟩ : ∃ exts,
      decodeAll [0x1a, 0x1a, 0, 1, 5, 0, 47, 0, 0, 0, 23, 0, 0] = .ok exts := ⟨_, rfl⟩
  have hnumbers : wireNumbers [0x1a, 0x1a, 0, 1, 5, 0, 47, 0, 0, 0, 23, 0, 0] =
      [0x1a1a, 47, 23] := by
    decide +kernel
  have hfits : Configuration.Fits
      (some (.record [("decoder", .record [("grease_as_unknown", .bool true)])])) := by
    intro settings hsettings
    obtain rfl := Option.some.inj hsettings
    exact ⟨by decide, by decide⟩
  have hcreate : ∃ decoder, (create .permissive
      (some (.record [("decoder", .record [("grease_as_unknown", .bool true)])]))
        .initial).1 = .ok decoder := ⟨_, rfl⟩
  obtain ⟨decoder, hdecoder⟩ := hcreate
  obtain ⟨hheaders, hcreated⟩ := tallies decoder
  obtain ⟨asUnknown, hsaid, hflag⟩ := hcreated _ _ _ hdecoder hfits
  obtain rfl : true = asUnknown := Value.bool.inj hsaid
  refine ⟨decoder, exts, hdecoder, hexts, ?_, fun another hanother => ?_⟩
  · rw [(hheaders true hflag).headers _ _ hexts, hnumbers]
    rfl
  · rw [((tallies another).1 false hanother).headers _ _ hexts, hnumbers]
    rfl

end Decoder
end HelloExtensions
