import HelloExtensions.Proofs.Envelope
import Mathlib.Data.List.Forall2
import Mathlib.Logic.ExistsUnique

/-!
The grammar of a region: envelopes one behind the other and an unfinished tail, which may be
empty. Every byte string is of this form in exactly one way. If an envelope is rejected, the
first one that is decides the error of the region; otherwise a tail that is not empty does, and
without one the region is decoded to what its envelopes are decoded to on their own.
-/
namespace HelloExtensions.RegionGrammar

open Extension

/-- The bytes of a region. -/
def region (envelopes : List Envelope) (tail : List UInt8) : List UInt8 :=
  envelopes.flatMap Envelope.bytes ++ tail

theorem region_cons (envelope : Envelope) (envelopes : List Envelope) (tail : List UInt8) :
    region (envelope :: envelopes) tail = envelope.bytes ++ region envelopes tail := by
  simp only [region, List.flatMap_cons, List.append_assoc]

theorem region_append (front back : List Envelope) (tail : List UInt8) :
    region (front ++ back) tail = region front (region back tail) := by
  simp only [region, List.flatMap_append, List.append_assoc]

/-- On its own the envelope is decoded to the extension. -/
def DecodesTo (envelope : Envelope) (ext : Extension) : Prop :=
  decode envelope.bytes = .ok (ext, [])

theorem decodesTo_iff (envelope : Envelope) (ext : Extension) :
    DecodesTo envelope ext ↔ envelope.extension = .ok ext := by
  unfold DecodesTo
  rw [envelope.decode_bytes]
  cases envelope.extension with
  | error e => simp [Except.map]
  | ok found => simp [Except.map]

theorem decodeContent_of_decodesTo {envelope : Envelope} {ext : Extension}
    (h : DecodesTo envelope ext) : decodeContent envelope.type envelope.body = .ok ext.content := by
  have hextension := (decodesTo_iff envelope ext).mp h
  unfold Envelope.extension at hextension
  split at hextension
  · next content hcontent =>
    obtain rfl := Except.ok.inj hextension
    exact hcontent
  · cases hextension

theorem decode_bytes_eq_error_iff (envelope : Envelope) (e : ExtensionError) :
    decode envelope.bytes = .error e ↔ envelope.extension = .error e := by
  rw [envelope.decode_bytes]
  cases envelope.extension with
  | error found => simp [Except.map]
  | ok ext => simp [Except.map]

theorem exists_region (bytes : List UInt8) :
    ∃ (envelopes : List Envelope) (tail : List UInt8),
      Unfinished tail ∧ bytes = region envelopes tail := by
  induction hlength : bytes.length using Nat.strongRecOn generalizing bytes with
  | ind n ih =>
    subst hlength
    rcases unfinished_or_envelope bytes with hunfinished | ⟨envelope, rest, rfl⟩
    · exact ⟨[], bytes, hunfinished, rfl⟩
    · have hshorter : rest.length < (envelope.bytes ++ rest).length := by
        rw [List.length_append, envelope.length_bytes, headerSize]
        omega
      obtain ⟨envelopes, tail, htail, hrest⟩ := ih rest.length hshorter rest rfl
      exact ⟨envelope :: envelopes, tail, htail, by rw [region_cons, ← hrest]⟩

theorem region_inj {a b : List Envelope} {s t : List UInt8} (hs : Unfinished s)
    (ht : Unfinished t) (h : region a s = region b t) : a = b ∧ s = t := by
  induction a generalizing b with
  | nil =>
    cases b with
    | nil => exact ⟨rfl, h⟩
    | cons envelope b =>
      have hs' : s = envelope.bytes ++ region b t := by rw [← region_cons]; exact h
      exact absurd (hs' ▸ hs) (envelope.not_unfinished_append _)
  | cons envelope a ih =>
    cases b with
    | nil =>
      have ht' : t = envelope.bytes ++ region a s := by rw [← region_cons]; exact h.symm
      exact absurd (ht' ▸ ht) (envelope.not_unfinished_append _)
    | cons other b =>
      rw [region_cons, region_cons] at h
      obtain ⟨rfl, hrest⟩ := Envelope.append_inj h
      obtain ⟨rfl, rfl⟩ := ih hrest
      exact ⟨rfl, rfl⟩

theorem existsUnique_region (bytes : List UInt8) :
    ∃! split : List Envelope × List UInt8,
      Unfinished split.2 ∧ bytes = region split.1 split.2 := by
  obtain ⟨envelopes, tail, htail, hbytes⟩ := exists_region bytes
  refine ⟨(envelopes, tail), ⟨htail, hbytes⟩, ?_⟩
  intro split hsplit
  obtain ⟨henvelopes, hrest⟩ := region_inj htail hsplit.1 (hbytes.symm.trans hsplit.2)
  rw [henvelopes, hrest]

theorem decodeAll_of_decodesTo {envelope : Envelope} {ext : Extension}
    (h : DecodesTo envelope ext) (rest : List UInt8) :
    decodeAll (envelope.bytes ++ rest) = (decodeAll rest).map (ext :: ·) := by
  apply decodeAll_of_ok
  rw [envelope.decode_append, (decodesTo_iff envelope ext).mp h]
  rfl

theorem decodeAll_of_rejected {envelope : Envelope} {e : ExtensionError}
    (h : decode envelope.bytes = .error e) (rest : List UInt8) :
    decodeAll (envelope.bytes ++ rest) = .error e := by
  apply decodeAll_of_error
  · intro hnil
    have hlength := congrArg List.length hnil
    rw [List.length_append, envelope.length_bytes, headerSize] at hlength
    simp at hlength
  · rw [envelope.decode_append, (decode_bytes_eq_error_iff envelope e).mp h]
    rfl

theorem decodeAll_region_of_decodesTo {envelopes : List Envelope} {exts : List Extension}
    (h : List.Forall₂ DecodesTo envelopes exts) (rest : List UInt8) :
    decodeAll (region envelopes rest) = (decodeAll rest).map (exts ++ ·) := by
  induction h with
  | nil =>
    show decodeAll rest = _
    cases decodeAll rest <;> rfl
  | @cons envelope ext envelopes exts hfirst _ ih =>
    rw [region_cons, decodeAll_of_decodesTo hfirst, ih]
    cases decodeAll rest <;> rfl

theorem exists_decodesTo {envelopes : List Envelope}
    (h : ∀ envelope ∈ envelopes, ∃ ext, DecodesTo envelope ext) :
    ∃ exts, List.Forall₂ DecodesTo envelopes exts := by
  induction envelopes with
  | nil => exact ⟨[], .nil⟩
  | cons envelope envelopes ih =>
    obtain ⟨ext, hext⟩ := h envelope List.mem_cons_self
    obtain ⟨exts, hexts⟩ := ih fun other hother => h other (List.mem_cons_of_mem _ hother)
    exact ⟨ext :: exts, .cons hext hexts⟩

/-- Either all envelopes are decoded, or there is a first one that is not. -/
theorem decodesTo_or_rejected (envelopes : List Envelope) :
    (∃ exts, List.Forall₂ DecodesTo envelopes exts) ∨
      ∃ before rejected after e, envelopes = before ++ rejected :: after ∧
        (∀ envelope ∈ before, ∃ ext, DecodesTo envelope ext) ∧
        decode rejected.bytes = .error e := by
  induction envelopes with
  | nil => exact .inl ⟨[], .nil⟩
  | cons envelope envelopes ih =>
    cases hfirst : envelope.extension with
    | error e =>
      exact .inr ⟨[], envelope, envelopes, e, rfl, by simp,
        (decode_bytes_eq_error_iff envelope e).mpr hfirst⟩
    | ok ext =>
      have hext := (decodesTo_iff envelope ext).mpr hfirst
      rcases ih with ⟨exts, hexts⟩ | ⟨before, rejected, after, e, rfl, hbefore, hrejected⟩
      · exact .inl ⟨ext :: exts, .cons hext hexts⟩
      · refine .inr ⟨envelope :: before, rejected, after, e, rfl, ?_, hrejected⟩
        intro other hother
        rcases List.mem_cons.mp hother with rfl | hmem
        · exact ⟨ext, hext⟩
        · exact hbefore other hmem

/-- What a region is decoded to, in each of the three cases that can occur. -/
structure Verdict (envelopes : List Envelope) (tail : List UInt8) : Prop where
  rejected : ∀ before rejected after e, envelopes = before ++ rejected :: after →
    (∀ envelope ∈ before, ∃ ext, DecodesTo envelope ext) →
    decode rejected.bytes = .error e →
    e.IsVerification ∧ decodeAll (region envelopes tail) = .error e
  whole : ∀ exts, List.Forall₂ DecodesTo envelopes exts → tail = [] →
    decodeAll (region envelopes tail) = .ok exts
  cut : ∀ exts, List.Forall₂ DecodesTo envelopes exts → tail ≠ [] →
    ∃ needed, decode tail = .error (.incomplete needed) ∧
      decodeAll (region envelopes tail) = .error (.incomplete needed)
  exhaustive : (∃ exts, List.Forall₂ DecodesTo envelopes exts) ∨
    ∃ before rejected after e, envelopes = before ++ rejected :: after ∧
      (∀ envelope ∈ before, ∃ ext, DecodesTo envelope ext) ∧ decode rejected.bytes = .error e

theorem decodeAll_rejected {before after : List Envelope} {rejected : Envelope}
    {e : ExtensionError} (hbefore : ∀ envelope ∈ before, ∃ ext, DecodesTo envelope ext)
    (h : decode rejected.bytes = .error e) (tail : List UInt8) :
    decodeAll (region (before ++ rejected :: after) tail) = .error e := by
  obtain ⟨exts, hexts⟩ := exists_decodesTo hbefore
  rw [region_append, decodeAll_region_of_decodesTo hexts, region_cons, decodeAll_of_rejected h]
  rfl

/-- Every byte string is a region of envelopes and an unfinished tail in one way only, and so
the verdicts on such regions are the verdicts on all byte strings. -/
theorem decodeAll_verdict :
    (∀ bytes, ∃! split : List Envelope × List UInt8,
      Unfinished split.2 ∧ bytes = region split.1 split.2) ∧
    ∀ envelopes tail, Unfinished tail → Verdict envelopes tail := by
  refine ⟨existsUnique_region, fun envelopes tail htail => ⟨?_, ?_, ?_, ?_⟩⟩
  · intro before rejected after e hsplit hbefore hrejected
    subst hsplit
    refine ⟨?_, decodeAll_rejected hbefore hrejected tail⟩
    exact Envelope.isVerification_of_extension_eq_error
      ((decode_bytes_eq_error_iff rejected e).mp hrejected)
  · intro exts hexts hnil
    rw [hnil, decodeAll_region_of_decodesTo hexts, decodeAll_nil]
    simp [Except.map]
  · intro exts hexts hne
    refine ⟨_, decode_of_unfinished htail, ?_⟩
    rw [decodeAll_region_of_decodesTo hexts,
      decodeAll_of_error hne (decode_of_unfinished htail)]
    rfl
  · exact decodesTo_or_rejected envelopes

/-- A rejected envelope decides the verdict, though a tail behind it is unfinished as well. -/
theorem decodeAll_verdict_before_tail :
    ∃ e, decode [0, 22, 0, 1, 9] = .error e ∧ e.IsVerification ∧
      decodeAll (region [⟨23, [], by decide, by decide⟩, ⟨22, [9], by decide, by decide⟩] [0]) =
        .error e := by
  refine ⟨_, rfl, ?_⟩
  have hverdict := decodeAll_verdict.2
    [⟨23, [], by decide, by decide⟩, ⟨22, [9], by decide, by decide⟩] [0] (by decide)
  refine hverdict.rejected [⟨23, [], by decide, by decide⟩] _ [] _ rfl ?_ rfl
  intro envelope hmem
  rw [List.mem_singleton.mp hmem]
  exact ⟨_, rfl⟩

end HelloExtensions.RegionGrammar
