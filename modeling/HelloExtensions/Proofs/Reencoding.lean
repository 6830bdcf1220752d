import HelloExtensions.Proofs.Spelling.Layout
import HelloExtensions.Proofs.Timestamps

/-!
Writing an extension that was decoded. What was passed over is lost: the part of an item at the
end of a list and bytes behind a field are replaced by zeros behind everything else. These zeros
are passed over again. Either bytes behind the content do not matter at all, or nothing is lost
but bytes that are too few to go on with, and then there are no more zeros than that. So the
extension that is written decodes to the same extension, and it has the same bytes if nothing
was lost.
-/
namespace HelloExtensions

open Reading Registry

namespace Schema

def isCode : Schema → Bool
  | .code _ => true
  | _ => false

end Schema

mutual

/-- What the schema leaves is too little for it to go on with. -/
def Schema.stops : Schema → Bool
  | .uint _ => true
  | .code _ => true
  | .rest => true
  | .bytes _ _ => true
  | .region _ _ => true
  | .many item => item.isCode
  | .single item => item.stops
  | .optional _ => false
  | .onlyIf _ _ content => content.slack.isNone
  | .ifElse _ _ yes no => yes.slack.isNone && no.slack.isNone
  | .record fields => fields.stops

def Fields.stops : Fields → Bool
  | .done => true
  | .label _ _ more => more.stops
  | .typeNumber _ more => more.stops
  | .check _ more => more.stops
  | .field _ schema more => (schema.stops && more.isDone) || (schema.slack.isNone && more.stops)

end

theorem length_readAll_codes_lt {registry : Registry} (hwidth : 0 < registry.width)
    (scope : Value) (bytes : List UInt8) :
    (readAll ((Schema.code registry).decode scope) bytes).2.length < registry.width := by
  obtain ⟨items, leftover, htiles⟩ :=
    @ItemForm.exists_tiles (ItemForm.word registry hwidth) bytes
  rw [(ItemForm.word_readBy scope registry hwidth).readAll_of_tiles htiles]
  exact ItemForm.length_lt_of_not_starts htiles.2

mutual

theorem Schema.tolerates_of_decode (schema : Schema) (hstops : schema.stops = true)
    (horderly : schema.orderly = true) {scope value : Value} {bytes rest : List UInt8}
    (h : schema.decode scope bytes = .ok (value, rest)) : Tolerates schema.slack rest.length := by
  cases schema with
  | uint | code | bytes | region => exact tolerates_none _
  | rest =>
    rw [Schema.decode] at h
    cases h
    exact (tolerates_some_iff _ _).mpr Nat.zero_lt_one
  | many item =>
    simp only [Schema.orderly, Bool.and_eq_true, decide_eq_true_eq] at horderly
    cases item <;> cases hstops
    rw [Schema.decode] at h
    cases h
    exact (tolerates_some_iff _ _).mpr (length_readAll_codes_lt horderly.2 scope bytes)
  | single item =>
    simp only [Schema.decode, bind_eq_ok_iff, Prod.exists] at h
    obtain ⟨v, left, hitem, hpure⟩ := h
    cases hpure
    exact Schema.tolerates_of_decode item hstops horderly hitem
  | optional => cases hstops
  | onlyIf up test content =>
    rw [Schema.slack, Option.isNone_iff_eq_none.mp hstops]
    exact tolerates_none _
  | ifElse up test yes no =>
    simp only [Schema.stops, Bool.and_eq_true, Option.isNone_iff_eq_none] at hstops
    rw [Schema.slack, hstops.1, hstops.2]
    exact tolerates_none _
  | record fields =>
    simp only [Schema.orderly, Bool.and_eq_true] at horderly
    obtain ⟨entries, hfields, -⟩ := (Schema.decode_record_eq_ok_iff _ _ _ _ _).mp h
    exact Fields.tolerates_of_decode fields hstops horderly.1 hfields

theorem Fields.tolerates_of_decode (fields : Fields) (hstops : fields.stops = true)
    (horderly : fields.orderly = true) {scope : Value} {bytes rest : List UInt8}
    {entries : List (String × Value)} (h : fields.decode scope bytes = .ok (entries, rest)) :
    Tolerates fields.slack rest.length := by
  cases fields with
  | done => exact tolerates_none _
  | label name text more =>
    obtain ⟨others, hmore, -⟩ := (Fields.decode_label_eq_ok_iff _ _ _ _ _ _ _).mp h
    exact Fields.tolerates_of_decode more hstops horderly hmore
  | typeNumber name more =>
    simp only [Fields.decode, bind_eq_ok_iff, Prod.exists] at h
    obtain ⟨number, -, others, left, hmore, hpure⟩ := h
    cases hpure
    exact Fields.tolerates_of_decode more hstops horderly hmore
  | check test more =>
    simp only [Fields.decode, bind_eq_ok_iff] at h
    obtain ⟨length, -, holds, -, hmore⟩ := h
    split at hmore
    · exact Fields.tolerates_of_decode more hstops horderly hmore
    · cases hmore
  | field name schema more =>
    obtain ⟨value, left, hfield, others, hmore, -⟩ :=
      (Fields.decode_field_eq_ok_iff _ _ _ _ _ _ _).mp h
    simp only [Fields.orderly, Bool.and_eq_true] at horderly
    simp only [Fields.stops, Bool.or_eq_true, Bool.and_eq_true, Option.isNone_iff_eq_none] at hstops
    refine (tolerates_tighter_iff _ _ _).mpr ?_
    rcases hstops with ⟨hschema, hdone⟩ | ⟨hslack, hothers⟩
    · cases more <;> cases hdone
      rw [Fields.decode] at hmore
      cases hmore
      exact ⟨Schema.tolerates_of_decode schema hschema horderly.1.1 hfield, tolerates_none _⟩
    · exact ⟨hslack ▸ tolerates_none _,
        Fields.tolerates_of_decode more hothers horderly.1.2 hmore⟩

end

/-- One of two layouts that stop, or a layout that stops. -/
def Schema.steady : Schema → Bool
  | .ifElse _ _ yes no => yes.stops && no.stops
  | schema => schema.stops

section

variable {scope : Value} {n : Nat} {number : Int}

/-- As many other bytes in place of those that were left are left as well. -/
theorem Schema.decode_append_of_stops (h : Scope.Answers scope n number) (hcap : n < 65536)
    {schema : Schema} (hout : schema.refersOut 0 = true) (horderly : schema.orderly = true)
    (hstops : schema.stops = true) {body left b extra : List UInt8} {value : Value}
    (hdecode : schema.decode scope body = .ok (value, left))
    (hspells : schema.Spells n number value value b) (hextra : extra.length = left.length) :
    schema.decode scope (b ++ extra) = .ok (value, extra) := by
  refine Schema.decode_append_of_spells h hcap schema 0 hout horderly hspells extra ?_
  rw [hextra]
  exact schema.tolerates_of_decode hstops horderly hdecode

/-- The declared length is the same both times, so the same layout is taken. -/
theorem Schema.decode_append_of_steady (h : Scope.Answers scope n number) (hcap : n < 65536)
    {schema : Schema} (hout : schema.refersOut 0 = true) (horderly : schema.orderly = true)
    (hsteady : schema.steady = true) {body left b extra : List UInt8} {value : Value}
    (hdecode : schema.decode scope body = .ok (value, left))
    (hspells : schema.Spells n number value value b) (hextra : extra.length = left.length) :
    schema.decode scope (b ++ extra) = .ok (value, extra) := by
  cases schema with
  | ifElse up test yes no =>
    simp only [Schema.refersOut, Bool.and_eq_true, beq_iff_eq] at hout
    obtain ⟨⟨rfl, hyes⟩, hno⟩ := hout
    simp only [Schema.orderly, Bool.and_eq_true] at horderly
    simp only [Schema.steady, Bool.and_eq_true] at hsteady
    have hlength : Scope.length scope 0 = .ok (.int n) := h.length_nested 0
    rw [Schema.decode_ifElse_of_length hlength] at hdecode ⊢
    cases hspells with
    | yes htest hspells =>
      rw [if_pos htest] at hdecode ⊢
      exact Schema.decode_append_of_stops h hcap hyes horderly.1 hsteady.1 hdecode hspells hextra
    | no htest hspells =>
      rw [if_neg htest] at hdecode ⊢
      exact Schema.decode_append_of_stops h hcap hno horderly.2 hsteady.2 hdecode hspells hextra
  | _ => exact Schema.decode_append_of_stops h hcap hout horderly hsteady hdecode hspells hextra

end

namespace Content

/-- The only way to spell timestamps that are there. -/
theorem eq_of_spells_timestamps {n : Nat} {number : Int} {given : Value} {name : String}
    {stamps b : List UInt8}
    (h : signedCertificateTimestamp.Spells n number given
      (.record [("_name", .text name), ("signed_certificate_timestamp", .bytes stamps)]) b) :
    stamps.length < BigEndian.capacity 2 ∧ b = BigEndian.encode 2 stamps.length ++ stamps := by
  cases h with
  | record _ hfields =>
    cases hfields with
    | label hfields =>
      cases hfields with
      | field _ hfield hdone =>
        cases hdone
        cases hfield with
        | present hregion =>
          cases hregion with
          | region hrest hlt =>
            cases hrest
            exact ⟨hlt, List.append_nil _⟩

/-- Zeros behind the spelling of timestamps are passed over, and so is one zero alone. -/
theorem timestamps_append {n : Nat} {number : Int} {body b extra : List UInt8} {given : Value}
    (hfit : 2 ≤ body.length → Delimits 2 body)
    (hspells : signedCertificateTimestamp.Spells n number given (ofTimestamps body) b)
    (hlength : (b ++ extra).length = body.length) :
    timestamps (b ++ extra) = timestamps body := by
  by_cases hdelimits : Delimits 2 body
  · rw [ofTimestamps, timestamps, if_pos hdelimits] at hspells
    obtain ⟨hlt, rfl⟩ := eq_of_spells_timestamps hspells
    rw [timestamps, timestamps, if_pos hdelimits, List.append_assoc,
      if_pos (delimits_encode_append hlt extra), delimited_encode_append hlt extra]
  · have hshort : ¬ Delimits 2 (b ++ extra) := by
      intro h
      have hle := h.1
      rw [hlength] at hle
      exact hdelimits (hfit hle)
    rw [timestamps, timestamps, if_neg hdelimits, if_neg hshort]

end Content

namespace Extension

/-- Apart from timestamps, either bytes behind a content do not matter, or no byte of it is
passed over and what is left is not enough to go on with. -/
theorem slack_or_steady_layout {number : Nat} (hne : number ≠ 0x0012) :
    (layout number (extensionTypes.name? number)).slack = none ∨
      ((layout number (extensionTypes.name? number)).exact = true ∧
        (layout number (extensionTypes.name? number)).steady = true) := by
  have hcontents : ∀ c ∈ Content.contents, c.1 = "signed_certificate_timestamp" ∨
      c.2.slack = none ∨ (c.2.exact = true ∧ c.2.steady = true) := by
    decide
  unfold layout
  split
  · exact .inr ⟨rfl, rfl⟩
  · cases hlookup : (extensionTypes.name? number).bind fun name => Content.contents.lookup name with
    | none => exact .inr ⟨rfl, rfl⟩
    | some schema =>
      obtain ⟨name, hname, hschema⟩ := Option.bind_eq_some_iff.mp hlookup
      refine (hcontents _ (Entries.mem_of_lookup_eq_some hschema)).resolve_left ?_
      rintro rfl
      have hnumber := (Registry.number?_eq_some_iff_name? extensionTypes_wellFormed).mpr hname
      have htimestamps : extensionTypes.number? "signed_certificate_timestamp" = some 0x0012 := rfl
      rw [htimestamps] at hnumber
      exact hne (Option.some.inj hnumber).symm

/-- What was passed over may be replaced by bytes behind the spelling. -/
theorem decodeContent_append_of_respells {number : Nat} {body left b extra : List UInt8}
    {content : Value} (hcap : body.length < 65536)
    (hfit : number = 0x0012 → 2 ≤ body.length → Delimits 2 body)
    (hdecode : (layout number (extensionTypes.name? number)).decode
      (scope (extensionTypes.codePoint number) body.length) body = .ok (content, left))
    (hspells : (layout number (extensionTypes.name? number)).Spells body.length number content
      content b)
    (hrespells : Respells (layout number (extensionTypes.name? number)).exact b left body)
    (hlength : (b ++ extra).length = body.length) :
    decodeContent (extensionTypes.codePoint number) (b ++ extra) = .ok content := by
  by_cases htimestamps : number = 0x0012
  · subst htimestamps
    have hcontent : decodeContent (extensionTypes.codePoint 0x0012) body = .ok content :=
      (decodeContent_eq_ok_iff _ _ _).mpr ⟨left, hdecode⟩
    rw [decodeContent_timestamps] at hcontent
    cases hcontent
    rw [decodeContent_timestamps, Content.ofTimestamps, Content.ofTimestamps,
      Content.timestamps_append (hfit rfl) hspells hlength]
  · rcases slack_or_steady_layout htimestamps with hslack | ⟨hexact, hsteady⟩
    · exact decodeContent_of_spells hlength hcap hspells (hslack ▸ tolerates_none _)
    · have hbody := congrArg List.length (hrespells.bytes_eq hexact)
      rw [List.length_append] at hbody hlength
      refine (decodeContent_eq_ok_iff _ _ _).mpr ⟨extra, ?_⟩
      rw [List.length_append, hlength]
      exact Schema.decode_append_of_steady (answers_scope _ _) hcap (refersOut_layout _ _)
        (orderly_layout _ _) hsteady hdecode hspells (by omega)

/-- A record as it is decoded has the fields of an extension. -/
theorem heads_toValue {number size : Nat} (content : Value) (hnumber : number < 65536)
    (hsize : size < 65536) :
    Heads [("_name", .text "Extension"),
      ("extension_type", .code (extensionTypes.codePoint number)),
      ("_length", .int size), ("extension_data", content)] number size content where
  names_mem := by simp [fieldNames]
  exists_type := ⟨_, rfl, .inl rfl⟩
  exists_size := ⟨_, rfl, rfl⟩
  content_eq := rfl
  number_lt := hnumber
  size_lt := hsize

/-- The body is tiled by its fields: it spells a value, so there is nothing behind the last field
and no part of an item at the end of a list. -/
def Tiled (number : Nat) (body : List UInt8) : Prop :=
  ∃ value, (layout number (extensionTypes.name? number)).Spells body.length number value value body

/-- A content has one spelling, so a body that is tiled is the one that is written. -/
theorem eq_of_tiled {number : Nat} {body b : List UInt8} {content : Value}
    (hnumber : number < 65536) (hcap : body.length < 65536) (htiled : Tiled number body)
    (hcontent : decodeContent (extensionTypes.codePoint number) body = .ok content)
    (hspells : (layout number (extensionTypes.name? number)).Spells body.length number content
      content b) : b = body := by
  obtain ⟨value, hvalue⟩ := htiled
  obtain rfl : content = value :=
    Except.ok.inj (hcontent.symm.trans (decodeContent_spelled hcap hvalue))
  have hdeclares := (heads_toValue content hnumber hcap).declares (Scope.outermost none)
  have hb := Schema.encode_of_spells hdeclares _ .here (refersOut_layout _ _)
    (orderly_layout _ _) hspells
  have hbody := Schema.encode_of_spells hdeclares _ .here (refersOut_layout _ _)
    (orderly_layout _ _) hvalue
  exact Except.ok.inj (hb.symm.trans hbody)

/-- An envelope that is decoded is written as one of the same number and length. Where bytes were
passed over the body may be another one, but what is decoded from it is the same. -/
theorem exists_written {envelope : Envelope} {content : Value}
    (h : decodeContent envelope.type envelope.body = .ok content)
    (hfit : envelope.number = 0x0012 → 2 ≤ envelope.body.length → Delimits 2 envelope.body) :
    ∃ written : Envelope,
      encode (Extension.toValue ⟨envelope.type, envelope.body.length, content⟩) =
        .ok written.bytes ∧
      written.number = envelope.number ∧ written.body.length = envelope.body.length ∧
      decodeContent envelope.type written.body = .ok content ∧
      (Tiled envelope.number envelope.body → written.body = envelope.body) := by
  obtain ⟨left, hdecode⟩ := (decodeContent_eq_ok_iff envelope.type envelope.body content).mp h
  have hanswers := answers_scope envelope.type envelope.body.length
  obtain ⟨b, hspells, hrespells⟩ := Schema.exists_spells_of_decode hanswers _ 0
    (refersOut_layout _ _) (orderly_layout _ _) (wellNumbered_layout _ _) hdecode
  have hle : b.length ≤ envelope.body.length := by
    have hlength := hrespells.length_le
    omega
  obtain ⟨padded, hbody, hpadded⟩ : ∃ padded : List UInt8,
      b ++ List.replicate (envelope.body.length - b.length) 0 = padded ∧
        padded.length = envelope.body.length := by
    refine ⟨_, rfl, ?_⟩
    rw [List.length_append, List.length_replicate]
    omega
  have hlt : padded.length < 65536 := hpadded ▸ envelope.length_lt
  refine ⟨⟨envelope.number, padded, envelope.number_lt, hlt⟩, ?_, rfl, hpadded, ?_, ?_⟩
  · have hencode := (heads_toValue content envelope.number_lt envelope.length_lt).encode_of_spells
      hspells hle
    rw [List.append_assoc _ b, hbody, ← hpadded] at hencode
    rw [← hpadded]
    exact hencode
  · subst hbody
    exact decodeContent_append_of_respells envelope.length_lt hfit hdecode hspells hrespells hpadded
  · intro htiled
    have hb : b = envelope.body :=
      eq_of_tiled envelope.number_lt envelope.length_lt htiled h hspells
    show padded = envelope.body
    rw [← hbody, hb, Nat.sub_self, List.replicate_zero, List.append_nil]

/-- An extension that is decoded is written with its own header and length, and what is written
decodes to the same extension. If the body is tiled, it is written as it was. Timestamps with a
length that tells of too many bytes are left out: they are passed over, and zeros in their place
are not. -/
theorem encode_of_decode {data rest : List UInt8} {ext : Extension}
    (h : decode data = .ok (ext, rest))
    (hfit : wireNumber data = 0x0012 → 2 ≤ (body data).length → Delimits 2 (body data)) :
    ∃ bytes, encode ext.toValue = .ok bytes ∧ bytes.length = headerSize + ext.length ∧
      bytes.take headerSize = data.take headerSize ∧ decode bytes = .ok (ext, []) ∧
      (Tiled (wireNumber data) (body data) → bytes = data.take (headerSize + ext.length)) := by
  obtain ⟨envelope, rfl, hcontent⟩ := exists_envelope_of_decode h
  obtain ⟨htype, hlength⟩ := type_and_length_of_decode h
  rw [envelope.wireNumber_append, envelope.body_append] at hfit ⊢
  obtain ⟨type, length, content⟩ := ext
  dsimp only at htype hlength hcontent ⊢
  subst htype hlength
  obtain ⟨written, hencode, hnumber, hsame, hagain, htiled⟩ := exists_written hcontent hfit
  have htype : written.type = envelope.type := by rw [Envelope.type, Envelope.type, hnumber]
  refine ⟨written.bytes, hencode, ?_, ?_, ?_, ?_⟩
  · rw [written.length_bytes, hsame]
  · have hheader := written.take_header_append []
    rw [List.append_nil] at hheader
    rw [hheader, envelope.take_header_append, hnumber, hsame]
  · rw [written.decode_bytes, Envelope.extension, htype, hagain, hsame]
    rfl
  · intro hbody
    rw [Envelope.ext_of_body hnumber (htiled hbody), ← envelope.length_bytes, List.take_left]

/-- Half a signature scheme and two bytes behind the list are lost, a byte behind timestamps is
lost, and a fragment length is written as it was. -/
theorem encode_of_decode_occurs :
    (∃ ext bytes, decode [0, 13, 0, 7, 0, 3, 4, 3, 8, 1, 2] = .ok (ext, []) ∧
      encode ext.toValue = .ok bytes ∧ decode bytes = .ok (ext, [])) ∧
    (∃ ext bytes, decode [0, 18, 0, 4, 0, 1, 7, 9] = .ok (ext, []) ∧
      encode ext.toValue = .ok bytes ∧ decode bytes = .ok (ext, [])) ∧
    ∃ ext, decode [0, 1, 0, 1, 2] = .ok (ext, []) ∧
      encode ext.toValue = .ok [0, 1, 0, 1, 2] := by
  refine ⟨?_, ?_, ?_⟩
  · obtain ⟨bytes, hencode, -, -, hdecode, -⟩ :=
      @encode_of_decode [0, 13, 0, 7, 0, 3, 4, 3, 8, 1, 2] _ _ rfl (by decide)
    exact ⟨_, bytes, rfl, hencode, hdecode⟩
  · obtain ⟨bytes, hencode, -, -, hdecode, -⟩ :=
      @encode_of_decode [0, 18, 0, 4, 0, 1, 7, 9] _ _ rfl (by decide)
    exact ⟨_, bytes, rfl, hencode, hdecode⟩
  · obtain ⟨bytes, hencode, -, -, -, htiled⟩ :=
      @encode_of_decode [0, 1, 0, 1, 2] _ _ rfl (by decide)
    have hfields : Tiled 0x0001 [2] :=
      ⟨_, .record (by decide) (.label (.check rfl (.field rfl
        (.code (Registry.denotes_codePoint fragmentLengths_wellFormed 2) (by decide)) (.done _))))⟩
    refine ⟨_, rfl, ?_⟩
    rw [hencode, htiled hfields]
    rfl

end Extension
end HelloExtensions
