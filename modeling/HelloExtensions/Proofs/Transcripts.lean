import HelloExtensions.Proofs.Quoting
import HelloExtensions.Proofs.RegionGrammar
import HelloExtensions.Proofs.Service
import HelloExtensions.Proofs.Variants
import HelloExtensions.Proofs.Widths

/-!
What decoding a region logs and prints. A region that is decoded makes one record for each of its
envelopes, in the order of the wire; any error makes one record and leaves none of the extensions
before it. A tracer that is on dumps the input before it is decoded, whatever comes of it, and shows
the extensions only if all of them are decoded and not too many. Records and traces of an extension
have the type and the length that the header of its envelope has. From what is printed the input
can be read, and behind it the number of each type as it is on the wire.
-/
namespace HelloExtensions

open RegionGrammar Registry

section

open Text HexDump

/-- Below a line that names and counts the bytes stand the rows of them, and a line feed. -/
def Dumps (title : String) (bytes : List UInt8) (printed : String) : Prop :=
  ∃ body : List Char, printed = header title bytes.length ++ String.ofList body ++ "\n" ∧
    body = ['\n'].intercalate ((rows bytes).map line) ∧ Tabulates bytes (rows bytes) ∧
    Hex.read? body = some bytes

theorem dumps_printedBytes (title : String) (bytes : List UInt8) :
    Dumps title bytes (printedBytes title bytes) :=
  ⟨body bytes, rfl, body_eq_rows bytes, tabulates_rows bytes, read?_body bytes⟩

/-- A dump of at most sixteen bytes is one row. -/
theorem Dumps.eq_of_short {title : String} {bytes : List UInt8} {printed : String}
    (h : Dumps title bytes printed) (hsome : bytes ≠ []) (hshort : bytes.length ≤ bytesPerLine) :
    printed = header title bytes.length ++ String.ofList (line bytes) ++ "\n" := by
  obtain ⟨body, hprinted, hbody, -⟩ := h
  rw [hprinted, hbody, rows_of_short hsome hshort, List.map_singleton, List.intercalate_singleton]

end

namespace Envelope

/-- The name of the type, or its number if it has no name. -/
def typeName (envelope : Envelope) : String :=
  (extensionTypes.name? envelope.number).getD (toString envelope.number)

/-- The two bytes on the wire that tell the type, as hexadecimal digits. -/
def wireDigits (envelope : Envelope) : List Char :=
  (envelope.bytes.take 2).flatMap Text.Hex.twoDigits

/-- The record of an envelope that has been decoded. -/
def record (envelope : Envelope) : LogRecord :=
  ⟨.debug, s!"{envelope.typeName} [{envelope.body.length} bytes]"⟩

/-- The type of an envelope by its name and by the number that is on the wire. -/
def title (envelope : Envelope) : String :=
  envelope.typeName ++ " [0x" ++ String.ofList envelope.wireDigits ++ "]"

/-- What is printed, whatever limit there is on the digits of integers, quotes the type of an
envelope and the content it has been decoded to, and has a line feed behind it. -/
structure Traces (envelope : Envelope) (ext : Extension) (printed : String) : Prop where
  printValue_eq : ∀ limit?, printValue limit? envelope.title ext.content = .ok printed
  quoted : ∃ quoted, printed = quoted ++ "\n" ∧
    Text.unquote? quoted = some ("  - " ++ envelope.title ++ ": " ++ ext.content.shown)

variable {envelope : Envelope} {ext : Extension}

theorem text_type (envelope : Envelope) : envelope.type.text = envelope.typeName := rfl

theorem type_and_length_of_decodesTo (h : DecodesTo envelope ext) :
    ext.type = envelope.type ∧ ext.length = envelope.body.length := by
  have hdecode : Extension.decode (envelope.bytes ++ []) = .ok (ext, []) := by
    rw [List.append_nil]
    exact h
  exact Extension.type_and_length_of_decode hdecode

theorem extensionRecord_of_decodesTo (h : DecodesTo envelope ext) :
    Decoder.extensionRecord ext = envelope.record := by
  obtain ⟨htype, hlength⟩ := type_and_length_of_decodesTo h
  rw [Decoder.extensionRecord, record, htype, hlength, text_type]

theorem padded_number (envelope : Envelope) :
    Text.Hex.padded 4 envelope.number = envelope.wireDigits := by
  have htake : envelope.bytes.take 2 = BigEndian.encode 2 envelope.number := by
    rw [bytes, List.append_assoc, List.take_left' (BigEndian.length_encode 2 envelope.number)]
  rw [wireDigits, htake, Text.Hex.padded_eq_flatMap_twoDigits envelope.number_lt]

theorem title_of_decodesTo (h : DecodesTo envelope ext) : Tracer.title ext = envelope.title := by
  have hnumber : (envelope.type.number).toNat = envelope.number := rfl
  rw [Tracer.title, title, (type_and_length_of_decodesTo h).1, hnumber, padded_number, text_type]

/-- A content has a label, so it is shown and not dumped. -/
theorem exists_record_of_decodesTo (h : DecodesTo envelope ext) :
    ∃ fields, ext.content = .record fields := by
  obtain ⟨label, -, hlabelled⟩ :=
    Extension.labelled_of_decodeContent (decodeContent_of_decodesTo h)
  have hlabel := hlabelled.label_eq
  cases hcontent : ext.content with
  | record fields => exact ⟨fields, rfl⟩
  | _ =>
    rw [hcontent] at hlabel
    cases hlabel

theorem traces_of_decodesTo (h : DecodesTo envelope ext) :
    envelope.Traces ext (Tracer.extension ⟨true⟩ ext) := by
  have hprinted : Tracer.extension ⟨true⟩ ext = printedValue envelope.title ext.content := by
    rw [Tracer.extension, if_pos rfl, title_of_decodesTo h]
  have hnarrow :=
    Extension.narrow_of_decodeContent envelope.number_lt (decodeContent_of_decodesTo h)
  rw [hprinted]
  refine ⟨fun limit? => hnarrow.printValue_eq limit? _, Text.fold _, ?_, Text.unquote?_fold _⟩
  obtain ⟨fields, hfields⟩ := exists_record_of_decodesTo h
  rw [hfields]
  rfl

end Envelope

section

variable {envelopes : List Envelope} {exts : List Extension}

theorem map_extensionRecord (h : List.Forall₂ DecodesTo envelopes exts) :
    exts.map Decoder.extensionRecord = envelopes.map Envelope.record := by
  induction h with
  | nil => rfl
  | cons hfirst _ ih =>
    rw [List.map_cons, List.map_cons, Envelope.extensionRecord_of_decodesTo hfirst, ih]

theorem forall₂_traces (h : List.Forall₂ DecodesTo envelopes exts) :
    List.Forall₂ (fun pair printed => pair.1.Traces pair.2 printed) (envelopes.zip exts)
      (exts.map (Tracer.extension ⟨true⟩)) := by
  induction h with
  | nil => exact .nil
  | cons hfirst _ ih => exact .cons (Envelope.traces_of_decodesTo hfirst) ih

theorem join_extension_off (exts : List Extension) :
    String.join (exts.map (Tracer.extension ⟨false⟩)) = "" := by
  induction exts with
  | nil => rfl
  | cons ext exts ih =>
    rw [List.map_cons, String.join_cons, ih]
    rfl

end

/-- The dump of the input and the traces of what has been decoded, or nothing. -/
def Prints (tracing : Bool) (bytes : List UInt8) (decoded : List (Envelope × Extension))
    (printed : String) : Prop :=
  match tracing with
  | false => printed = ""
  | true => ∃ dump traces, printed = dump ++ String.join traces ∧ Dumps "extensions" bytes dump ∧
      List.Forall₂ (fun pair trace => pair.1.Traces pair.2 trace) decoded traces

theorem prints_nil (tracer : Tracer) (bytes : List UInt8) :
    Prints tracer.on bytes [] (tracer.input bytes) := by
  obtain ⟨_ | _⟩ := tracer
  · rfl
  · refine ⟨printedBytes "extensions" bytes, [], ?_, dumps_printedBytes _ _, .nil⟩
    rw [String.join_nil, String.append_empty]
    rfl

theorem prints_of_decodesTo (tracer : Tracer) (bytes : List UInt8) {envelopes : List Envelope}
    {exts : List Extension} (h : List.Forall₂ DecodesTo envelopes exts) :
    Prints tracer.on bytes (envelopes.zip exts)
      (tracer.input bytes ++ String.join (exts.map tracer.extension)) := by
  obtain ⟨_ | _⟩ := tracer
  · show _ ++ _ = _
    rw [join_extension_off]
    rfl
  · exact ⟨_, _, rfl, dumps_printedBytes _ _, forall₂_traces h⟩

/-- What a call that decodes a region has logged and printed. -/
structure Transcript (tracing : Bool) (bytes : List UInt8)
    (call : Call (Except ExtensionError (List Extension))) : Prop where
  decoded : ∀ exts, call.result = .ok exts → ∃ envelopes,
    bytes = region envelopes [] ∧ List.Forall₂ DecodesTo envelopes exts ∧
      call.records = envelopes.map Envelope.record ∧
      Prints tracing bytes (envelopes.zip exts) call.printed
  failed : ∀ e, call.result = .error e → ∃ report lead, e.report? = some report ∧
    (report.kind = .incomplete ∧ call.records = [⟨.debug, lead ++ report.message⟩] ∨
      report.kind = .verification ∧ call.records = [⟨.warning, lead ++ report.message⟩]) ∧
    Prints tracing bytes [] call.printed

namespace Extension

theorem incomplete_or_isVerification_of_decodeAll {bytes : List UInt8} {e : ExtensionError}
    (h : decodeAll bytes = .error e) : (∃ needed, e = .incomplete needed) ∨ e.IsVerification := by
  rcases decodeAll_cases bytes with ⟨exts, hok, -⟩ | ⟨data, found, herror, hfound⟩
  · rw [hok] at h
    cases h
  · rw [herror] at h
    obtain rfl := Except.error.inj h
    exact incomplete_or_isVerification_of_decode hfound

/-- A region that is decoded is a sequence of envelopes without a tail. -/
theorem exists_envelopes_of_decodeAll {bytes : List UInt8} {exts : List Extension}
    (h : decodeAll bytes = .ok exts) :
    ∃ envelopes, bytes = region envelopes [] ∧ List.Forall₂ DecodesTo envelopes exts := by
  obtain ⟨envelopes, tail, htail, rfl⟩ := exists_region bytes
  rcases decodesTo_or_rejected envelopes with ⟨found, hfound⟩ | ⟨before, rejected, after, e, rfl,
    hbefore, he⟩
  · rw [decodeAll_region_of_decodesTo hfound] at h
    by_cases hnil : tail = []
    · subst hnil
      obtain rfl : found = exts := by simpa [decodeAll_nil, Except.map] using h
      exact ⟨envelopes, rfl, hfound⟩
    · rw [decodeAll_of_error hnil (decode_of_unfinished htail)] at h
      cases h
  · rw [decodeAll_rejected hbefore he tail] at h
    cases h

end Extension

namespace Decoder

open Settings

theorem exists_recordOf {e : ExtensionError} (incomplete : String)
    (h : (∃ needed, e = .incomplete needed) ∨ e.IsVerification) :
    ∃ report lead, e.report? = some report ∧
      (report.kind = .incomplete ∧ recordOf incomplete e = [⟨.debug, lead ++ report.message⟩] ∨
        report.kind = .verification ∧
          recordOf incomplete e = [⟨.warning, lead ++ report.message⟩]) := by
  rcases h with ⟨needed, rfl⟩ | ⟨message, hreport⟩
  · exact ⟨_, incomplete ++ ": ", rfl, .inl ⟨rfl, rfl⟩⟩
  · refine ⟨_, Report.verificationStatus.plain ++ ": ", hreport, .inr ⟨rfl, ?_⟩⟩
    cases e with
    | incomplete needed =>
      exact absurd ⟨message, hreport⟩ (ExtensionError.not_isVerification_incomplete needed)
    | _ => simp only [recordOf, hreport]; rfl

/-- A tracer is made of a table that has a boolean for it, or nothing. -/
theorem exists_table_of_ofSettings {c : Configuration} {slot : Slot} {tracer : Tracer}
    (h : Tracer.ofSettings (c.snapshot slot) = .ok tracer) :
    ∃ id, slot = .table id ∧ ((c.store.table id).lookup "trace" = none ∨
      (c.store.table id).lookup "trace" = some (.plain (.bool tracer.on))) := by
  cases slot with
  | plain value => cases h
  | list id items => cases h
  | table id =>
    rw [ofSettings_table] at h
    refine ⟨id, rfl, ?_⟩
    split at h
    · next hnone => exact .inl hnone
    · next b hb =>
      obtain rfl := Except.ok.inj h
      exact .inr hb
    · cases h

section

variable {host : Host} {settings? : Option Value} {logging : Logging} {decoder : Decoder}

/-- A decoder whose settings fit the template traces if they say so. -/
theorem said_tracing_of_create (h : (create host settings? logging).1 = .ok decoder)
    (hfits : Configuration.Fits settings?) :
    Configuration.saidOr settings? ["debug", "trace"] (.bool false) = .bool decoder.tracer.on := by
  obtain ⟨haccepted, hsettings⟩ := accepted?_of_create h
  unfold debugSettings at hsettings
  cases hlookup : decoder.configuration.table.lookup "debug" with
  | none =>
    rw [hlookup] at hsettings
    cases hsettings
  | some slot =>
    rw [hlookup, Option.map_some, Option.getD_some] at hsettings
    obtain ⟨id, rfl, htrace⟩ := exists_table_of_ofSettings hsettings
    have hdefault : List.lookup "trace" [("trace", Value.bool false)] = some (.bool false) := rfl
    obtain ⟨found, share, hfound, hheld⟩ := Configuration.exists_slot_of_section hfits
      haccepted hlookup (by decide) rfl hdefault (by simp)
    rcases htrace with hnone | hsome
    · rw [hnone] at hfound
      cases hfound
    · rw [hsome] at hfound
      obtain rfl := Option.some.inj hfound
      exact hheld.eq_of_plain

/-- If the limit can be asked for, the transcript is about all extensions or about one error. -/
theorem transcript_of_limit {limit? : Option Int} (hlimit : decoder.limit? = .ok limit?)
    (bytes : List UInt8) : Transcript decoder.tracer.on bytes (decoder.decode bytes) := by
  unfold decode
  cases hall : Extension.decodeAll bytes with
  | error found =>
    refine ⟨fun exts hok => (by cases hok), fun e he => ?_⟩
    obtain rfl := Except.error.inj he
    obtain ⟨report, lead, hreport, hrecords⟩ :=
      exists_recordOf s!"incomplete extensions [{bytes.length} bytes]"
        (Extension.incomplete_or_isVerification_of_decodeAll hall)
    exact ⟨report, lead, hreport, hrecords, prints_nil _ _⟩
  | ok found =>
    simp only [hlimit]
    split
    · next limit hmany =>
      refine ⟨fun exts hok => (by cases hok), fun e he => ?_⟩
      obtain rfl := Except.error.inj he
      refine ⟨_, "", rfl, .inr ⟨rfl, ?_⟩, prints_nil _ _⟩
      rw [String.empty_append]
      rfl
    · refine ⟨fun exts hok => ?_, fun e he => (by cases he)⟩
      obtain rfl := Except.ok.inj hok
      obtain ⟨envelopes, hbytes, hfound⟩ := Extension.exists_envelopes_of_decodeAll hall
      exact ⟨envelopes, hbytes, hfound, map_extensionRecord hfound, prints_of_decodesTo _ _ hfound⟩

/-- A decoder whose settings fit the template traces if they say so, and what it logs and prints
of a region is all about its extensions or about one error. -/
theorem transcript_of_create (h : (create host settings? logging).1 = .ok decoder)
    (hfits : Configuration.Fits settings?) :
    ∃ tracing : Bool,
      Configuration.saidOr settings? ["debug", "trace"] (.bool false) = .bool tracing ∧
      ∀ bytes, Transcript tracing bytes (decoder.decode bytes) := by
  refine ⟨decoder.tracer.on, said_tracing_of_create h hfits, fun bytes => ?_⟩
  obtain ⟨limit?, -, hlimit⟩ := exists_limit_of_create h hfits
  exact transcript_of_limit hlimit bytes

end

/-- With tracing and a limit of one, a GREASE extension is logged and shown with its own number. A
second one behind it leaves a warning and the dump, and a cut header one record for debugging. -/
theorem transcript_of_create_traced :
    ∃ decoder, (create .permissive (some (.record [("debug", .record [("trace", .bool true)]),
        ("decoder", .record [("max_extensions", .int 1)])])) .initial).1 = .ok decoder ∧
      (decoder.decode [26, 26, 0, 0]).records = [⟨.debug, "6682 [0 bytes]"⟩] ∧
      (∃ quoted shown, (decoder.decode [26, 26, 0, 0]).printed =
          "  - extensions [4 bytes]:\n1a 1a 00 00\n" ++ (quoted ++ "\n") ∧
        Text.unquote? quoted = some ("  - 6682 [0x1a1a]: " ++ shown)) ∧
      (∃ message, (decoder.decode [26, 26, 0, 0, 0, 23, 0, 0]).records = [⟨.warning, message⟩]) ∧
      (decoder.decode [26, 26, 0, 0, 0, 23, 0, 0]).printed =
        "  - extensions [8 bytes]:\n1a 1a 00 00 00 17 00 00\n" ∧
      ∃ message, (decoder.decode [26, 26, 0, 0, 0]).records = [⟨.debug, message⟩] := by
  have hfits : Configuration.Fits (some (.record [("debug", .record [("trace", .bool true)]),
      ("decoder", .record [("max_extensions", .int 1)])])) := by
    intro settings hsettings
    obtain rfl := Option.some.inj hsettings
    exact ⟨by decide, by decide⟩
  obtain ⟨decoder, hcreate, ⟨exts, hok⟩, ⟨count, limit, hmany⟩, ⟨needed, hcut⟩⟩ :
      ∃ decoder, (create .permissive (some (.record [("debug", .record [("trace", .bool true)]),
          ("decoder", .record [("max_extensions", .int 1)])])) .initial).1 = .ok decoder ∧
        (∃ exts, (decoder.decode [26, 26, 0, 0]).result = .ok exts) ∧
        (∃ count limit, (decoder.decode [26, 26, 0, 0, 0, 23, 0, 0]).result =
          .error (.tooMany count limit)) ∧
        ∃ needed, (decoder.decode [26, 26, 0, 0, 0]).result = .error (.incomplete needed) :=
    ⟨_, rfl, ⟨_, rfl⟩, ⟨_, _, rfl⟩, ⟨_, rfl⟩⟩
  obtain ⟨tracing, hsaid, htranscript⟩ := transcript_of_create hcreate hfits
  obtain rfl : true = tracing := Value.bool.inj hsaid
  obtain ⟨envelopes, hbytes, hfound, hrecords, dump, traces, hprinted, hdump, htraces⟩ :=
    (htranscript _).decoded exts hok
  have hregion : [26, 26, 0, 0] = region [⟨6682, [], by decide, by decide⟩] [] := by decide
  obtain ⟨rfl, -⟩ := region_inj (by decide) (by decide) (hbytes.symm.trans hregion)
  obtain ⟨ext, rfl⟩ : ∃ ext, exts = [ext] := List.length_eq_one_iff.mp hfound.length_eq.symm
  obtain ⟨trace, others, ⟨-, quoted, rfl, hquoted⟩, hothers, rfl⟩ :=
    List.forall₂_cons_left_iff.mp htraces
  obtain rfl := List.forall₂_nil_left_iff.mp hothers
  obtain ⟨report, lead, hreport, hwarned, dump', traces', hprinted', hdump', htraces'⟩ :=
    (htranscript _).failed _ hmany
  obtain rfl := List.forall₂_nil_left_iff.mp htraces'
  obtain ⟨report', lead', hreport', hnoted, -⟩ := (htranscript _).failed _ hcut
  obtain rfl := Option.some.inj hreport
  obtain rfl := Option.some.inj hreport'
  have hone : dump = "  - extensions [4 bytes]:\n1a 1a 00 00\n" :=
    (hdump.eq_of_short (by decide) (by decide)).trans (by decide)
  have htwo : dump' = "  - extensions [8 bytes]:\n1a 1a 00 00 00 17 00 00\n" :=
    (hdump'.eq_of_short (by decide) (by decide)).trans (by decide)
  refine ⟨decoder, hcreate, hrecords.trans (by decide), ⟨quoted, ext.content.shown, ?_, ?_⟩, ?_,
    ?_, ?_⟩
  · rw [hprinted, hone, String.join_cons, String.join_nil, String.append_empty]
  · have htitle : Envelope.title ⟨6682, [], by decide, by decide⟩ = "6682 [0x1a1a]" := by decide
    rw [hquoted, htitle]
    rfl
  · rcases hwarned with ⟨hkind, -⟩ | ⟨-, hwarning⟩
    · cases hkind
    · exact ⟨_, hwarning⟩
  · rw [hprinted', htwo, String.join_nil, String.append_empty]
  · rcases hnoted with ⟨-, hdebug⟩ | ⟨hkind, -⟩
    · exact ⟨_, hdebug⟩
    · cases hkind

end Decoder
end HelloExtensions
