import HelloExtensions.Proofs.Acceptance
import HelloExtensions.Proofs.Spelling

/-!
Spellings are read back in front of any bytes that are too few to go on with. The other way
round, whatever is read is spelled by as many bytes as were taken or by fewer: the part of an
item at the end of a list and the bytes behind the content of a region have no place in it. If
there is no such region, these are the very bytes that were taken.
-/
namespace HelloExtensions

open Reading

section

variable {scope : Value} {n : Nat} {number : Int}

/-- Items that are spelled one behind the other are read one after the other. -/
theorem readAll_append_of_spellsAll {item : Schema} {scope : Value}
    (hitem : ∀ given read b rest, item.Spells n number given read b →
      item.decode scope (b ++ rest) = .ok (read, rest))
    (hpos : 0 < item.least) {rest : List UInt8} (hrest : rest.length < item.least)
    {given read : List Value} {b : List UInt8} (h : item.SpellsAll n number given read b) :
    readAll (item.decode scope) (b ++ rest) = (read, rest) := by
  have shrinks : ∀ bytes v r, item.decode scope bytes = .ok (v, r) → r.length < bytes.length := by
    intro bytes v r hdecode
    exact item.length_lt_of_decode hpos hdecode
  induction given generalizing read b with
  | nil =>
    cases h
    obtain ⟨fault, hfault⟩ := item.exists_fault_of_length_lt hrest scope
    exact readAll_of_error hfault
  | cons first givens ih =>
    cases h with
    | cons hfirst hothers =>
      rw [List.append_assoc, readAll_of_ok shrinks (hitem _ _ _ _ hfirst), ih hothers]

mutual

/-- What is spelled is read back, and the bytes behind it are left. -/
theorem Schema.decode_append_of_spells (h : Scope.Answers scope n number) (hcap : n < 65536)
    (schema : Schema) (depth : Nat) (hout : schema.refersOut depth = true)
    (horderly : schema.orderly = true) {given read : Value} {b : List UInt8}
    (hspells : schema.Spells n number given read b) (rest : List UInt8)
    (hrest : Tolerates schema.slack rest.length) :
    schema.decode (Scope.nested scope depth) (b ++ rest) = .ok (read, rest) := by
  cases hspells with
  | @uint width m _ hgiven hm =>
    refine (Schema.decode_uint_eq_ok_iff _ _ _ _ _).mpr ⟨?_, ?_, ?_⟩
    · simp only [List.length_append, BigEndian.length_encode]
      omega
    · rw [leading_encode_append hm]
    · exact (List.drop_left' (BigEndian.length_encode _ _)).symm
  | @code registry m _ hgiven hm =>
    refine (Schema.decode_code_eq_ok_iff _ _ _ _ _).mpr ⟨?_, ?_, ?_⟩
    · simp only [List.length_append, BigEndian.length_encode]
      omega
    · rw [leading_encode_append hm]
    · exact (List.drop_left' (BigEndian.length_encode _ _)).symm
  | rest =>
    have hnil : rest.length < 1 := (tolerates_some_iff _ _).mp hrest
    rw [List.eq_nil_of_length_eq_zero (Nat.lt_one_iff.mp hnil), List.append_nil, Schema.decode]
  | @bytes up less _ hlength =>
    simp only [Schema.refersOut, beq_iff_eq] at hout
    subst up
    have hsize : ((n : Int) - less) = (b.length : Nat) := by omega
    rw [Schema.decode, Scope.remaining_of_length (h.length_nested depth), hsize]
    show (takeAmount (.whole b.length) (b ++ rest) >>= _) = _
    rw [Acceptance.takeAmount_whole (by omega), takeBytes_append]
    rfl
  | @region width content _ _ inner hcontent hb =>
    simp only [Schema.orderly, Bool.and_eq_true] at horderly
    rw [Schema.refersOut] at hout
    have hinner := Schema.decode_append_of_spells h hcap content depth hout horderly.1 hcontent []
      (tolerates_nothing horderly.2)
    rw [List.append_nil] at hinner
    rw [List.append_assoc]
    refine (Schema.decode_region_eq_ok_iff _ _ _ _ _ _).mpr
      ⟨delimits_encode_append hb rest, (behind_encode_append hb rest).symm, [], ?_⟩
    rw [delimited_encode_append hb rest]
    exact hinner
  | @many item _ _ _ hitems =>
    simp only [Schema.orderly, Bool.and_eq_true, Option.isNone_iff_eq_none,
      decide_eq_true_eq] at horderly
    obtain ⟨⟨hitem, hslack⟩, hpos⟩ := horderly
    rw [Schema.refersOut] at hout
    have hshort := (tolerates_some_iff _ _).mp hrest
    rw [Schema.decode, readAll_append_of_spellsAll ?_ hpos hshort hitems]
    intro g r c behind hspells
    exact Schema.decode_append_of_spells h hcap item depth hout hitem hspells behind
      (hslack ▸ tolerates_none _)
  | @single item _ _ _ hitem =>
    rw [Schema.refersOut] at hout
    rw [Schema.orderly] at horderly
    have hread := Schema.decode_append_of_spells h hcap item depth hout horderly hitem rest hrest
    rw [Schema.decode, hread]
    rfl
  | @present content _ _ _ hcontent =>
    simp only [Schema.orderly, Bool.and_eq_true, Option.isNone_iff_eq_none] at horderly
    rw [Schema.refersOut] at hout
    obtain ⟨⟨⟨horderly, hslack⟩, -⟩, -⟩ := horderly
    have hread := Schema.decode_append_of_spells h hcap content depth hout horderly hcontent rest
      (hslack ▸ tolerates_none _)
    rw [Schema.decode, hread]
  | absent content =>
    obtain ⟨fault, hfault⟩ := content.exists_fault_of_length_lt
      ((tolerates_some_iff _ _).mp hrest) (Scope.nested scope depth)
    rw [Schema.decode, List.nil_append, hfault]
  | @passed up test content _ _ _ htest hcontent =>
    simp only [Schema.refersOut, Bool.and_eq_true, beq_iff_eq] at hout
    obtain ⟨rfl, hout⟩ := hout
    rw [Schema.orderly] at horderly
    rw [Schema.decode_onlyIf_of_length (h.length_nested up), if_pos htest]
    exact Schema.decode_append_of_spells h hcap content up hout horderly hcontent rest hrest
  | @failed up test content htest =>
    simp only [Schema.refersOut, Bool.and_eq_true, beq_iff_eq] at hout
    obtain ⟨rfl, -⟩ := hout
    rw [Schema.decode_onlyIf_of_length (h.length_nested up), if_neg htest]
    rfl
  | @yes up test yes no _ _ _ htest hyes =>
    simp only [Schema.refersOut, Bool.and_eq_true, beq_iff_eq] at hout
    obtain ⟨⟨rfl, hout⟩, -⟩ := hout
    simp only [Schema.orderly, Bool.and_eq_true] at horderly
    rw [Schema.decode_ifElse_of_length (h.length_nested up), if_pos htest]
    exact Schema.decode_append_of_spells h hcap yes up hout horderly.1 hyes rest
      ((tolerates_tighter_iff _ _ _).mp hrest).1
  | @no up test yes no _ _ _ htest hno =>
    simp only [Schema.refersOut, Bool.and_eq_true, beq_iff_eq] at hout
    obtain ⟨⟨rfl, -⟩, hout⟩ := hout
    simp only [Schema.orderly, Bool.and_eq_true] at horderly
    rw [Schema.decode_ifElse_of_length (h.length_nested up), if_neg htest]
    exact Schema.decode_append_of_spells h hcap no up hout horderly.2 hno rest
      ((tolerates_tighter_iff _ _ _).mp hrest).2
  | @record fields _ _ _ hnames hfields =>
    simp only [Schema.orderly, Bool.and_eq_true] at horderly
    rw [Schema.refersOut] at hout
    refine (Schema.decode_record_eq_ok_iff _ _ _ _ _).mpr ⟨_, ?_, rfl⟩
    exact Fields.decode_append_of_spells h hcap fields (depth + 1) hout horderly.1 hfields rest
      hrest

theorem Fields.decode_append_of_spells (h : Scope.Answers scope n number) (hcap : n < 65536)
    (fields : Fields) (depth : Nat) (hout : fields.refersOut depth = true)
    (horderly : fields.orderly = true) {given read : List (String × Value)} {b : List UInt8}
    (hspells : fields.Spells n number given read b) (rest : List UInt8)
    (hrest : Tolerates fields.slack rest.length) :
    fields.decode (Scope.nested scope depth) (b ++ rest) = .ok (read, rest) := by
  cases hspells with
  | done => rw [Fields.decode, List.nil_append]
  | @label _ _ name text more _ hmore =>
    rw [Fields.refersOut] at hout
    rw [Fields.orderly] at horderly
    refine (Fields.decode_label_eq_ok_iff _ _ _ _ _ _ _).mpr ⟨_, ?_, rfl⟩
    exact Fields.decode_append_of_spells h hcap more depth hout horderly hmore rest hrest
  | @typeNumber _ _ name more _ hmore =>
    simp only [Fields.refersOut, Bool.and_eq_true, beq_iff_eq] at hout
    obtain ⟨rfl, hout⟩ := hout
    rw [Fields.orderly] at horderly
    have hnumber : Scope.typeNumber (Scope.nested scope 1) = .ok number := h.number_eq
    rw [Fields.decode, hnumber]
    show (more.decode _ _ >>= _) = _
    rw [Fields.decode_append_of_spells h hcap more 1 hout horderly hmore rest hrest]
    rfl
  | @check _ _ test more _ htest hmore =>
    simp only [Fields.refersOut, Bool.and_eq_true, beq_iff_eq] at hout
    obtain ⟨rfl, hout⟩ := hout
    rw [Fields.orderly] at horderly
    rw [Fields.decode_check_of_length (h.length_nested 1), if_pos htest]
    exact Fields.decode_append_of_spells h hcap more 1 hout horderly hmore rest hrest
  | @field _ _ name schema more _ _ first others hfound hfield hmore =>
    simp only [Fields.refersOut, Bool.and_eq_true] at hout
    simp only [Fields.orderly, Bool.and_eq_true, Bool.or_eq_true,
      Option.isNone_iff_eq_none] at horderly
    obtain ⟨⟨hschema, horderly⟩, hlast⟩ := horderly
    obtain ⟨hfirst, hothers⟩ := (tolerates_tighter_iff _ _ _).mp hrest
    rw [List.append_assoc]
    refine (Fields.decode_field_eq_ok_iff _ _ _ _ _ _ _).mpr ⟨_, others ++ rest, ?_, _, ?_, rfl⟩
    · refine Schema.decode_append_of_spells h hcap schema depth hout.1 hschema hfield _ ?_
      rcases hlast with hslack | hdone
      · exact hslack ▸ tolerates_none _
      · cases more <;> cases hdone
        cases hmore
        exact hfirst
    · exact Fields.decode_append_of_spells h hcap more depth hout.2 horderly hmore rest hothers

end

end

mutual

/-- The numbers of codes come from well-formed registries. -/
def Schema.WellNumbered : Schema → Prop
  | .uint _ => True
  | .code registry => registry.WellFormed
  | .rest => True
  | .bytes _ _ => True
  | .region _ content => content.WellNumbered
  | .many item => item.WellNumbered
  | .single item => item.WellNumbered
  | .optional content => content.WellNumbered
  | .onlyIf _ _ content => content.WellNumbered
  | .ifElse _ _ yes no => yes.WellNumbered ∧ no.WellNumbered
  | .record fields => fields.WellNumbered

def Fields.WellNumbered : Fields → Prop
  | .done => True
  | .label _ _ more => more.WellNumbered
  | .typeNumber _ more => more.WellNumbered
  | .check _ more => more.WellNumbered
  | .field _ schema more => schema.WellNumbered ∧ more.WellNumbered

end

def Schema.isRest : Schema → Bool
  | .rest => true
  | _ => false

mutual

/-- All regions are of bytes, so that nothing is passed over. -/
def Schema.exact : Schema → Bool
  | .uint _ => true
  | .code _ => true
  | .rest => true
  | .bytes _ _ => true
  | .region _ content => content.isRest
  | .many item => item.exact
  | .single item => item.exact
  | .optional content => content.exact
  | .onlyIf _ _ content => content.exact
  | .ifElse _ _ yes no => yes.exact && no.exact
  | .record fields => fields.exact

def Fields.exact : Fields → Bool
  | .done => true
  | .label _ _ more => more.exact
  | .typeNumber _ more => more.exact
  | .check _ more => more.exact
  | .field _ schema more => schema.exact && more.exact

end

theorem eq_append_of_takeAmount {n less : Nat} {bytes front rest : List UInt8}
    (h : takeAmount (.whole ((n : Int) - less)) bytes = .ok (front, rest)) :
    front.length + less = n ∧ bytes = front ++ rest := by
  unfold takeAmount at h
  split at h
  · cases h
  · next hbelow =>
    simp only [Amount.isBelow, decide_eq_true_eq] at hbelow
    dsimp only at h
    split at h
    · cases h
    · obtain ⟨hbytes, hlength⟩ := takeBytes_eq_ok_iff.mp h
      exact ⟨by omega, hbytes⟩

theorem Registry.denotes_codePoint {registry : Registry} (h : registry.WellFormed) (n : Nat) :
    registry.Denotes (.code (registry.codePoint n)) n := by
  unfold Registry.Denotes Registry.codePoint
  cases hname : registry.name? n with
  | none => exact .inl rfl
  | some name => exact .inr ⟨name, rfl, (Registry.number?_eq_some_iff_name? h).mpr hname⟩

/-- The bytes `b` are no more than were taken, and the same ones if nothing was passed over. -/
structure Respells (exact : Bool) (b rest bytes : List UInt8) : Prop where
  length_le : b.length + rest.length ≤ bytes.length
  bytes_eq : exact = true → bytes = b ++ rest

theorem respells_of_eq {b rest bytes : List UInt8} (h : bytes = b ++ rest) (exact : Bool) :
    Respells exact b rest bytes :=
  ⟨Nat.le_of_eq (by rw [h, List.length_append]), fun _ => h⟩

theorem Respells.append {x y : Bool} {b c left rest bytes : List UInt8}
    (hfirst : Respells x b left bytes) (hsecond : Respells y c rest left) :
    Respells (x && y) (b ++ c) rest bytes where
  length_le := by
    have hb := hfirst.length_le
    have hc := hsecond.length_le
    rw [List.length_append]
    omega
  bytes_eq h := by
    simp only [Bool.and_eq_true] at h
    rw [hfirst.bytes_eq h.1, hsecond.bytes_eq h.2, List.append_assoc]

theorem Respells.weaken {x y : Bool} {b rest bytes : List UInt8} (h : Respells x b rest bytes)
    (hxy : y = true → x = true) : Respells y b rest bytes :=
  ⟨h.length_le, fun hy => h.bytes_eq (hxy hy)⟩

/-- A region is respelled with a new length, unless it is taken as it is. -/
theorem Respells.region {x y : Bool} {b left bytes : List UInt8} {width : Nat}
    (hdelimits : Delimits width bytes) (h : Respells x b left (delimited width bytes))
    (hwhole : y = true → x = true ∧ left = []) :
    Respells y (BigEndian.encode width b.length ++ b) (behind width bytes) bytes where
  length_le := by
    have hle := h.length_le
    rw [length_delimited hdelimits] at hle
    obtain ⟨hwidth, hfit⟩ := hdelimits
    simp only [List.length_append, BigEndian.length_encode, behind, List.length_drop]
    omega
  bytes_eq hy := by
    obtain ⟨hx, rfl⟩ := hwhole hy
    have hb := h.bytes_eq hx
    rw [List.append_nil] at hb
    rw [← hb]
    exact split_of_delimits hdelimits

/-- The loop over a list takes items that are spelled one behind the other. -/
theorem exists_spellsAll_of_readAll {item : Schema} {scope : Value} {n : Nat} {number : Int}
    (hitem : ∀ bytes value rest, item.decode scope bytes = .ok (value, rest) →
      ∃ b, item.Spells n number value value b ∧ Respells item.exact b rest bytes)
    (hpos : 0 < item.least) (bytes : List UInt8) :
    ∃ b, item.SpellsAll n number (readAll (item.decode scope) bytes).1
        (readAll (item.decode scope) bytes).1 b ∧
      Respells item.exact b (readAll (item.decode scope) bytes).2 bytes := by
  induction hlength : bytes.length using Nat.strongRecOn generalizing bytes with
  | ind k ih =>
    subst hlength
    cases hdecode : item.decode scope bytes with
    | error fault =>
      rw [readAll_of_error hdecode]
      exact ⟨[], .nil item, respells_of_eq rfl _⟩
    | ok result =>
      obtain ⟨value, rest⟩ := result
      have hlt := item.length_lt_of_decode hpos hdecode
      obtain ⟨b, hb, hfirst⟩ := hitem bytes value rest hdecode
      obtain ⟨c, hc, hothers⟩ := ih rest.length hlt rest rfl
      rw [readAll_of_ok (fun _ _ _ h => item.length_lt_of_decode hpos h) hdecode]
      exact ⟨b ++ c, .cons hb hc, (hfirst.append hothers).weaken (by simp)⟩

theorem Fields.keys_of_decode (fields : Fields) {scope : Value} {bytes rest : List UInt8}
    {entries : List (String × Value)} (h : fields.decode scope bytes = .ok (entries, rest)) :
    Entries.keys entries = fields.names := by
  cases fields with
  | done =>
    rw [Fields.decode] at h
    cases h
    rfl
  | label name text more =>
    obtain ⟨others, hmore, rfl⟩ := (Fields.decode_label_eq_ok_iff _ _ _ _ _ _ _).mp h
    exact congrArg (name :: ·) (Fields.keys_of_decode more hmore)
  | typeNumber name more =>
    simp only [Fields.decode, bind_eq_ok_iff, Prod.exists] at h
    obtain ⟨number, -, others, left, hmore, hpure⟩ := h
    cases hpure
    exact congrArg (name :: ·) (Fields.keys_of_decode more hmore)
  | check test more =>
    simp only [Fields.decode, bind_eq_ok_iff] at h
    obtain ⟨length, -, holds, -, hmore⟩ := h
    split at hmore
    · exact Fields.keys_of_decode more hmore
    · cases hmore
  | field name schema more =>
    obtain ⟨value, left, -, others, hmore, rfl⟩ :=
      (Fields.decode_field_eq_ok_iff _ _ _ _ _ _ _).mp h
    exact congrArg (name :: ·) (Fields.keys_of_decode more hmore)

section

variable {scope : Value} {n : Nat} {number : Int}

mutual

/-- What is read is spelled, by bytes that say nothing that was passed over. -/
theorem Schema.exists_spells_of_decode (h : Scope.Answers scope n number) (schema : Schema)
    (depth : Nat) (hout : schema.refersOut depth = true) (horderly : schema.orderly = true)
    (hnumbered : schema.WellNumbered) {bytes rest : List UInt8} {value : Value}
    (hdecode : schema.decode (Scope.nested scope depth) bytes = .ok (value, rest)) :
    ∃ b, schema.Spells n number value value b ∧ Respells schema.exact b rest bytes := by
  cases schema with
  | uint width =>
    obtain ⟨hle, rfl, rfl⟩ := (Schema.decode_uint_eq_ok_iff _ _ _ _ _).mp hdecode
    refine ⟨_, .uint rfl (leading_lt hle), respells_of_eq ?_ _⟩
    rw [encode_leading hle, List.take_append_drop]
  | code registry =>
    obtain ⟨hle, rfl, rfl⟩ := (Schema.decode_code_eq_ok_iff _ _ _ _ _).mp hdecode
    refine ⟨_, .code (Registry.denotes_codePoint hnumbered _) (leading_lt hle), respells_of_eq ?_ _⟩
    rw [encode_leading hle, List.take_append_drop]
  | rest =>
    rw [Schema.decode] at hdecode
    cases hdecode
    exact ⟨bytes, .rest bytes, respells_of_eq (List.append_nil bytes).symm _⟩
  | bytes up less =>
    simp only [Schema.refersOut, beq_iff_eq] at hout
    subst up
    simp only [Schema.decode, Scope.remaining_of_length (h.length_nested depth), bind_eq_ok_iff,
      Except.ok.injEq, exists_eq_left', Prod.exists] at hdecode
    obtain ⟨content, left, htake, hpure⟩ := hdecode
    cases hpure
    obtain ⟨hlength, hbytes⟩ := eq_append_of_takeAmount htake
    exact ⟨content, .bytes hlength, respells_of_eq hbytes _⟩
  | region width content =>
    obtain ⟨hdelimits, rfl, left, hcontent⟩ :=
      (Schema.decode_region_eq_ok_iff _ _ _ _ _ _).mp hdecode
    rw [Schema.refersOut] at hout
    simp only [Schema.orderly, Bool.and_eq_true] at horderly
    obtain ⟨b, hb, hrespells⟩ :=
      Schema.exists_spells_of_decode h content depth hout horderly.1 hnumbered hcontent
    have hle := hrespells.length_le
    have hlt := leading_lt hdelimits.1
    rw [length_delimited hdelimits] at hle
    refine ⟨_, .region hb (by omega), hrespells.region hdelimits fun hrest => ?_⟩
    cases content <;> cases hrest
    rw [Schema.decode] at hcontent
    cases hcontent
    exact ⟨rfl, rfl⟩
  | many item =>
    simp only [Schema.orderly, Bool.and_eq_true, decide_eq_true_eq] at horderly
    rw [Schema.decode] at hdecode
    cases hdecode
    obtain ⟨b, hb, hrespells⟩ := exists_spellsAll_of_readAll
      (fun _ _ _ hitem =>
        Schema.exists_spells_of_decode h item depth hout horderly.1.1 hnumbered hitem)
      horderly.2 bytes
    exact ⟨b, .many hb, hrespells⟩
  | single item =>
    simp only [Schema.decode, bind_eq_ok_iff, Prod.exists] at hdecode
    obtain ⟨v, left, hitem, hpure⟩ := hdecode
    cases hpure
    obtain ⟨b, hb, hrespells⟩ :=
      Schema.exists_spells_of_decode h item depth hout horderly hnumbered hitem
    exact ⟨b, .single hb, hrespells⟩
  | optional content =>
    simp only [Schema.orderly, Bool.and_eq_true] at horderly
    rw [Schema.decode] at hdecode
    split at hdecode
    · next result hcontent =>
      cases hdecode
      obtain ⟨b, hb, hrespells⟩ :=
        Schema.exists_spells_of_decode h content depth hout horderly.1.1.1 hnumbered hcontent
      exact ⟨b, .present hb, hrespells⟩
    · cases hdecode
      exact ⟨[], .absent content, respells_of_eq rfl _⟩
  | onlyIf up test content =>
    simp only [Schema.refersOut, Bool.and_eq_true, beq_iff_eq] at hout
    obtain ⟨rfl, hout⟩ := hout
    rw [Schema.decode_onlyIf_of_length (h.length_nested up)] at hdecode
    split at hdecode
    · next htest =>
      obtain ⟨b, hb, hrespells⟩ :=
        Schema.exists_spells_of_decode h content up hout horderly hnumbered hdecode
      exact ⟨b, .passed htest hb, hrespells⟩
    · next htest =>
      cases hdecode
      exact ⟨[], .failed htest, respells_of_eq rfl _⟩
  | ifElse up test yes no =>
    simp only [Schema.refersOut, Bool.and_eq_true, beq_iff_eq] at hout
    obtain ⟨⟨rfl, hyes⟩, hno⟩ := hout
    simp only [Schema.orderly, Bool.and_eq_true] at horderly
    rw [Schema.decode_ifElse_of_length (h.length_nested up)] at hdecode
    split at hdecode
    · next htest =>
      obtain ⟨b, hb, hrespells⟩ :=
        Schema.exists_spells_of_decode h yes up hyes horderly.1 hnumbered.1 hdecode
      exact ⟨b, .yes htest hb, hrespells.weaken fun hexact => (Bool.and_eq_true_iff.mp hexact).1⟩
    · next htest =>
      obtain ⟨b, hb, hrespells⟩ :=
        Schema.exists_spells_of_decode h no up hno horderly.2 hnumbered.2 hdecode
      exact ⟨b, .no htest hb, hrespells.weaken fun hexact => (Bool.and_eq_true_iff.mp hexact).2⟩
  | record fields =>
    simp only [Schema.orderly, Bool.and_eq_true, decide_eq_true_eq] at horderly
    obtain ⟨horderly, hdistinct, -⟩ := horderly
    obtain ⟨entries, hfields, rfl⟩ := (Schema.decode_record_eq_ok_iff _ _ _ _ _).mp hdecode
    have hkeys := fields.keys_of_decode hfields
    obtain ⟨b, hb, hrespells⟩ := Fields.exists_spells_of_decode h fields (depth + 1) hout horderly
      hnumbered hfields entries fun entry hentry =>
        (Entries.lookup_eq_some_iff (hkeys ▸ hdistinct)).mpr hentry
    refine ⟨b, .record (fun entry hentry => ?_) hb, hrespells⟩
    rw [← hkeys]
    exact List.mem_map_of_mem hentry

/-- The fields that are read may be looked up in a record that has more of them. -/
theorem Fields.exists_spells_of_decode (h : Scope.Answers scope n number) (fields : Fields)
    (depth : Nat) (hout : fields.refersOut depth = true) (horderly : fields.orderly = true)
    (hnumbered : fields.WellNumbered) {bytes rest : List UInt8}
    {entries : List (String × Value)}
    (hdecode : fields.decode (Scope.nested scope depth) bytes = .ok (entries, rest))
    (given : List (String × Value))
    (hgiven : ∀ entry ∈ entries, given.lookup entry.1 = some entry.2) :
    ∃ b, fields.Spells n number given entries b ∧ Respells fields.exact b rest bytes := by
  cases fields with
  | done =>
    rw [Fields.decode] at hdecode
    cases hdecode
    exact ⟨[], .done given, respells_of_eq rfl _⟩
  | label name text more =>
    obtain ⟨others, hmore, rfl⟩ := (Fields.decode_label_eq_ok_iff _ _ _ _ _ _ _).mp hdecode
    obtain ⟨b, hb, hrespells⟩ := Fields.exists_spells_of_decode h more depth hout horderly
      hnumbered hmore given fun entry hentry => hgiven entry (List.mem_cons_of_mem _ hentry)
    exact ⟨b, .label hb, hrespells⟩
  | typeNumber name more =>
    simp only [Fields.refersOut, Bool.and_eq_true, beq_iff_eq] at hout
    obtain ⟨rfl, hout⟩ := hout
    have hnumber : Scope.typeNumber (Scope.nested scope 1) = .ok number := h.number_eq
    simp only [Fields.decode, hnumber, bind_eq_ok_iff, Except.ok.injEq, exists_eq_left',
      Prod.exists] at hdecode
    obtain ⟨others, left, hmore, hpure⟩ := hdecode
    cases hpure
    obtain ⟨b, hb, hrespells⟩ := Fields.exists_spells_of_decode h more 1 hout horderly
      hnumbered hmore given fun entry hentry => hgiven entry (List.mem_cons_of_mem _ hentry)
    exact ⟨b, .typeNumber hb, hrespells⟩
  | check test more =>
    simp only [Fields.refersOut, Bool.and_eq_true, beq_iff_eq] at hout
    obtain ⟨rfl, hout⟩ := hout
    rw [Fields.decode_check_of_length (h.length_nested 1)] at hdecode
    split at hdecode
    · next htest =>
      obtain ⟨b, hb, hrespells⟩ :=
        Fields.exists_spells_of_decode h more 1 hout horderly hnumbered hdecode given hgiven
      exact ⟨b, .check htest hb, hrespells⟩
    · cases hdecode
  | field name schema more =>
    simp only [Fields.refersOut, Bool.and_eq_true] at hout
    simp only [Fields.orderly, Bool.and_eq_true] at horderly
    obtain ⟨value, left, hfield, others, hmore, rfl⟩ :=
      (Fields.decode_field_eq_ok_iff _ _ _ _ _ _ _).mp hdecode
    obtain ⟨b, hb, hfirst⟩ := Schema.exists_spells_of_decode h schema depth hout.1 horderly.1.1
      hnumbered.1 hfield
    obtain ⟨c, hc, hothers⟩ := Fields.exists_spells_of_decode h more depth hout.2 horderly.1.2
      hnumbered.2 hmore given fun entry hentry => hgiven entry (List.mem_cons_of_mem _ hentry)
    exact ⟨b ++ c, .field (hgiven _ List.mem_cons_self) hb hc, hfirst.append hothers⟩

end

end

end HelloExtensions
