import HelloExtensions.Proofs.ReadingScope

/-!
Forms of the items of lists: the bytes of each item and the value that it is read into. No item
starts with the bytes of another one, so bytes are tiled by items up to a leftover that starts
no item in one way only, and that leftover is cut off inside an item. A list that is read by the
schema of its items stops exactly there.
-/
namespace HelloExtensions

open Reading

structure ItemForm where
  Item : Type
  bytes : Item → List UInt8
  value : Item → Value
  bytes_ne_nil : ∀ item, bytes item ≠ []
  item_eq : ∀ {a b : Item} {r s : List UInt8}, bytes a ++ r = bytes b ++ s → a = b
  whole_or_cut : ∀ front : List UInt8, (∃ item rest, front = bytes item ++ rest) ∨
    ∃ item rest, rest ≠ [] ∧ bytes item = front ++ rest

namespace ItemForm

variable (form : ItemForm)

/-- An item is at the front of the bytes, with all that belongs to it. -/
def Starts (bytes : List UInt8) : Prop :=
  ∃ (item : form.Item) (rest : List UInt8), bytes = form.bytes item ++ rest

/-- The bytes are the start of an item, without the end of it. -/
def Cut (bytes : List UInt8) : Prop :=
  ∃ (item : form.Item) (rest : List UInt8), rest ≠ [] ∧ form.bytes item = bytes ++ rest

/-- The bytes are those of the items one after the other, and a leftover that starts no item. -/
def Tiles (items : List form.Item) (leftover bytes : List UInt8) : Prop :=
  bytes = items.flatMap form.bytes ++ leftover ∧ ¬ form.Starts leftover

variable {form}

theorem length_lt_append (item : form.Item) (rest : List UInt8) :
    rest.length < (form.bytes item ++ rest).length := by
  have hpos : 0 < (form.bytes item).length := List.length_pos_iff.mpr (form.bytes_ne_nil item)
  rw [List.length_append]
  omega

/-- What starts no item is cut off inside one, at its very start perhaps. -/
theorem not_starts_iff_cut (bytes : List UInt8) : ¬ form.Starts bytes ↔ form.Cut bytes := by
  constructor
  · exact (form.whole_or_cut bytes).resolve_left
  · intro hcut hstarts
    obtain ⟨item, rest, hne, hitem⟩ := hcut
    obtain ⟨other, behind, rfl⟩ := hstarts
    rw [List.append_assoc, ← List.append_nil (form.bytes item)] at hitem
    obtain rfl := form.item_eq hitem
    have hnil := List.append_cancel_left hitem
    exact hne (List.append_eq_nil_iff.mp hnil.symm).2

theorem tiles_nil {bytes : List UInt8} (h : ¬ form.Starts bytes) : form.Tiles [] bytes bytes :=
  ⟨rfl, h⟩

theorem tiles_cons {items : List form.Item} {leftover bytes : List UInt8}
    (h : form.Tiles items leftover bytes) (item : form.Item) :
    form.Tiles (item :: items) leftover (form.bytes item ++ bytes) := by
  obtain ⟨hbytes, hleftover⟩ := h
  refine ⟨?_, hleftover⟩
  rw [hbytes, List.flatMap_cons, List.append_assoc]

/-- Bytes that are tiled by a first item and others are that item and what the others tile. -/
theorem exists_of_tiles_cons {item : form.Item} {items : List form.Item}
    {leftover bytes : List UInt8} (h : form.Tiles (item :: items) leftover bytes) :
    ∃ rest, bytes = form.bytes item ++ rest ∧ form.Tiles items leftover rest := by
  obtain ⟨hbytes, hleftover⟩ := h
  rw [List.flatMap_cons, List.append_assoc] at hbytes
  exact ⟨_, hbytes, rfl, hleftover⟩

theorem exists_tiles (bytes : List UInt8) :
    ∃ items leftover, form.Tiles items leftover bytes := by
  induction hlength : bytes.length using Nat.strongRecOn generalizing bytes with
  | ind n ih =>
    subst hlength
    by_cases hstarts : form.Starts bytes
    · obtain ⟨item, rest, rfl⟩ := hstarts
      obtain ⟨items, leftover, htiles⟩ := ih rest.length (length_lt_append item rest) rest rfl
      exact ⟨item :: items, leftover, tiles_cons htiles item⟩
    · exact ⟨[], bytes, tiles_nil hstarts⟩

theorem tiles_unique {a b : List form.Item} {s t bytes : List UInt8}
    (ha : form.Tiles a s bytes) (hb : form.Tiles b t bytes) : a = b ∧ s = t := by
  induction a generalizing b bytes with
  | nil =>
    obtain ⟨rfl, hs⟩ := ha
    cases b with
    | nil => exact ⟨rfl, hb.1⟩
    | cons item b =>
      obtain ⟨rest, hrest, -⟩ := exists_of_tiles_cons hb
      exact absurd ⟨item, rest, hrest⟩ hs
  | cons item a ih =>
    obtain ⟨rest, rfl, hrest⟩ := exists_of_tiles_cons ha
    cases b with
    | nil => exact absurd ⟨item, rest, hb.1.symm⟩ hb.2
    | cons other b =>
      obtain ⟨others, hothers, htiles⟩ := exists_of_tiles_cons hb
      obtain rfl := form.item_eq hothers
      obtain rfl := List.append_cancel_left hothers
      obtain ⟨rfl, rfl⟩ := ih hrest htiles
      exact ⟨rfl, rfl⟩

/-- At the front of any bytes the schema reads the items of the form and nothing else. -/
structure ReadBy (form : ItemForm) (schema : Schema) (scope : Value) : Prop where
  decode_append : ∀ item rest,
    schema.decode scope (form.bytes item ++ rest) = .ok (form.value item, rest)
  starts : ∀ bytes value rest, schema.decode scope bytes = .ok (value, rest) → form.Starts bytes

namespace ReadBy

variable {schema : Schema} {scope : Value}

theorem length_lt (h : form.ReadBy schema scope) (bytes : List UInt8) (value : Value)
    (rest : List UInt8) (hdecode : schema.decode scope bytes = .ok (value, rest)) :
    rest.length < bytes.length := by
  obtain ⟨item, left, rfl⟩ := h.starts bytes value rest hdecode
  rw [h.decode_append] at hdecode
  cases hdecode
  exact length_lt_append item _

theorem exists_fault (h : form.ReadBy schema scope) {bytes : List UInt8}
    (hnot : ¬ form.Starts bytes) : ∃ fault, schema.decode scope bytes = .error fault := by
  cases hdecode : schema.decode scope bytes with
  | error fault => exact ⟨fault, rfl⟩
  | ok result => exact absurd (h.starts bytes result.1 result.2 hdecode) hnot

/-- The loop over a list takes the items that tile the bytes and stops at the leftover. -/
theorem readAll_of_tiles (h : form.ReadBy schema scope) {items : List form.Item}
    {leftover bytes : List UInt8} (htiles : form.Tiles items leftover bytes) :
    readAll (schema.decode scope) bytes = (items.map form.value, leftover) := by
  induction items generalizing bytes with
  | nil =>
    obtain ⟨rfl, hleftover⟩ := htiles
    obtain ⟨fault, hfault⟩ := h.exists_fault hleftover
    exact readAll_of_error hfault
  | cons item items ih =>
    obtain ⟨rest, rfl, hrest⟩ := exists_of_tiles_cons htiles
    rw [readAll_of_ok h.length_lt (h.decode_append item rest), ih hrest, List.map_cons]

theorem decode_many_of_tiles (h : form.ReadBy schema scope) {items : List form.Item}
    {leftover bytes : List UInt8} (htiles : form.Tiles items leftover bytes) :
    (Schema.many schema).decode scope bytes =
      .ok (.list (items.map form.value), leftover) := by
  rw [Schema.decode, h.readAll_of_tiles htiles]

end ReadBy

theorem exists_word {width : Nat} {bytes : List UInt8} (h : width ≤ bytes.length) :
    ∃ (n : Fin (BigEndian.capacity width)) (rest : List UInt8),
      bytes = BigEndian.encode width n ++ rest := by
  refine ⟨⟨leading width bytes, leading_lt h⟩, bytes.drop width, ?_⟩
  rw [encode_leading h, List.take_append_drop]

theorem exists_word_of_lt {width : Nat} {bytes : List UInt8} (h : bytes.length < width) :
    ∃ (n : Fin (BigEndian.capacity width)) (rest : List UInt8),
      rest ≠ [] ∧ BigEndian.encode width n = bytes ++ rest := by
  let filled := bytes ++ List.replicate (width - bytes.length) 0
  have hlength : filled.length = width := by
    simp only [filled, List.length_append, List.length_replicate]
    omega
  have hlt := BigEndian.decode_lt filled
  have hencode := BigEndian.encode_decode filled
  rw [hlength] at hlt hencode
  refine ⟨⟨BigEndian.decode filled, hlt⟩, _, ?_, hencode⟩
  intro hnil
  have hcount := congrArg List.length hnil
  rw [List.length_replicate, List.length_nil] at hcount
  omega

theorem exists_sized {width : Nat} {bytes : List UInt8} (h : Delimits width bytes) :
    ∃ content : { content : List UInt8 // content.length < BigEndian.capacity width },
      bytes = BigEndian.encode width content.val.length ++ content.val ++ behind width bytes := by
  have hlt : (delimited width bytes).length < BigEndian.capacity width := by
    rw [length_delimited h]
    exact leading_lt h.1
  exact ⟨⟨delimited width bytes, hlt⟩, split_of_delimits h⟩

theorem exists_sized_of_not_delimits {width : Nat} {bytes : List UInt8}
    (h : ¬ Delimits width bytes) :
    ∃ (content : { content : List UInt8 // content.length < BigEndian.capacity width })
        (rest : List UInt8), rest ≠ [] ∧
        BigEndian.encode width content.val.length ++ content.val = bytes ++ rest := by
  by_cases hle : width ≤ bytes.length
  · have hshort : (bytes.drop width).length < leading width bytes := by
      rw [List.length_drop]
      exact Nat.lt_of_not_le fun hfit => h ⟨hle, hfit⟩
    let missing := List.replicate (leading width bytes - (bytes.drop width).length) (0 : UInt8)
    have hlength : (bytes.drop width ++ missing).length = leading width bytes := by
      simp only [missing, List.length_append, List.length_replicate]
      omega
    refine ⟨⟨bytes.drop width ++ missing, hlength ▸ leading_lt hle⟩, missing, ?_, ?_⟩
    · intro hnil
      have hcount := congrArg List.length hnil
      simp only [missing, List.length_replicate, List.length_nil] at hcount
      omega
    · simp only [hlength]
      rw [encode_leading hle, ← List.append_assoc, List.take_append_drop]
  · obtain ⟨n, rest, hne, hencode⟩ := exists_word_of_lt (Nat.lt_of_not_le hle)
    refine ⟨⟨List.replicate n 0, by rw [List.length_replicate]; exact n.isLt⟩,
      rest ++ List.replicate n 0, ?_, ?_⟩
    · intro hnil
      exact hne (List.append_eq_nil_iff.mp hnil).1
    · simp only [List.length_replicate]
      rw [hencode, List.append_assoc]

/-- A number of a registry. -/
def word (registry : Registry) (hwidth : 0 < registry.width) : ItemForm where
  Item := Fin (BigEndian.capacity registry.width)
  bytes n := BigEndian.encode registry.width n
  value n := .code (registry.codePoint n)
  bytes_ne_nil n := by
    intro hnil
    have hlength := congrArg List.length hnil
    rw [BigEndian.length_encode] at hlength
    exact Nat.ne_of_gt hwidth hlength
  item_eq {a b r s} h := by
    have hencode := List.append_inj_left h (by simp only [BigEndian.length_encode])
    have hdecode := congrArg BigEndian.decode hencode
    rw [BigEndian.decode_encode a.isLt, BigEndian.decode_encode b.isLt] at hdecode
    exact Fin.ext hdecode
  whole_or_cut front := by
    by_cases hle : registry.width ≤ front.length
    · exact .inl (exists_word hle)
    · exact .inr (exists_word_of_lt (Nat.lt_of_not_le hle))

/-- Bytes after their length, which takes `width` bytes. -/
def sized (width : Nat) (hwidth : 0 < width) : ItemForm where
  Item := { content : List UInt8 // content.length < BigEndian.capacity width }
  bytes content := BigEndian.encode width content.val.length ++ content.val
  value content := .bytes content.val
  bytes_ne_nil content := by
    intro hnil
    have hlength := congrArg List.length hnil
    rw [List.length_append, BigEndian.length_encode, List.length_nil] at hlength
    omega
  item_eq {a b r s} h := by
    rw [List.append_assoc, List.append_assoc] at h
    obtain ⟨hencode, hrest⟩ := List.append_inj h (by simp only [BigEndian.length_encode])
    have hlength := congrArg BigEndian.decode hencode
    rw [BigEndian.decode_encode a.property, BigEndian.decode_encode b.property] at hlength
    exact Subtype.ext (List.append_inj_left hrest hlength)
  whole_or_cut front := by
    by_cases hdelimits : Delimits width front
    · obtain ⟨content, hfront⟩ := exists_sized hdelimits
      exact .inl ⟨content, _, hfront⟩
    · exact .inr (exists_sized_of_not_delimits hdelimits)

/-- A record of two fields. -/
def pair (first second : String) (a b : ItemForm) : ItemForm where
  Item := a.Item × b.Item
  bytes item := a.bytes item.1 ++ b.bytes item.2
  value item := .record [(first, a.value item.1), (second, b.value item.2)]
  bytes_ne_nil item := by
    intro hnil
    exact a.bytes_ne_nil item.1 (List.append_eq_nil_iff.mp hnil).1
  item_eq {x y r s} h := by
    rw [List.append_assoc, List.append_assoc] at h
    have hfirst := a.item_eq h
    rw [hfirst] at h
    have hsecond := b.item_eq (List.append_cancel_left h)
    exact Prod.ext hfirst hsecond
  whole_or_cut front := by
    rcases a.whole_or_cut front with ⟨x, rest, rfl⟩ | ⟨x, rest, hne, hx⟩
    · rcases b.whole_or_cut rest with ⟨y, behind, rfl⟩ | ⟨y, behind, hne, hy⟩
      · exact .inl ⟨(x, y), behind, (List.append_assoc _ _ _).symm⟩
      · exact .inr ⟨(x, y), behind, hne, by rw [hy, List.append_assoc]⟩
    · obtain ⟨y⟩ : Nonempty b.Item := by
        rcases b.whole_or_cut [] with ⟨y, _, _⟩ | ⟨y, _, _, _⟩
        · exact ⟨y⟩
        · exact ⟨y⟩
      refine .inr ⟨(x, y), rest ++ b.bytes y, ?_, by rw [hx, List.append_assoc]⟩
      intro hnil
      exact hne (List.append_eq_nil_iff.mp hnil).1

variable (scope : Value)

theorem word_readBy (registry : Registry) (hwidth : 0 < registry.width) :
    (word registry hwidth).ReadBy (.code registry) scope where
  decode_append n rest := by
    refine (Schema.decode_code_eq_ok_iff _ _ _ _ _).mpr ⟨?_, ?_, ?_⟩
    · simp only [word, List.length_append, BigEndian.length_encode]
      omega
    · simp only [word, leading_encode_append n.isLt]
    · exact (List.drop_left' (BigEndian.length_encode _ _)).symm
  starts bytes value rest h := by
    obtain ⟨hle, -, rfl⟩ := (Schema.decode_code_eq_ok_iff _ _ _ _ _).mp h
    exact exists_word hle

theorem sized_readBy (width : Nat) (hwidth : 0 < width) :
    (sized width hwidth).ReadBy (.region width .rest) scope where
  decode_append content rest := by
    have hlt := content.property
    simp only [sized, List.append_assoc]
    refine (Schema.decode_region_eq_ok_iff _ _ _ _ _ _).mpr
      ⟨delimits_encode_append hlt rest, (behind_encode_append hlt rest).symm, [], ?_⟩
    rw [Schema.decode, delimited_encode_append hlt rest]
  starts bytes value rest h := by
    obtain ⟨hdelimits, rfl, -⟩ := (Schema.decode_region_eq_ok_iff _ _ _ _ _ _).mp h
    obtain ⟨content, hbytes⟩ := exists_sized hdelimits
    exact ⟨content, _, hbytes⟩

theorem pair_readBy {first second : String} {a b : ItemForm} {s t : Schema}
    (ha : a.ReadBy s (Scope.inside [] scope)) (hb : b.ReadBy t (Scope.inside [] scope)) :
    (pair first second a b).ReadBy (.record (.field first s (.last second t))) scope where
  decode_append item rest := by
    refine (Schema.decode_record_eq_ok_iff _ _ _ _ _).mpr ⟨_, ?_, rfl⟩
    refine (Fields.decode_field_eq_ok_iff _ _ _ _ _ _ _).mpr
      ⟨a.value item.1, b.bytes item.2 ++ rest, ?_, [(second, b.value item.2)], ?_, rfl⟩
    · simp only [pair, List.append_assoc]
      exact ha.decode_append item.1 _
    · exact (Fields.decode_last_eq_ok_iff _ _ _ _ _ _).mpr ⟨_, hb.decode_append item.2 rest, rfl⟩
  starts bytes value rest h := by
    obtain ⟨entries, hfields, -⟩ := (Schema.decode_record_eq_ok_iff _ _ _ _ _).mp h
    obtain ⟨v, left, hfirst, others, hlast, -⟩ :=
      (Fields.decode_field_eq_ok_iff _ _ _ _ _ _ _).mp hfields
    obtain ⟨w, hsecond, -⟩ := (Fields.decode_last_eq_ok_iff _ _ _ _ _ _).mp hlast
    obtain ⟨x, middle, rfl⟩ := ha.starts bytes v left hfirst
    rw [ha.decode_append] at hfirst
    cases hfirst
    obtain ⟨y, behind, rfl⟩ := hb.starts left w rest hsecond
    exact ⟨(x, y), behind, by simp only [pair, List.append_assoc]⟩

/-- The schema writes the value of an item as the bytes of the item, wherever it stands. -/
def WrittenBy (form : ItemForm) (schema : Schema) : Prop :=
  ∀ scope item, schema.encode scope (form.value item) = .ok (form.bytes item)

theorem WrittenBy.encodeAll_map {form : ItemForm} {schema : Schema} (h : form.WrittenBy schema)
    (scope : Value) (items : List form.Item) :
    Schema.encodeAll (schema.encode scope) (items.map form.value) =
      .ok (items.flatMap form.bytes) := by
  induction items with
  | nil => rfl
  | cons item items ih =>
    rw [List.map_cons, Schema.encodeAll, h scope item, ih]
    rfl

theorem encodeUInt_of_lt {width n : Nat} (h : n < BigEndian.capacity width) :
    Schema.encodeUInt width n = .ok (BigEndian.encode width n) := by
  have hlt : (n : Int) < BigEndian.capacity width := Int.ofNat_lt.mpr h
  rw [Schema.encodeUInt, if_pos ⟨Int.natCast_nonneg n, hlt⟩, Int.toNat_natCast]

/-- A number that has a name is written under the name. -/
theorem word_writtenBy {registry : Registry} (h : registry.WellFormed)
    (hwidth : 0 < registry.width) : (word registry hwidth).WrittenBy (.code registry) := by
  intro scope n
  have hencode := encodeUInt_of_lt n.isLt
  show (Schema.code registry).encode scope (.code (registry.codePoint n.val)) = _
  rw [Schema.encode, Schema.encodeCode, Registry.codePoint]
  cases hname : registry.name? n.val with
  | none => exact hencode
  | some name =>
    have hnumber := (Registry.number?_eq_some_iff_name? h).mpr hname
    simp only [Value.integer?, Value.key, Value.text?, mapError_ok, bind, Except.bind,
      Option.bind_some, hnumber]
    exact hencode

theorem sized_writtenBy (width : Nat) (hwidth : 0 < width) :
    (sized width hwidth).WrittenBy (.region width .rest) := by
  intro scope content
  have hencode := encodeUInt_of_lt content.property
  show (Schema.region width .rest).encode scope (.bytes content.val) = _
  simp only [Schema.encode, Schema.encodeRest, Schema.encodeRegion, bind, Except.bind, hencode]
  rfl

theorem pair_writtenBy {first second : String} {a b : ItemForm} {s t : Schema}
    (ha : a.WrittenBy s) (hb : b.WrittenBy t) (hs : s.mayBeMissing = false)
    (ht : t.mayBeMissing = false) (hne : second ≠ first) :
    (pair first second a b).WrittenBy (.record (.field first s (.last second t))) := by
  intro scope item
  let fields := [(first, a.value item.1), (second, b.value item.2)]
  have hfirst : (Value.record fields).entry first = .ok (a.value item.1) := by
    simp [fields, Value.entry]
  have hsecond : (Value.record fields).entry second = .ok (b.value item.2) := by
    simp [fields, Value.entry, List.lookup_cons, beq_eq_false_iff_ne.mpr hne]
  show (Schema.record (.field first s (.last second t))).encode scope (.record fields) = _
  simp only [Schema.encode, Fields.last, Fields.encode, Value.entries, hs, ht, hfirst, hsecond,
    ha _ item.1, hb _ item.2, mapError_ok, bind, Except.bind, Bool.false_eq_true, if_false]
  simp [pair, pure, Except.pure]

/-- The numbers in the whole words of the bytes, one behind the other. -/
def words (width : Nat) (bytes : List UInt8) : List Nat :=
  (List.range (bytes.length / width)).map fun i =>
    BigEndian.decode ((bytes.drop (i * width)).take width)

theorem words_of_length_lt {width : Nat} {bytes : List UInt8} (h : bytes.length < width) :
    words width bytes = [] := by
  rw [words, Nat.div_eq_of_lt h]
  rfl

theorem words_append {width : Nat} (hwidth : 0 < width) {front : List UInt8}
    (h : front.length = width) (rest : List UInt8) :
    words width (front ++ rest) = BigEndian.decode front :: words width rest := by
  have hcount : (front ++ rest).length / width = rest.length / width + 1 := by
    rw [List.length_append, h, Nat.add_comm, Nat.add_div_right _ hwidth]
  have hdrop : ∀ i, (front ++ rest).drop ((i + 1) * width) = rest.drop (i * width) := by
    intro i
    rw [Nat.succ_mul, Nat.add_comm, ← List.drop_drop, List.drop_left' h]
  rw [words, hcount, List.range_succ_eq_map, List.map_cons, List.map_map]
  congr 1
  · rw [Nat.zero_mul, List.drop_zero, List.take_left' h]
  · refine List.map_congr_left fun i _ => ?_
    simp only [Function.comp_apply, hdrop]

theorem length_lt_of_not_starts {registry : Registry} {hwidth : 0 < registry.width}
    {bytes : List UInt8} (h : ¬ (word registry hwidth).Starts bytes) :
    bytes.length < registry.width := by
  exact Nat.lt_of_not_le fun hle => h (exists_word hle)

theorem words_of_tiles {registry : Registry} {hwidth : 0 < registry.width}
    {items : List (Fin (BigEndian.capacity registry.width))} {leftover bytes : List UInt8}
    (h : (word registry hwidth).Tiles items leftover bytes) :
    items.map Fin.val = words registry.width bytes := by
  induction items generalizing bytes with
  | nil =>
    obtain ⟨rfl, hleftover⟩ := h
    exact (words_of_length_lt (length_lt_of_not_starts hleftover)).symm
  | cons item items ih =>
    obtain ⟨rest, rfl, hrest⟩ := exists_of_tiles_cons h
    have hlength : ((word registry hwidth).bytes item).length = registry.width :=
      BigEndian.length_encode _ _
    have hitem : BigEndian.decode ((word registry hwidth).bytes item) = item.val :=
      BigEndian.decode_encode item.isLt
    rw [List.map_cons, ih hrest, words_append hwidth hlength, hitem]

theorem word_map_value_of_tiles {registry : Registry} (hwidth : 0 < registry.width)
    {items : List (Fin (BigEndian.capacity registry.width))} {leftover bytes : List UInt8}
    (h : (word registry hwidth).Tiles items leftover bytes) :
    items.map (word registry hwidth).value =
      (words registry.width bytes).map fun n => .code (registry.codePoint n) := by
  rw [← words_of_tiles h, List.map_map]
  rfl

end ItemForm

end HelloExtensions
