import HelloExtensions.BigEndian
import HelloExtensions.Proofs.HexDump
import HelloExtensions.Text.Folded
import Mathlib.Algebra.Group.Nat.Defs

/-!
Reading back what is quoted and folded. A reader takes the characters between two quotes, of which
those behind a backslash stand for another character, and it joins the quoted texts that stand below
each other between parentheses. It gets back the text that has been folded, so nothing of a text is
lost or made up wherever its lines are cut.
-/
namespace HelloExtensions.Text

namespace Hex

/-- The number that digits tell. -/
def number? (digits : List Char) : Option Nat :=
  digits.foldlM (fun number digit => (worth? digit).map (16 * number + ·)) 0

theorem number?_concat (digits : List Char) (digit : Char) :
    number? (digits ++ [digit]) =
      (number? digits).bind fun number => (worth? digit).map (16 * number + ·) := by
  simp [number?]

theorem length_fixed (width n : Nat) : (fixed width n).length = width := by
  induction width generalizing n with
  | zero => rfl
  | succ width ih => rw [fixed, List.length_append, ih, List.length_singleton]

theorem number?_fixed {width n : Nat} (h : n < 16 ^ width) : number? (fixed width n) = some n := by
  induction width generalizing n with
  | zero =>
    obtain rfl : n = 0 := Nat.lt_one_iff.mp h
    rfl
  | succ width ih =>
    have hfront : n / 16 < 16 ^ width := by
      rw [Nat.div_lt_iff_lt_mul (by decide)]
      exact h
    have hlast : n % 16 < 16 := Nat.mod_lt n (by decide)
    have hnumber : 16 * (n / 16) + n % 16 = n := Nat.div_add_mod n 16
    rw [fixed, number?_concat, ih hfront, worth?_digit hlast, Option.bind_some, Option.map_some,
      hnumber]

theorem digitChar_eq {n : Nat} (h : n < 16) : n.digitChar = digit n := by
  revert n
  decide

theorem fixed_zero (width : Nat) : fixed width 0 = List.replicate width '0' := by
  induction width with
  | zero => rfl
  | succ width ih =>
    rw [fixed, ih, List.replicate_succ']
    rfl

/-- A number that is narrow enough is written with as many digits as are asked for. -/
theorem padded_eq_fixed {width n : Nat} (hwidth : 0 < width) (h : n < 16 ^ width) :
    padded width n = fixed width n := by
  induction width generalizing n with
  | zero => exact absurd hwidth (Nat.lt_irrefl 0)
  | succ width ih =>
    by_cases hdigit : n < 16
    · have hfront : n / 16 = 0 := Nat.div_eq_of_lt hdigit
      rw [padded, Nat.toDigits_of_lt_base hdigit, fixed, hfront, fixed_zero,
        Nat.mod_eq_of_lt hdigit, digitChar_eq hdigit]
      rfl
    · have hfront : n / 16 < 16 ^ width := by
        rw [Nat.div_lt_iff_lt_mul (by decide)]
        exact h
      have hmore : 0 < width := by
        by_contra hnone
        obtain rfl : width = 0 := by omega
        exact hdigit h
      have hdigits : Nat.toDigits 16 n = Nat.toDigits 16 (n / 16) ++ [digit (n % 16)] := by
        rw [Nat.toDigits_of_base_le (by decide) (Nat.le_of_not_lt hdigit),
          digitChar_eq (Nat.mod_lt n (by decide))]
      rw [fixed, ← ih hmore hfront, padded, padded, hdigits, List.length_append,
        List.length_singleton, Nat.add_sub_add_right, ← List.append_assoc]

theorem pair_ofNat_mod (n : Nat) :
    pair (UInt8.ofNat (n % 256)) = [digit (n / 16 % 16), digit (n % 16)] := by
  have hbyte : (UInt8.ofNat (n % 256)).toNat = n % 256 := by
    rw [UInt8.toNat_ofNat', Nat.mod_mod]
  have hhigh : n % 256 / 16 = n / 16 % 16 := by omega
  have hlow : n % 256 % 16 = n % 16 := by omega
  rw [pair, hbyte, hhigh, hlow]

/-- Two digits for each byte of a number. -/
theorem fixed_eq_flatMap_pair (width n : Nat) :
    fixed (2 * width) n = (BigEndian.encode width n).flatMap pair := by
  induction width generalizing n with
  | zero => rfl
  | succ width ih =>
    have hfront : n / 16 / 16 = n / 256 := Nat.div_div_eq_div_mul n 16 16
    rw [BigEndian.encode_succ, List.flatMap_append, List.flatMap_singleton, ← ih,
      pair_ofNat_mod, Nat.mul_succ, fixed, fixed, hfront, List.append_assoc]
    rfl

theorem padded_eq_flatMap_twoDigits {n : Nat} (h : n < 65536) :
    padded 4 n = (BigEndian.encode 2 n).flatMap twoDigits := by
  rw [padded_eq_fixed (by decide) h, fixed_eq_flatMap_pair 2 n]
  exact List.flatMap_congr fun b _ => pair_eq_twoDigits b

end Hex

namespace Quoted

/-- The character whose number the digits at the start tell, and what follows them. -/
def numbered? (width : Nat) (cs : List Char) : Option (Char × List Char) :=
  if cs.length < width then none
  else (Hex.number? (cs.take width)).map fun n => (Char.ofNat n, cs.drop width)

/-- Characters that a letter behind a backslash stands for. -/
def letters : List (Char × Char) := [('t', '\t'), ('n', '\n'), ('r', '\x0d')]

/-- How many digits follow a letter behind a backslash. -/
def widths : List (Char × Nat) := [('x', 2), ('u', 4), ('U', 8)]

/-- The character that is meant behind a backslash, and what follows. -/
def unescape? : List Char → Option (Char × List Char)
  | [] => none
  | c :: cs => match letters.lookup c, widths.lookup c with
    | some d, _ => some (d, cs)
    | none, some width => numbered? width cs
    | none, none => some (c, cs)

theorem length_of_numbered? {width : Nat} {cs rest : List Char} {c : Char}
    (h : numbered? width cs = some (c, rest)) : rest.length ≤ cs.length := by
  unfold numbered? at h
  split at h
  · cases h
  · obtain ⟨n, -, hn⟩ := Option.map_eq_some_iff.mp h
    obtain ⟨-, rfl⟩ := Prod.mk.inj hn
    exact List.length_drop ▸ Nat.sub_le _ _

theorem length_of_unescape? {cs rest : List Char} {c : Char}
    (h : unescape? cs = some (c, rest)) : rest.length < cs.length := by
  cases cs with
  | nil => cases h
  | cons d ds =>
    rw [unescape?] at h
    refine Nat.lt_succ_of_le ?_
    split at h
    · exact (Prod.mk.inj (Option.some.inj h)).2 ▸ Nat.le_refl _
    · exact length_of_numbered? h
    · exact (Prod.mk.inj (Option.some.inj h)).2 ▸ Nat.le_refl _

/-- The text up to the closing quote, and what follows the quote. -/
def readTo? (quote : Char) : List Char → Option (List Char × List Char)
  | [] => none
  | c :: cs =>
    if c = quote then some ([], cs)
    else if c = backslash then
      match h : unescape? cs with
      | none => none
      | some (d, rest) =>
        have := length_of_unescape? h
        (readTo? quote rest).map fun found => (d :: found.1, found.2)
    else (readTo? quote cs).map fun found => (c :: found.1, found.2)
termination_by cs => cs.length
decreasing_by
  · rw [List.length_cons]
    omega
  · exact Nat.lt_succ_self _

/-- Quotes that a text may be put between. -/
def IsQuote (c : Char) : Prop := c = apostrophe ∨ c = doubleQuote

instance (c : Char) : Decidable (IsQuote c) := inferInstanceAs (Decidable (_ ∨ _))

theorem isQuote_mark (cs : List Char) : IsQuote (mark cs) := by
  unfold mark
  split
  · exact .inr rfl
  · exact .inl rfl

theorem IsQuote.ne_backslash {quote : Char} (h : IsQuote quote) : quote ≠ backslash := by
  rcases h with rfl | rfl <;> decide

/-- A quote or a backslash behind a backslash is meant as it stands. -/
theorem IsQuote.unescape?_eq {c : Char} (h : IsQuote c ∨ c = backslash) (rest : List Char) :
    unescape? (c :: rest) = some (c, rest) := by
  rcases h with (rfl | rfl) | rfl <;> rfl

/-- The text between the quotes at the start, and what follows them. -/
def unquote? : List Char → Option (List Char × List Char)
  | [] => none
  | c :: cs => if IsQuote c then readTo? c cs else none

section

variable {quote : Char} (rest : List Char)

theorem readTo?_quote : readTo? quote (quote :: rest) = some ([], rest) := by
  rw [readTo?, if_pos rfl]

theorem readTo?_plain {c : Char} (hquote : c ≠ quote) (hbackslash : c ≠ backslash) :
    readTo? quote (c :: rest) =
      (readTo? quote rest).map fun found => (c :: found.1, found.2) := by
  rw [readTo?, if_neg hquote, if_neg hbackslash]

theorem readTo?_backslash (hquote : IsQuote quote) {c : Char} {cs : List Char}
    (h : unescape? cs = some (c, rest)) :
    readTo? quote (backslash :: cs) =
      (readTo? quote rest).map fun found => (c :: found.1, found.2) := by
  rw [readTo?, if_neg hquote.ne_backslash.symm, if_pos rfl]
  split
  · next hnone =>
    rw [h] at hnone
    cases hnone
  · next d found hfound =>
    rw [h] at hfound
    obtain ⟨rfl, rfl⟩ := Prod.mk.inj (Option.some.inj hfound)
    rfl

theorem numbered?_fixed (c : Char) {width : Nat} (h : c.toNat < 16 ^ width) :
    numbered? width (Hex.fixed width c.toNat ++ rest) = some (c, rest) := by
  have hlength := Hex.length_fixed width c.toNat
  have henough : ¬ (Hex.fixed width c.toNat ++ rest).length < width := by
    rw [List.length_append, hlength]
    omega
  rw [numbered?, if_neg henough, List.take_left' hlength, List.drop_left' hlength,
    Hex.number?_fixed h, Option.map_some, Char.ofNat_toNat]

theorem exists_numbered (c : Char) :
    ∃ cs, numbered c.toNat ++ rest = backslash :: cs ∧ unescape? cs = some (c, rest) := by
  unfold numbered
  split
  · next htwo => exact ⟨_, rfl, numbered?_fixed rest c htwo⟩
  · split
    · next hfour => exact ⟨_, rfl, numbered?_fixed rest c hfour⟩
    · exact ⟨_, rfl, numbered?_fixed rest c c.val.toNat_lt⟩

/-- Whatever a character is written as, it is read. -/
theorem readTo?_escape (hquote : IsQuote quote) (c : Char) :
    readTo? quote (escape quote c ++ rest) =
      (readTo? quote rest).map fun found => (c :: found.1, found.2) := by
  unfold escape
  split_ifs with hmeant htab hfeed hreturn hprintable
  · refine readTo?_backslash rest hquote (IsQuote.unescape?_eq ?_ rest)
    exact hmeant.imp_left fun heq : c = quote => heq.symm ▸ hquote
  · obtain rfl : c = '\t' := Char.toNat_inj.mp htab
    exact readTo?_backslash rest hquote rfl
  · obtain rfl : c = '\n' := Char.toNat_inj.mp hfeed
    exact readTo?_backslash rest hquote rfl
  · obtain rfl : c = '\x0d' := Char.toNat_inj.mp hreturn
    exact readTo?_backslash rest hquote rfl
  · obtain ⟨hother, hbackslash⟩ := not_or.mp hmeant
    exact readTo?_plain rest hother hbackslash
  · obtain ⟨cs, hcs, hread⟩ := exists_numbered rest c
    rw [hcs]
    exact readTo?_backslash rest hquote hread

theorem readTo?_flatMap_escape (hquote : IsQuote quote) (cs : List Char) :
    readTo? quote (cs.flatMap (escape quote) ++ quote :: rest) = some (cs, rest) := by
  induction cs with
  | nil => exact readTo?_quote rest
  | cons c cs ih =>
    rw [List.flatMap_cons, List.append_assoc, readTo?_escape _ hquote, ih]
    rfl

theorem unquote?_encode (cs : List Char) : unquote? (encode cs ++ rest) = some (cs, rest) := by
  have hquote := isQuote_mark cs
  rw [encode, List.cons_append, unquote?, if_pos hquote, List.append_assoc, List.singleton_append,
    readTo?_flatMap_escape rest hquote]

end

theorem length_of_readTo? {quote : Char} {cs : List Char} {found : List Char × List Char}
    (h : readTo? quote cs = some found) : found.2.length < cs.length := by
  fun_induction readTo? quote cs generalizing found with
  | case1 => cases h
  | case2 cs =>
    obtain rfl := Option.some.inj h
    exact Nat.lt_succ_self _
  | case3 => cases h
  | case4 cs d rest hrest hshort _ ih =>
    obtain ⟨inner, hinner, rfl⟩ := Option.map_eq_some_iff.mp h
    have hlater : inner.2.length < rest.length := ih hinner
    rw [List.length_cons]
    exact Nat.lt_succ_of_lt (Nat.lt_trans hlater hshort)
  | case5 c cs _ _ ih =>
    obtain ⟨inner, hinner, rfl⟩ := Option.map_eq_some_iff.mp h
    have hlater : inner.2.length < cs.length := ih hinner
    exact Nat.lt_succ_of_lt hlater

theorem length_of_unquote? {cs : List Char} {found : List Char × List Char}
    (h : unquote? cs = some found) : found.2.length < cs.length := by
  cases cs with
  | nil => cases h
  | cons c cs =>
    rw [unquote?] at h
    split at h
    · exact Nat.lt_succ_of_lt (length_of_readTo? h)
    · cases h

end Quoted

namespace Folded

/-- The text that quoted pieces below each other make up, up to a closing parenthesis. -/
def joined? (cs : List Char) : Option (List Char) :=
  match h : Quoted.unquote? cs with
  | some (piece, [')']) => some piece
  | some (piece, '\n' :: ' ' :: rest) =>
    have := Quoted.length_of_unquote? h
    (joined? rest).map (piece ++ ·)
  | _ => none
termination_by cs.length
decreasing_by
  simp only [List.length_cons] at this
  omega

/-- The text that is quoted, in one piece or in pieces between parentheses. -/
def read? : List Char → Option (List Char)
  | [] => none
  | c :: cs =>
    if c = '(' then joined? cs
    else match Quoted.unquote? (c :: cs) with
      | some (piece, []) => some piece
      | _ => none

section

variable {cs piece rest : List Char}

theorem joined?_last (h : Quoted.unquote? cs = some (piece, [')'])) : joined? cs = some piece := by
  rw [joined?]
  split
  · next last hlast => rw [(Prod.mk.inj (Option.some.inj (h.symm.trans hlast))).1]
  · next next rest hnext =>
    exact absurd (Prod.mk.inj (Option.some.inj (h.symm.trans hnext))).2 (by simp)
  · next hnone _ => exact absurd h (hnone piece)

theorem joined?_next (h : Quoted.unquote? cs = some (piece, '\n' :: ' ' :: rest)) :
    joined? cs = (joined? rest).map (piece ++ ·) := by
  rw [joined?]
  split
  · next last hlast =>
    exact absurd (Prod.mk.inj (Option.some.inj (h.symm.trans hlast))).2 (by simp)
  · next first behind hfirst =>
    obtain ⟨hpiece, hrest⟩ := Prod.mk.inj (Option.some.inj (h.symm.trans hfirst))
    obtain ⟨-, hrest⟩ := List.cons.inj hrest
    obtain ⟨-, rfl⟩ := List.cons.inj hrest
    rw [hpiece]
  · next hnone => exact absurd h (hnone piece rest)

end

theorem joined?_pieces (piece : List Char) (pieces : List (List Char)) :
    joined? (Quoted.encode piece ++
      (pieces.flatMap (fun d => '\n' :: ' ' :: Quoted.encode d) ++ [')'])) =
        some (piece ++ pieces.flatten) := by
  induction pieces generalizing piece with
  | nil =>
    have hread := Quoted.unquote?_encode [')'] piece
    rw [List.flatMap_nil, List.nil_append, joined?_last hread, List.flatten_nil, List.append_nil]
  | cons next pieces ih =>
    have hread := Quoted.unquote?_encode ('\n' :: ' ' :: (Quoted.encode next ++
      (pieces.flatMap (fun d => '\n' :: ' ' :: Quoted.encode d) ++ [')']))) piece
    rw [List.flatMap_cons, List.cons_append, List.cons_append, List.cons_append, List.cons_append,
      List.append_assoc, joined?_next hread, ih, List.flatten_cons]
    rfl

theorem read?_encode_quoted (cs : List Char) : read? (Quoted.encode cs) = some cs := by
  have hread := Quoted.unquote?_encode [] cs
  rw [List.append_nil] at hread
  have hother : Quoted.mark cs ≠ '(' := by
    rcases Quoted.isQuote_mark cs with heq | heq <;> rw [heq] <;> decide
  rw [Quoted.encode] at hread ⊢
  rw [read?, if_neg hother, hread]

theorem read?_layout {pieces : List (List Char)} (h : pieces ≠ []) :
    read? (layout pieces) = some pieces.flatten := by
  match pieces with
  | [] => exact absurd rfl h
  | [piece] => rw [layout, read?_encode_quoted, List.flatten_singleton]
  | piece :: next :: pieces =>
    rw [layout, List.cons_append, List.cons_append, List.append_assoc, read?, if_pos rfl,
      joined?_pieces]
    · rfl
    · exact List.cons_ne_nil _ _

/-- A folded text is read back. -/
theorem read?_encode (cs : List Char) : read? (encode cs) = some cs := by
  unfold encode
  split
  · exact read?_encode_quoted cs
  · next hwide =>
    have hsome : chunks cs ≠ [] := by
      intro hnone
      have hflatten := flatten_chunks cs
      rw [hnone] at hflatten
      exact hwide (hflatten ▸ by decide)
    rw [read?_layout hsome, flatten_chunks]

end Folded

/-- The text that a quotation tells. -/
def unquote? (s : String) : Option String := (Folded.read? s.toList).map String.ofList

theorem unquote?_fold (s : String) : unquote? (fold s) = some s := by
  rw [unquote?, fold, String.toList_ofList, Folded.read?_encode, Option.map_some,
    String.ofList_toList]

end HelloExtensions.Text
