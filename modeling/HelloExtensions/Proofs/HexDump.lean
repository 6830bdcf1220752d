import HelloExtensions.Text.Blank
import HelloExtensions.Text.HexDump
import Mathlib.Data.List.Basic

/-!
The layout of a dump. Under the line that names it there are rows of sixteen bytes: each byte is two
digits in lower case, and a space stands between one byte and the next, a line feed between one row
and the next. It is the text of all bytes with spaces between them, with every sixteenth space made
a line feed. A reader that passes over white space gets the bytes back.
-/
namespace HelloExtensions.Text

namespace Hex

/-- The digits in the order of what they are worth. -/
def numerals : List Char := "0123456789abcdef".toList

/-- A byte as a number to the base of sixteen, in two digits. -/
def twoDigits (b : UInt8) : List Char :=
  [numerals.getD (b.toNat / 16) ' ', numerals.getD (b.toNat % 16) ' ']

/-- What a digit is worth. -/
def worth? (c : Char) : Option Nat := numerals.idxOf? c

/-- The bytes that the digits tell two by two. -/
def ofPairs? : List Char → Option (List UInt8)
  | [] => some []
  | [_] => none
  | high :: low :: cs => do
    let upper ← worth? high
    let lower ← worth? low
    let bytes ← ofPairs? cs
    return UInt8.ofNat (16 * upper + lower) :: bytes

/-- The bytes that a text tells if its white space does not count. -/
def read? (cs : List Char) : Option (List UInt8) := ofPairs? (cs.filter fun c => !isBlank c)

theorem digit_eq {n : Nat} (h : n < 16) : digit n = numerals.getD n ' ' := by
  revert n
  decide

theorem worth?_digit {n : Nat} (h : n < 16) : worth? (digit n) = some n := by
  revert n
  decide

theorem not_isBlank_digit {n : Nat} (h : n < 16) : isBlank (digit n) = false := by
  revert n
  decide

theorem digit_ne_space {n : Nat} (h : n < 16) : digit n ≠ ' ' := by
  intro heq
  have hblank := not_isBlank_digit h
  rw [heq] at hblank
  cases hblank

theorem high_lt (b : UInt8) : b.toNat / 16 < 16 := by
  have h := b.toNat_lt
  omega

theorem low_lt (b : UInt8) : b.toNat % 16 < 16 := by omega

theorem pair_eq_twoDigits (b : UInt8) : pair b = twoDigits b := by
  rw [pair, twoDigits, digit_eq (high_lt b), digit_eq (low_lt b)]

theorem ofPairs?_flatMap_pair (bytes : List UInt8) :
    ofPairs? (bytes.flatMap pair) = some bytes := by
  induction bytes with
  | nil => rfl
  | cons b bytes ih =>
    have hnumber : 16 * (b.toNat / 16) + b.toNat % 16 = b.toNat := by omega
    have hbyte : UInt8.ofNat (16 * (b.toNat / 16) + b.toNat % 16) = b := by
      rw [hnumber, UInt8.ofNat_toNat]
    rw [List.flatMap_cons, pair, List.cons_append, List.cons_append, List.nil_append, ofPairs?,
      worth?_digit (high_lt b), worth?_digit (low_lt b), ih]
    exact congrArg (fun first => some (first :: bytes)) hbyte

end Hex

namespace HexDump

/-- The line that names a dump and counts its bytes. -/
def header (title : String) (count : Nat) : String :=
  "  - " ++ title ++ " [" ++ toString count ++ " bytes]:\n"

/-- The bytes sixteen by sixteen. -/
def rows (bytes : List UInt8) : List (List UInt8) :=
  if bytes = [] then [] else bytes.take bytesPerLine :: rows (bytes.drop bytesPerLine)
termination_by bytes.length
decreasing_by
  next h =>
    have hpos := List.length_pos_iff.mpr h
    rw [List.length_drop, bytesPerLine]
    omega

/-- The text of a row. -/
def line (row : List UInt8) : List Char := [' '].intercalate (row.map Hex.twoDigits)

/-- Make every sixteenth space of a text a line feed. So many spaces have been passed before. -/
def broken : (passed : Nat) → List Char → List Char
  | _, [] => []
  | passed, c :: cs =>
    if c = ' ' then
      (if (passed + 1) % bytesPerLine = 0 then '\n' else ' ') :: broken (passed + 1) cs
    else c :: broken passed cs

/-- What stands in a dump from a position on. -/
def bodyFrom : (position : Nat) → List UInt8 → List Char
  | _, [] => []
  | position, b :: bytes => separator position ++ Hex.pair b ++ bodyFrom (position + 1) bytes

theorem body_eq (bytes : List UInt8) : body bytes = bodyFrom 0 bytes := by
  have hfrom : ∀ position, (bytes.zipIdx position).flatMap
      (fun b => separator b.2 ++ Hex.pair b.1) = bodyFrom position bytes := by
    induction bytes with
    | nil => exact fun position => rfl
    | cons b bytes ih =>
      intro position
      rw [List.zipIdx_cons, List.flatMap_cons, ih, bodyFrom]
  exact hfrom 0

theorem spaced_cons (b : UInt8) (bytes : List UInt8) :
    spaced (b :: bytes) = Hex.pair b ++ bytes.flatMap fun b => ' ' :: Hex.pair b := by
  have hfrom : ∀ position, (bytes.zipIdx (position + 1)).flatMap
      (fun b => (if b.2 = 0 then [] else [' ']) ++ Hex.pair b.1) =
        bytes.flatMap fun b => ' ' :: Hex.pair b := by
    induction bytes with
    | nil => exact fun position => rfl
    | cons other bytes ih =>
      intro position
      rw [List.zipIdx_cons, List.flatMap_cons, List.flatMap_cons, ih, if_neg (Nat.succ_ne_zero _)]
      rfl
  exact congrArg (Hex.pair b ++ ·) (hfrom 0)

theorem line_cons_cons (b other : UInt8) (row : List UInt8) :
    line (b :: other :: row) = Hex.pair b ++ ' ' :: line (other :: row) := by
  rw [line, List.map_cons, List.map_cons, List.intercalate_cons_cons, ← Hex.pair_eq_twoDigits]
  rfl

theorem line_singleton (b : UInt8) : line [b] = Hex.pair b := by
  rw [line, List.map_singleton, List.intercalate_singleton, Hex.pair_eq_twoDigits]

/-- With spaces only, all bytes are one row. -/
theorem spaced_eq (bytes : List UInt8) : spaced bytes = line bytes := by
  cases bytes with
  | nil => rfl
  | cons b bytes =>
    rw [spaced_cons]
    induction bytes generalizing b with
    | nil => rw [List.flatMap_nil, List.append_nil, line_singleton]
    | cons other bytes ih => rw [List.flatMap_cons, List.cons_append, ih, line_cons_cons]

theorem broken_pair (passed : Nat) (b : UInt8) (cs : List Char) :
    broken passed (Hex.pair b ++ cs) = Hex.pair b ++ broken passed cs := by
  rw [Hex.pair, List.cons_append, List.cons_append, List.nil_append, broken,
    if_neg (Hex.digit_ne_space (Hex.high_lt b)), broken,
    if_neg (Hex.digit_ne_space (Hex.low_lt b))]
  rfl

/-- The running count of spaces is the position of the byte behind them. -/
theorem broken_line (position : Nat) (b : UInt8) (bytes : List UInt8) :
    broken position (line (b :: bytes)) = Hex.pair b ++ bodyFrom (position + 1) bytes := by
  induction bytes generalizing position b with
  | nil =>
    rw [line_singleton, ← List.append_nil (Hex.pair b), broken_pair]
    rfl
  | cons other bytes ih =>
    rw [line_cons_cons, broken_pair, broken, if_pos rfl, ih, bodyFrom, separator,
      if_neg (Nat.succ_ne_zero _)]
    split <;> rfl

theorem body_eq_broken (bytes : List UInt8) : body bytes = broken 0 (spaced bytes) := by
  rw [body_eq, spaced_eq]
  cases bytes with
  | nil => rfl
  | cons b bytes => exact (broken_line 0 b bytes).symm

theorem bodyFrom_append (position : Nat) (front back : List UInt8) :
    bodyFrom position (front ++ back) =
      bodyFrom position front ++ bodyFrom (position + front.length) back := by
  induction front generalizing position with
  | nil => rfl
  | cons b front ih =>
    have hposition : position + 1 + front.length = position + (b :: front).length := by
      rw [List.length_cons]
      omega
    rw [List.cons_append, bodyFrom, ih, bodyFrom, hposition, ← List.append_assoc]

/-- Bytes that fit in what is left of a row are written without a line feed between them. -/
theorem bodyFrom_row (position : Nat) (b : UInt8) (row : List UInt8)
    (hfits : position % bytesPerLine + (b :: row).length ≤ bytesPerLine) :
    bodyFrom position (b :: row) = separator position ++ line (b :: row) := by
  induction row generalizing position b with
  | nil => rw [bodyFrom, bodyFrom, List.append_nil, line_singleton]
  | cons other row ih =>
    simp only [List.length_cons, bytesPerLine] at hfits
    have hinside : (position + 1) % bytesPerLine ≠ 0 := by
      unfold bytesPerLine
      omega
    have hseparator : separator (position + 1) = [' '] := by
      rw [separator, if_neg (Nat.succ_ne_zero _), if_neg hinside]
    have hrest : (position + 1) % bytesPerLine + (other :: row).length ≤ bytesPerLine := by
      rw [List.length_cons, bytesPerLine]
      omega
    rw [bodyFrom, ih _ _ hrest, hseparator, line_cons_cons, List.append_assoc]
    rfl

theorem bodyFrom_rows (position : Nat) (bytes : List UInt8) (hstart : position % bytesPerLine = 0)
    (hsome : bytes ≠ []) :
    bodyFrom position bytes = separator position ++ ['\n'].intercalate ((rows bytes).map line) := by
  fun_induction rows bytes generalizing position with
  | case1 => exact absurd rfl hsome
  | case2 bytes _ ih =>
    have hrow : bodyFrom position (bytes.take bytesPerLine) =
        separator position ++ line (bytes.take bytesPerLine) := by
      cases bytes with
      | nil => exact absurd rfl hsome
      | cons b bytes =>
        refine bodyFrom_row position b (bytes.take 15) ?_
        rw [hstart, List.length_cons, List.length_take, bytesPerLine]
        omega
    by_cases hlast : bytes.drop bytesPerLine = []
    · have hall : bytes.take bytesPerLine = bytes :=
        List.take_of_length_le (List.drop_eq_nil_iff.mp hlast)
      rw [hlast, rows, if_pos rfl, List.map_singleton, List.intercalate_singleton, ← hrow, hall]
    · have hfull : (bytes.take bytesPerLine).length = bytesPerLine := by
        have hlong := mt List.drop_eq_nil_iff.mpr hlast
        rw [List.length_take]
        omega
      have hnext : (position + bytesPerLine) % bytesPerLine = 0 := by
        rw [Nat.add_mod_right, hstart]
      have hseparator : separator (position + bytesPerLine) = ['\n'] := by
        rw [separator, if_neg (by unfold bytesPerLine; omega), if_pos hnext]
      have hmore : (rows (bytes.drop bytesPerLine)).map line ≠ [] := by
        rw [rows, if_neg hlast]
        exact List.cons_ne_nil _ _
      calc bodyFrom position bytes
          = bodyFrom position (bytes.take bytesPerLine ++ bytes.drop bytesPerLine) := by
            rw [List.take_append_drop]
        _ = separator position ++ line (bytes.take bytesPerLine) ++
              (['\n'] ++ ['\n'].intercalate ((rows (bytes.drop bytesPerLine)).map line)) := by
            rw [bodyFrom_append, hrow, hfull, ih _ hnext hlast, hseparator]
        _ = separator position ++ ['\n'].intercalate
              (line (bytes.take bytesPerLine) :: (rows (bytes.drop bytesPerLine)).map line) := by
            rw [List.intercalate_cons_of_ne_nil hmore, List.append_assoc, List.append_assoc]

/-- A dump is its rows, with a line feed between one and the next. -/
theorem body_eq_rows (bytes : List UInt8) :
    body bytes = ['\n'].intercalate ((rows bytes).map line) := by
  rw [body_eq]
  by_cases hsome : bytes = []
  · rw [hsome, rows, if_pos rfl]
    rfl
  · exact bodyFrom_rows 0 bytes rfl hsome

/-- The table holds all bytes in their order. All of its rows are full but the last, and that one
has a byte at least. -/
structure Tabulates (bytes : List UInt8) (table : List (List UInt8)) : Prop where
  flatten_eq : table.flatten = bytes
  full : ∀ row ∈ table.dropLast, row.length = bytesPerLine
  fits : ∀ row ∈ table, row ≠ [] ∧ row.length ≤ bytesPerLine

theorem tabulates_rows (bytes : List UInt8) : Tabulates bytes (rows bytes) := by
  fun_induction rows bytes with
  | case1 =>
    constructor
    · rfl
    · simp
    · simp
  | case2 bytes hsome ih =>
    refine ⟨?_, ?_, ?_⟩
    · rw [List.flatten_cons, ih.flatten_eq, List.take_append_drop]
    · intro row hrow
      by_cases hlast : bytes.drop bytesPerLine = []
      · rw [hlast, rows, if_pos rfl] at hrow
        cases hrow
      · have hmore : rows (bytes.drop bytesPerLine) ≠ [] := by
          rw [rows, if_neg hlast]
          exact List.cons_ne_nil _ _
        rw [List.dropLast_cons_of_ne_nil hmore] at hrow
        rcases List.mem_cons.mp hrow with rfl | hlater
        · have hlong := mt List.drop_eq_nil_iff.mpr hlast
          rw [List.length_take]
          omega
        · exact ih.full row hlater
    · intro row hrow
      rcases List.mem_cons.mp hrow with rfl | hlater
      · refine ⟨fun hnone => hsome ?_, List.length_take_le _ _⟩
        exact (List.take_eq_nil_iff.mp hnone).resolve_left (by decide)
      · exact ih.fits row hlater

theorem rows_of_short {bytes : List UInt8} (hsome : bytes ≠ [])
    (hshort : bytes.length ≤ bytesPerLine) : rows bytes = [bytes] := by
  rw [rows, if_neg hsome, List.take_of_length_le hshort, List.drop_eq_nil_of_le hshort, rows,
    if_pos rfl]

/-- The text ends in the digits of a byte. -/
def EndsInByte (cs : List Char) : Prop := ∃ front b, cs = front ++ Hex.pair b

theorem EndsInByte.append {cs : List Char} (h : EndsInByte cs) (front : List Char) :
    EndsInByte (front ++ cs) := by
  obtain ⟨middle, b, rfl⟩ := h
  exact ⟨front ++ middle, b, (List.append_assoc _ _ _).symm⟩

theorem EndsInByte.not_isBlank {cs : List Char} (h : EndsInByte cs) {c : Char}
    (hlast : c ∈ cs.getLast?) : isBlank c = false := by
  obtain ⟨front, b, rfl⟩ := h
  rw [Hex.pair, List.getLast?_append] at hlast
  obtain rfl := Option.some.inj hlast
  exact Hex.not_isBlank_digit (Hex.low_lt b)

theorem endsInByte_line {row : List UInt8} (h : row ≠ []) : EndsInByte (line row) := by
  cases row with
  | nil => exact absurd rfl h
  | cons b row =>
    induction row generalizing b with
    | nil => exact ⟨[], b, line_singleton b⟩
    | cons other row ih =>
      rw [line_cons_cons]
      exact ((ih other (List.cons_ne_nil _ _)).append [' ']).append (Hex.pair b)

theorem endsInByte_bodyFrom (position : Nat) {bytes : List UInt8} (h : bytes ≠ []) :
    EndsInByte (bodyFrom position bytes) := by
  induction bytes generalizing position with
  | nil => exact absurd rfl h
  | cons b bytes ih =>
    rw [bodyFrom]
    by_cases hlast : bytes = []
    · rw [hlast]
      exact ⟨separator position, b, List.append_nil _⟩
    · exact (ih (position + 1) hlast).append _

theorem filter_bodyFrom (position : Nat) (bytes : List UInt8) :
    (bodyFrom position bytes).filter (fun c => !isBlank c) = bytes.flatMap Hex.pair := by
  induction bytes generalizing position with
  | nil => rfl
  | cons b bytes ih =>
    have hseparator : (separator position).filter (fun c => !isBlank c) = [] := by
      unfold separator
      split
      · rfl
      · split <;> decide
    have hpair : (Hex.pair b).filter (fun c => !isBlank c) = Hex.pair b := by
      simp [Hex.pair, Hex.not_isBlank_digit, Hex.high_lt, Hex.low_lt]
    rw [bodyFrom, List.filter_append, List.filter_append, hseparator, hpair, ih, List.flatMap_cons,
      List.nil_append]

theorem read?_body (bytes : List UInt8) : Hex.read? (body bytes) = some bytes := by
  rw [Hex.read?, body_eq, filter_bodyFrom, Hex.ofPairs?_flatMap_pair]

theorem not_isBlank_of_getLast? (bytes : List UInt8) :
    ∀ c ∈ (body bytes).getLast?, isBlank c = false := by
  intro c hc
  rw [body_eq] at hc
  by_cases hsome : bytes = []
  · rw [hsome] at hc
    cases hc
  · exact (endsInByte_bodyFrom 0 hsome).not_isBlank hc

/-- A dump under its header is the rows of the bytes. No row ends in a blank, and neither does the
dump. It is the spaced text with a line feed for every sixteenth space, and the bytes are read back
from it. -/
theorem titled_layout (title : String) (bytes : List UInt8) :
    ∃ text : List Char,
      titled title bytes = header title bytes.length ++ String.ofList text ∧
      Tabulates bytes (rows bytes) ∧
      text = ['\n'].intercalate ((rows bytes).map line) ∧
      (∀ row ∈ rows bytes, ∀ c ∈ (line row).getLast?, isBlank c = false) ∧
      (∀ c ∈ text.getLast?, isBlank c = false) ∧
      text = broken 0 (spaced bytes) ∧ spaced bytes = line bytes ∧
      Hex.read? text = some bytes := by
  have htable := tabulates_rows bytes
  refine ⟨body bytes, rfl, htable, body_eq_rows bytes, ?_, not_isBlank_of_getLast? bytes,
    body_eq_broken bytes, spaced_eq bytes, read?_body bytes⟩
  intro row hrow c hc
  exact (endsInByte_line (htable.fits row hrow).1).not_isBlank hc

end HexDump

end HelloExtensions.Text
