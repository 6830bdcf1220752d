import HelloExtensions.Text.Blank

/-!
Decimal numerals: blanks, an optional sign, digits of any script of Unicode 14 with single
underscores between them, blanks. Each script lists its ten digits in order, so the start of
a group of ten tells what a digit is worth. The number of digits is bounded, and it may be so when
integers are written as well.
-/
namespace HelloExtensions.Text.Numeral

/-- The code points of the digits zero. -/
def zeros : List Nat :=
  [0x30, 0x660, 0x6f0, 0x7c0, 0x966, 0x9e6, 0xa66, 0xae6, 0xb66, 0xbe6, 0xc66, 0xce6, 0xd66,
   0xde6, 0xe50, 0xed0, 0xf20, 0x1040, 0x1090, 0x17e0, 0x1810, 0x1946, 0x19d0, 0x1a80, 0x1a90,
   0x1b50, 0x1bb0, 0x1c40, 0x1c50, 0xa620, 0xa8d0, 0xa900, 0xa9d0, 0xa9f0, 0xaa50, 0xabf0,
   0xff10, 0x104a0, 0x10d30, 0x11066, 0x110f0, 0x11136, 0x111d0, 0x112f0, 0x11450, 0x114d0,
   0x11650, 0x116c0, 0x11730, 0x118e0, 0x11950, 0x11c50, 0x11d50, 0x11da0, 0x16a60, 0x16ac0,
   0x16b50, 0x1d7ce, 0x1d7d8, 0x1d7e2, 0x1d7ec, 0x1d7f6, 0x1e140, 0x1e2f0, 0x1e950, 0x1fbf0]

def digit? (c : Char) : Option Nat :=
  (zeros.find? fun z => z ≤ c.toNat && c.toNat ≤ z + 9).map (c.toNat - ·)

/-- The digits with the underscores between them. -/
def isFigure (c : Char) : Bool := c == '_' || (digit? c).isSome

/-- No two underscores follow each other, and the last figure is none. -/
def wellSpaced : List Char → Bool
  | [] => true
  | [c] => c != '_'
  | c :: d :: cs => !(c == '_' && d == '_') && wellSpaced (d :: cs)

/-- A numeral has no more digits. -/
def digitCap : Nat := 4300

/-- The most digits that an integer may have where it is written. No limit is so low that it
matters to the numbers on a wire or to the sizes of byte strings. -/
structure DigitLimit where
  digits : Nat
  threshold_le : 640 ≤ digits

theorem threshold_le_digitCap : 640 ≤ digitCap := by decide

/-- The limit of a program that has not been told another one. -/
def DigitLimit.standard : DigitLimit := ⟨digitCap, threshold_le_digitCap⟩

/-- Whether an integer is written, as it has no more digits than the limit allows. -/
def isWritten (limit? : Option DigitLimit) (n : Int) : Bool :=
  limit?.all fun limit => n.natAbs < Nat.pow 10 limit.digits

/-- The number of digits that integers may have, if it keeps one of these from being written. -/
def exceeded? (limit? : Option DigitLimit) (integers : List Int) : Option Nat :=
  if integers.all (isWritten limit?) then none else limit?.map DigitLimit.digits

section

variable {limit? : Option DigitLimit} {integers : List Int}

theorem isWritten_iff {n : Int} :
    isWritten limit? n = true ↔ ∀ limit ∈ limit?, n.natAbs < Nat.pow 10 limit.digits := by
  cases limit? with
  | none => simp [isWritten]
  | some limit => simp [isWritten]

theorem exceeded?_of_all (h : ∀ n ∈ integers, isWritten limit? n = true) :
    exceeded? limit? integers = none := by
  rw [exceeded?, if_pos (List.all_eq_true.mpr h)]

theorem exceeded?_of_not_all (h : ¬ ∀ n ∈ integers, isWritten limit? n = true) :
    ∃ limit ∈ limit?, exceeded? limit? integers = some limit.digits := by
  cases limit? with
  | none => exact absurd (fun n _ => isWritten_iff.mpr fun limit hlimit => by cases hlimit) h
  | some limit =>
    refine ⟨limit, rfl, ?_⟩
    rw [exceeded?, if_neg (mt List.all_eq_true.mp h), Option.map_some]

end

/-- Why a text is no numeral. -/
inductive Defect where
  | malformed
  | tooLong (digits : Nat)
deriving DecidableEq, Repr

/-- The number of figures at the start of a text, behind which there may be blanks. The digits
are counted before it is asked what follows them. -/
def unsigned (blank : Char → Bool) (cs : List Char) : Except Defect Nat :=
  let figures := cs.takeWhile isFigure
  let digits := figures.filterMap digit?
  if figures.isEmpty || figures.head? == some '_' || !wellSpaced figures then .error .malformed
  else if digitCap < digits.length then .error (.tooLong digits.length)
  else if (cs.dropWhile isFigure).all blank then
    .ok (digits.foldl (fun n d => 10 * n + d) 0)
  else .error .malformed

def signed (blank : Char → Bool) : List Char → Except Defect Int
  | '-' :: cs => (unsigned blank cs).map fun n => -(n : Int)
  | '+' :: cs => (unsigned blank cs).map fun n => (n : Int)
  | cs => (unsigned blank cs).map fun n => (n : Int)

def read (s : String) : Except Defect Int :=
  signed isNumeralBlank (s.toList.dropWhile isNumeralBlank)

/-- Bytes are read as ASCII. A byte that is not ASCII is neither a digit nor a blank. -/
def readBytes (bytes : List UInt8) : Except Defect Int :=
  signed isAsciiBlank ((bytes.map fun b => Char.ofNat b.toNat).dropWhile isAsciiBlank)

end HelloExtensions.Text.Numeral
