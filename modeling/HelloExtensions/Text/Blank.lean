/-!
White space and line ends of Unicode. Every line end is white space. A numeral may be
surrounded by fewer blanks than a line may be folded at: the four information separators of
ASCII do not count there.
-/
namespace HelloExtensions.Text

def blankRanges : List (Nat × Nat) :=
  [(0x9, 0xd), (0x1c, 0x20), (0x85, 0x85), (0xa0, 0xa0), (0x1680, 0x1680), (0x2000, 0x200a),
   (0x2028, 0x2029), (0x202f, 0x202f), (0x205f, 0x205f), (0x3000, 0x3000)]

def isBlank (c : Char) : Bool :=
  blankRanges.any fun r => r.1 ≤ c.toNat && c.toNat ≤ r.2

/-- Blanks of ASCII that may surround a numeral. -/
def isAsciiBlank (c : Char) : Bool :=
  c.toNat == 0x20 || (0x9 ≤ c.toNat && c.toNat ≤ 0xd)

/-- Blanks that may surround a numeral. -/
def isNumeralBlank (c : Char) : Bool :=
  if c.toNat < 127 then isAsciiBlank c else isBlank c

/-- A carriage return before a line feed makes one line end with it. -/
def endsLine (c : Char) : Bool :=
  (0xa ≤ c.toNat && c.toNat ≤ 0xd) || (0x1c ≤ c.toNat && c.toNat ≤ 0x1e) ||
    c.toNat == 0x85 || c.toNat == 0x2028 || c.toNat == 0x2029

/-- Put `c` at the front of the first line. -/
def consLine (c : Char) : List (List Char) → List (List Char)
  | [] => [[c]]
  | line :: lines => (c :: line) :: lines

/-- The lines of a text, each with its line end. -/
def lines : List Char → List (List Char)
  | [] => []
  | c :: cs =>
    if c.toNat = 0xd ∧ (cs.head?.map Char.toNat) = some 0xa then consLine c (lines cs)
    else if endsLine c then [c] :: lines cs
    else consLine c (lines cs)

theorem flatten_consLine (c : Char) (ls : List (List Char)) :
    (consLine c ls).flatten = c :: ls.flatten := by
  cases ls <;> rfl

/-- No character is lost between the lines. -/
theorem flatten_lines (cs : List Char) : (lines cs).flatten = cs := by
  induction cs with
  | nil => rfl
  | cons c cs ih =>
    rw [lines]
    split
    · rw [flatten_consLine, ih]
    · split
      · simp [ih]
      · rw [flatten_consLine, ih]

end HelloExtensions.Text
