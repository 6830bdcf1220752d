import HelloExtensions.Text.Blank
import HelloExtensions.Text.Quoted

/-!
A quoted text on several lines of bounded width. A text whose quotation fits the page is
written as that. Otherwise it is cut into chunks, each quoted on a line of its own, between
parentheses: a line of the text is a chunk if its quotation fits, and else is cut where a word
follows a blank, with as many words to a chunk as fit. The margin on the left and the closing
parenthesis narrow the lines. The chunks of a text make up the text.
-/
namespace HelloExtensions.Text.Folded

def pageWidth : Nat := 80

/-- What a quoted chunk may take up beside the margin. -/
def chunkWidth : Nat := pageWidth - 1

/-- What the last one may take up, which the closing parenthesis follows. -/
def lastWidth : Nat := chunkWidth - 1

def quotedWidth (cs : List Char) : Nat := (Quoted.encode cs).length

/-- Words with the blanks behind them; blanks at the start are a part of their own. -/
def parts : List Char → List (List Char)
  | [] => []
  | c :: cs =>
    match parts cs with
    | (d :: p) :: ps =>
      if isBlank c && !isBlank d then [c] :: (d :: p) :: ps else (c :: d :: p) :: ps
    | ps => [c] :: ps

/-- A chunk may be `final` wide if no part of its line follows. -/
def widthBefore (final : Nat) (following : List (List Char)) : Nat :=
  if following.isEmpty then final else chunkWidth

/-- Join parts to `current` while the chunk fits. -/
def fill (final : Nat) (current : List Char) : List (List Char) → List (List Char)
  | [] => if current.isEmpty then [] else [current]
  | p :: ps =>
    if quotedWidth (current ++ p) ≤ widthBefore final ps then fill final (current ++ p) ps
    else if current.isEmpty then fill final p ps
    else current :: fill final p ps

def lineChunks (final : Nat) (line : List Char) : List (List Char) :=
  if quotedWidth line ≤ final then [line] else fill final [] (parts line)

def chunksOfLines : List (List Char) → List (List Char)
  | [] => []
  | [line] => lineChunks lastWidth line
  | line :: rest => lineChunks chunkWidth line ++ chunksOfLines rest

def chunks (cs : List Char) : List (List Char) := chunksOfLines (lines cs)

/-- Quoted chunks below each other, those after the first behind a margin of one blank. -/
def layout : List (List Char) → List Char
  | [] => []
  | [c] => Quoted.encode c
  | c :: cs =>
    '(' :: Quoted.encode c ++ cs.flatMap (fun d => '\n' :: ' ' :: Quoted.encode d) ++ [')']

def encode (cs : List Char) : List Char :=
  if quotedWidth cs ≤ pageWidth then Quoted.encode cs else layout (chunks cs)

theorem flatten_parts (cs : List Char) : (parts cs).flatten = cs := by
  induction cs with
  | nil => rfl
  | cons c cs ih =>
    rw [parts]
    split
    · next d p ps h =>
      rw [h] at ih
      split <;> simpa using ih
    · simpa using ih

theorem flatten_fill (final : Nat) (current : List Char) (ps : List (List Char)) :
    (fill final current ps).flatten = current ++ ps.flatten := by
  induction ps generalizing current with
  | nil => cases current <;> simp [fill]
  | cons p ps ih =>
    rw [fill]
    split
    · simp [ih]
    · split
      · simp_all
      · simp [ih]

theorem flatten_lineChunks (final : Nat) (line : List Char) :
    (lineChunks final line).flatten = line := by
  rw [lineChunks]
  split
  · simp
  · simp [flatten_fill, flatten_parts]

theorem flatten_chunks (cs : List Char) : (chunks cs).flatten = cs := by
  suffices h : ∀ ls, (chunksOfLines ls).flatten = ls.flatten by rw [chunks, h, flatten_lines]
  intro ls
  induction ls with
  | nil => rfl
  | cons line rest ih =>
    cases rest with
    | nil => simp [chunksOfLines, flatten_lineChunks]
    | cons next rest => simp [chunksOfLines, flatten_lineChunks, ih]

end HelloExtensions.Text.Folded

namespace HelloExtensions.Text

def fold (s : String) : String := String.ofList (Folded.encode s.toList)

end HelloExtensions.Text
