import HelloExtensions.Text.Hex
import HelloExtensions.Text.Printable

/-!
Texts and byte strings between quotes. The quote is an apostrophe unless the text holds an
apostrophe and no double quote. The quote and the backslash are escaped by a backslash, tab,
line feed and carriage return by their letters, and what cannot be printed by its number.
-/
namespace HelloExtensions.Text.Quoted

def apostrophe : Char := '\x27'

def doubleQuote : Char := '\x22'

def backslash : Char := '\x5c'

/-- The quote that a text is put between. -/
def mark (cs : List Char) : Char :=
  if cs.contains apostrophe && !cs.contains doubleQuote then doubleQuote else apostrophe

/-- An escape by number has two, four or eight hexadecimal digits. -/
def numbered (n : Nat) : List Char :=
  if n < 0x100 then backslash :: 'x' :: Hex.fixed 2 n
  else if n < 0x10000 then backslash :: 'u' :: Hex.fixed 4 n
  else backslash :: 'U' :: Hex.fixed 8 n

def escape (quote c : Char) : List Char :=
  if c = quote ∨ c = backslash then [backslash, c]
  else if c.toNat = 9 then [backslash, 't']
  else if c.toNat = 10 then [backslash, 'n']
  else if c.toNat = 13 then [backslash, 'r']
  else if isPrintable c then [c]
  else numbered c.toNat

def encode (cs : List Char) : List Char :=
  mark cs :: (cs.flatMap (escape (mark cs)) ++ [mark cs])

/-- A byte is quoted as the character of its number, and only ASCII is printable. -/
def escapeByte (quote : Char) (b : UInt8) : List Char :=
  if b.toNat < 127 then escape quote (Char.ofNat b.toNat) else numbered b.toNat

def byteChars (bytes : List UInt8) : List Char :=
  bytes.map fun b => Char.ofNat b.toNat

def encodeBytes (bytes : List UInt8) : List Char :=
  'b' :: mark (byteChars bytes) ::
    (bytes.flatMap (escapeByte (mark (byteChars bytes))) ++ [mark (byteChars bytes)])

end HelloExtensions.Text.Quoted

namespace HelloExtensions.Text

def quote (s : String) : String := String.ofList (Quoted.encode s.toList)

def quoteBytes (bytes : List UInt8) : String := String.ofList (Quoted.encodeBytes bytes)

end HelloExtensions.Text
