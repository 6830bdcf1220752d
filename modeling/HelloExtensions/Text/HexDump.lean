import HelloExtensions.Text.Hex

/-!
Hexadecimal dumps. Each byte is two digits, and a separator stands before each byte but the
first: a line feed where sixteen bytes have been written since the last one, a space
elsewhere. So no line ends in a blank.
-/
namespace HelloExtensions.Text.HexDump

def bytesPerLine : Nat := 16

/-- What stands before the byte at `position`. -/
def separator (position : Nat) : List Char :=
  if position = 0 then []
  else if position % bytesPerLine = 0 then ['\n'] else [' ']

def spaced (bytes : List UInt8) : List Char :=
  bytes.zipIdx.flatMap fun (b, i) => (if i = 0 then [] else [' ']) ++ Hex.pair b

def body (bytes : List UInt8) : List Char :=
  bytes.zipIdx.flatMap fun (b, i) => separator i ++ Hex.pair b

/-- A dump under a line that names it and counts its bytes. -/
def titled (title : String) (bytes : List UInt8) : String :=
  s!"  - {title} [{bytes.length} bytes]:\n" ++ String.ofList (body bytes)

end HelloExtensions.Text.HexDump
