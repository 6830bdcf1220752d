/-!
Upper-casing as far as it can end in the letters of ASCII. Besides the small letters of ASCII
these are the dotless i, the long and the sharp s and seven ligatures; every other character
stays what it is, which never makes it one of these letters.
-/
namespace HelloExtensions.Text

def capital (c : Char) : List Char :=
  if 97 ≤ c.toNat ∧ c.toNat ≤ 122 then [Char.ofNat (c.toNat - 32)]
  else match c.toNat with
    | 0xdf => ['S', 'S']
    | 0x131 => ['I']
    | 0x17f => ['S']
    | 0xfb00 => ['F', 'F']
    | 0xfb01 => ['F', 'I']
    | 0xfb02 => ['F', 'L']
    | 0xfb03 => ['F', 'F', 'I']
    | 0xfb04 => ['F', 'F', 'L']
    | 0xfb05 => ['S', 'T']
    | 0xfb06 => ['S', 'T']
    | _ => [c]

def capitals (s : String) : String := String.ofList (s.toList.flatMap capital)

end HelloExtensions.Text
