import JpaScaffold.Text.Printable

/-!
A text between double quotes, with everything that would not show written as an escape. Messages
quote names in this way.
-/
namespace JpaScaffold.Text

/-- The number of a character in lower case hexadecimal digits. -/
def hexDigits (c : Char) : List Char := Nat.toDigits 16 c.toNat

def quotedChar (c : Char) : List Char :=
  match c with
  | '"' => ['\\', '"']
  | '\\' => ['\\', '\\']
  | '\t' => ['\\', 't']
  | '\r' => ['\\', 'r']
  | '\n' => ['\\', 'n']
  | '\x00' => ['\\', '0']
  | c =>
    if extendsGrapheme c || !isPrintable c then
      ['\\', 'u', '\x7b'] ++ hexDigits c ++ ['\x7d']
    else [c]

def quoted (cs : List Char) : List Char := '"' :: cs.flatMap quotedChar ++ ['"']

end JpaScaffold.Text
