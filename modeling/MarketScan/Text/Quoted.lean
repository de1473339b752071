import MarketScan.Text.Invisible

/-!
# Quoted text

Text between quotation marks, as error messages show it: the usual short escapes, and the number of
a character that cannot be seen.
-/

namespace MarketScan.Text

/-- The lower-case hexadecimal digits of a number. -/
def hexDigits (n : Nat) : List Char := Nat.toDigits 16 n

/-- A character inside quotation marks. -/
def quoteChar (c : Char) : List Char :=
  match c with
  | '"' => ['\\', '"']
  | '\\' => ['\\', '\\']
  | '\n' => ['\\', 'n']
  | '\r' => ['\\', 'r']
  | '\t' => ['\\', 't']
  | '\x00' => ['\\', '0']
  | c =>
    if c.toNat < 32 || isInvisible c then '\\' :: 'u' :: '{' :: hexDigits c.toNat ++ ['}'] else [c]

/-- Text between quotation marks. -/
def quote (s : String) : String := String.ofList ('"' :: s.toList.flatMap quoteChar ++ ['"'])

end MarketScan.Text
