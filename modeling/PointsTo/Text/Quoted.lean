import PointsTo.Text.Printable

/-!
# Quoted text

`quote` writes a text between double quotes so that it stays on one line and shows every character,
and `quoteChar` writes a character between single quotes: these quotes and backslashes are escaped,
the usual control characters have their letters, and every other character that is not printable is
written by its code point (two hex digits below U+0080, four below U+10000, eight above).
-/

namespace PointsTo.Text

/-- The hex digits of a number, padded with zeros to a least width. -/
def hexDigits (width n : Nat) : List Char :=
  let ds := Nat.toDigits 16 n
  List.replicate (width - ds.length) '0' ++ ds

/-- How a character is written between quotes of a kind. -/
def escapeChar (mark c : Char) : List Char :=
  if c = mark ∨ c = '\\' then ['\\', c]
  else if isPrintable c then [c]
  else
    match c.toNat with
    | 0x07 => ['\\', 'a']
    | 0x08 => ['\\', 'b']
    | 0x09 => ['\\', 't']
    | 0x0a => ['\\', 'n']
    | 0x0b => ['\\', 'v']
    | 0x0c => ['\\', 'f']
    | 0x0d => ['\\', 'r']
    | n =>
      if n < 0x80 then '\\' :: 'x' :: hexDigits 2 n
      else if n < 0x10000 then '\\' :: 'u' :: hexDigits 4 n
      else '\\' :: 'U' :: hexDigits 8 n

/-- A text between double quotes. -/
def quote (s : String) : String :=
  String.ofList ('"' :: s.toList.flatMap (escapeChar '"') ++ ['"'])

/-- A character between single quotes. -/
def quoteChar (c : Char) : String :=
  String.ofList ('\'' :: escapeChar '\'' c ++ ['\''])

end PointsTo.Text
