import PointsTo.Text.Quoted

/-!
# Texts as bytes

A `RawText` is a row of bytes. Mostly these are the bytes of characters, but some formats can write
any byte.
-/

namespace PointsTo

/-- A text as bytes, not all of which need belong to characters. -/
structure RawText where
  bytes : List UInt8
  deriving DecidableEq, Repr

namespace RawText

/-- The bytes of a string. -/
def ofString (s : String) : RawText := ⟨s.toList.flatMap String.utf8EncodeChar⟩

/-- The string that bytes stand for, if they are those of characters. -/
def string? (t : RawText) : Option String := String.fromUTF8? ⟨t.bytes.toArray⟩

/-- The character at the start of a row of bytes, and how many bytes it has. -/
def firstChar? (bytes : List UInt8) : Option (Char × Nat) :=
  [1, 2, 3, 4].findSome? fun n =>
    match (RawText.mk (bytes.take n)).string?.map String.toList with
    | some [c] => some (c, n)
    | _ => none

/-- How at most `n` characters of a row of bytes are written between quotes. A byte that starts no
character is written by its number. -/
def escape : Nat → List UInt8 → List Char
  | 0, _ => []
  | n + 1, bytes =>
    match bytes with
    | [] => []
    | b :: rest =>
      match firstChar? bytes with
      | some (c, k) => Text.escapeChar '"' c ++ escape n (bytes.drop k)
      | none => '\\' :: 'x' :: Text.hexDigits 2 b.toNat ++ escape n rest

/-- The text between double quotes. -/
def quote (t : RawText) : String := String.ofList ('"' :: escape t.bytes.length t.bytes ++ ['"'])

end RawText

end PointsTo
