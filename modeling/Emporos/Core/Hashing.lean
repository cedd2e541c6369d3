import Emporos.Core.Text
/-!
# Canonical documents

A document of strings, integers, booleans, nothing, lists and dictionaries
with strings for keys, and its text: JSON without blanks, in ASCII.
-/

namespace Emporos

/-- What a document is made of. A dictionary has its entries in the order
of their keys, since it is the same dictionary however it was filled. -/
inductive Canonical
  | null
  | bool (value : Bool)
  | int (value : ℤ)
  | str (value : String)
  | list (items : List Canonical)
  | dict (entries : List (String × Canonical))

namespace Canonical

/-! ## Strings -/

def hex (n : ℕ) : List Char :=
  '\\' :: 'u' :: [n / 4096 % 16, n / 256 % 16, n / 16 % 16, n % 16].map Nat.digitChar

/-- A character within a string, with `ensure_ascii`. One that two bytes do
not hold is written as a pair. -/
def escape (c : Char) : List Char :=
  if c = '"' then ['\\', '"']
  else if c = '\\' then ['\\', '\\']
  else if c = '\n' then ['\\', 'n']
  else if c = '\r' then ['\\', 'r']
  else if c = '\t' then ['\\', 't']
  else if c = '\x0c' then ['\\', 'f']
  else if c = '\x08' then ['\\', 'b']
  else if ' ' ≤ c ∧ c ≤ '~' then [c]
  else if c.toNat < 0x10000 then hex c.toNat
  else hex (0xd800 + (c.toNat - 0x10000) / 0x400) ++ hex (0xdc00 + (c.toNat - 0x10000) % 0x400)

def quote (s : List Char) : List Char := '"' :: s.flatMap escape ++ ['"']

/-! ## Texts -/

def intText (n : ℤ) : List Char :=
  if n < 0 then '-' :: Nat.toDigits 10 n.natAbs else Nat.toDigits 10 n.natAbs

mutual

/-- `json.dumps` with sorted keys and compact separators. -/
def text : Canonical → List Char
  | null => "null".toList
  | bool true => "true".toList
  | bool false => "false".toList
  | int n => intText n
  | str s => quote s.toList
  | list items => '[' :: textItems true items
  | dict entries => '{' :: textEntries true entries

/-- The items of a list, each but the first behind a comma. -/
def textItems (first : Bool) : List Canonical → List Char
  | [] => [']']
  | item :: rest => (if first then [] else [',']) ++ text item ++ textItems false rest

def textEntries (first : Bool) : List (String × Canonical) → List Char
  | [] => ['}']
  | (key, item) :: rest =>
      (if first then [] else [',']) ++ quote key.toList ++ ':' :: text item ++
        textEntries false rest

end

end Canonical

end Emporos
