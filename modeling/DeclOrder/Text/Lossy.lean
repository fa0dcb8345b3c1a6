/-!
# Octets shown as text

Octets that may or may not be UTF-8, shown as a text: every character that they encode stands for
itself, and a replacement character stands for each longest run of octets that begins a character
but does not end it, and for each octet that cannot begin one.
-/

namespace DeclOrder.Text

/-- The character shown for octets that encode none. -/
def replacement : Char := '\uFFFD'

/-- The ranges that the octets after the first of a character lie in, or nothing if no character
begins so. -/
def owed? (first : UInt8) : Option (List (UInt8 × UInt8)) :=
  let rest := (0x80, 0xBF)
  if first < 0x80 then some []
  else if 0xC2 ≤ first ∧ first ≤ 0xDF then some [rest]
  else if first = 0xE0 then some [(0xA0, 0xBF), rest]
  else if first = 0xED then some [(0x80, 0x9F), rest]
  else if 0xE1 ≤ first ∧ first ≤ 0xEF then some [rest, rest]
  else if first = 0xF0 then some [(0x90, 0xBF), rest, rest]
  else if 0xF1 ≤ first ∧ first ≤ 0xF3 then some [rest, rest, rest]
  else if first = 0xF4 then some [(0x80, 0x8F), rest, rest]
  else none

/-- The character of complete octets. -/
def decoded (octets : List UInt8) : List Char :=
  ((String.fromUTF8? ⟨octets.toArray⟩).map String.toList).getD [replacement]

/-- What octets show, where a character has begun with `begun` and `owed` lists the ranges of the
octets that it still needs. -/
def shown (begun : List UInt8) (owed : List (UInt8 × UInt8)) : List UInt8 → List Char
  | [] => if begun.isEmpty then [] else [replacement]
  | octet :: rest =>
    let afresh := match owed? octet with
      | none => replacement :: shown [] [] rest
      | some [] => decoded [octet] ++ shown [] [] rest
      | some owed => shown [octet] owed rest
    match owed with
    | [] => afresh
    | (low, high) :: later =>
      if low ≤ octet ∧ octet ≤ high then
        let begun := begun ++ [octet]
        if later.isEmpty then decoded begun ++ shown [] [] rest else shown begun later rest
      else replacement :: afresh

/-- Octets as a text. -/
def lossy (octets : List UInt8) : String := String.ofList (shown [] [] octets)

end DeclOrder.Text
