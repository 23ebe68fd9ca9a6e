/-!
# Bytes as text

Reads bytes as UTF-8 and never fails: each longest part that starts a character but does not finish
it, and each byte that starts none, becomes the replacement character.
-/

namespace Componentry.Text

/-- How a byte above ASCII starts a character: the number of bytes that follow, the least and the
greatest value of the first of them, and what the byte itself adds. -/
structure Lead where
  following : Nat
  least : Nat
  greatest : Nat
  bits : Nat

/-- The character that a byte starts. The bounds leave out forms that are too long, surrogates, and
codes above the last character. -/
def lead? (byte : Nat) : Option Lead :=
  if byte < 0xC2 then none
  else if byte < 0xE0 then some ⟨1, 0x80, 0xBF, byte - 0xC0⟩
  else if byte < 0xF0 then
    some ⟨2, if byte = 0xE0 then 0xA0 else 0x80, if byte = 0xED then 0x9F else 0xBF, byte - 0xE0⟩
  else if byte < 0xF5 then
    some ⟨3, if byte = 0xF0 then 0x90 else 0x80, if byte = 0xF4 then 0x8F else 0xBF, byte - 0xF0⟩
  else none

/-- The bytes after a lead that belong to its character. -/
def Lead.taken (lead : Lead) : List Nat → List Nat
  | [] => []
  | first :: rest =>
    if lead.least ≤ first ∧ first ≤ lead.greatest then
      first :: (rest.take (lead.following - 1)).takeWhile fun byte => 0x80 ≤ byte && byte ≤ 0xBF
    else []

/-- The character of a lead and the bytes after it, if none is missing. -/
def Lead.char (lead : Lead) (taken : List Nat) : Char :=
  if taken.length = lead.following then
    Char.ofNat (taken.foldl (fun code byte => code * 64 + (byte - 0x80)) lead.bits)
  else '�'

/-- Reads bytes as characters. -/
def decodeLossy : List Nat → List Char
  | [] => []
  | byte :: rest =>
    if byte < 0x80 then Char.ofNat byte :: decodeLossy rest
    else
      match lead? byte with
      | none => '�' :: decodeLossy rest
      | some lead =>
        lead.char (lead.taken rest) :: decodeLossy (rest.drop (lead.taken rest).length)
termination_by bytes => bytes.length
decreasing_by
  all_goals simp only [List.length_cons, List.length_drop]
  all_goals omega

end Componentry.Text
