import SourceEdit.Text.Basic

set_option autoImplicit false

namespace SourceEdit.Text

def digitValue? (base : Nat) (c : Char) : Option Nat :=
  let v :=
    if '0' ≤ c ∧ c ≤ '9' then c.toNat - '0'.toNat
    else if 'a' ≤ c ∧ c ≤ 'f' then c.toNat - 'a'.toNat + 10
    else if 'A' ≤ c ∧ c ≤ 'F' then c.toNat - 'A'.toNat + 10
    else base
  if v < base then some v else none

def spanDigits (base : Nat) : (most : Nat) → Text → List Nat × Text
  | 0, t => ([], t)
  | _ + 1, [] => ([], [])
  | most + 1, c :: rest =>
    match digitValue? base c with
    | none => ([], c :: rest)
    | some d => let (ds, rest) := spanDigits base most rest; (d :: ds, rest)

def leadingDigits (base : Nat) (t : Text) : List Nat × Text := spanDigits base t.length t

def ofDigits (base : Nat) (digits : List Nat) : Nat := digits.foldl (fun n d => n * base + d) 0

def hexDigits (width n : Nat) : Text :=
  let ds := Nat.toDigits 16 n
  List.replicate (width - ds.length) '0' ++ ds

end SourceEdit.Text
