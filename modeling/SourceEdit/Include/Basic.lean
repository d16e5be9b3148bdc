import SourceEdit.Directive
import SourceEdit.Path

set_option autoImplicit false

namespace SourceEdit

inductive Quoting where
  | quoted
  | angled
deriving DecidableEq, Repr

structure Include where
  name : Text
  quoting : Quoting
deriving DecidableEq, Repr

namespace Include

def target (i : Include) : Text :=
  match i.quoting with
  | .quoted => '"' :: i.name ++ ['"']
  | .angled => '<' :: i.name ++ ['>']

def dropKeyword (t : Text) : Text :=
  match t with
  | '#' :: rest =>
    let rest := Text.dropBlank rest
    if Directive.includeKeyword.isPrefixOf rest then
      Text.dropBlank (rest.drop Directive.includeKeyword.length)
    else t
  | _ => t

def startsComment : Text → Bool
  | '/' :: '/' :: _ => true
  | '/' :: '*' :: _ => true
  | _ => false

def isDelimiter (c : Char) : Bool := c = '<' || c = '>' || c = '"'

def delimited? (close : Char) (body : Text) : Option (Text × Text) :=
  match body.span fun c => !isDelimiter c && c ≠ '\n' with
  | (inner, c :: rest) => if c = close then some (inner, rest) else none
  | _ => none

def leadingTarget? : Text → Option (Quoting × Text × Text)
  | '"' :: body => (delimited? '"' body).map fun r => (.quoted, r)
  | '<' :: body => (delimited? '>' body).map fun r => (.angled, r)
  | _ => none

def beforeComment : Text → Text
  | [] => []
  | c :: rest => if startsComment (c :: rest) then [] else c :: beforeComment rest

def named? (name : Text) (quoting : Quoting) : Option Include :=
  let name := Text.replaceChar '\\' '/' (Text.strip name)
  if name.isEmpty then none else some ⟨name, quoting⟩

/-- A bare name is quoted if it has a suffix. -/
def ofBareName? (t : Text) : Option Include :=
  let name := Text.strip (beforeComment t)
  if name.any fun c => isDelimiter c || Text.isBlank c then none
  else named? name (if Path.hasSuffix name then .quoted else .angled)

def parse? (t : Text) : Option Include :=
  let t := Text.strip (dropKeyword (Text.strip t))
  match leadingTarget? t with
  | some (quoting, name, rest) =>
    let rest := Text.strip rest
    if rest.isEmpty || startsComment rest then named? name quoting else none
  | none => ofBareName? t

end Include

end SourceEdit
