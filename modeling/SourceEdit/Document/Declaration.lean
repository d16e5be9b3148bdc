import SourceEdit.Directive
import SourceEdit.Document.Search

/-!
Forward declarations. `class A::B::C` is declared inside the namespaces `A` and `B`, behind the last
include line of a header.
-/

set_option autoImplicit false

namespace SourceEdit

structure ForwardDeclaration where
  keyword : Text
  namespaces : List Text
  name : Text
deriving DecidableEq, Repr

namespace ForwardDeclaration

def qualifiers : Text → List Text
  | [] => [[]]
  | ':' :: ':' :: rest => [] :: qualifiers rest
  | c :: rest =>
    match qualifiers rest with
    | [] => [[c]]
    | q :: qs => (c :: q) :: qs

def isKeyword (t : Text) : Bool := t = "class".toList || t = "struct".toList

def parse? (t : Text) : Option ForwardDeclaration :=
  let (keyword, rest) := (Text.strip t).span (· ≠ ' ')
  let name := Text.strip (rest.drop 1)
  if !isKeyword keyword || name.isEmpty then none
  else
    let parts := qualifiers name
    some ⟨keyword, parts.dropLast, (parts.getLast?).getD []⟩

def statement (f : ForwardDeclaration) : Text := f.keyword ++ ' ' :: f.name ++ [';']

def wrap (outer inner : Text) : Text :=
  "namespace ".toList ++ outer ++ [' ', '{', '\n'] ++ inner ++ ['\n', '}']

def render (f : ForwardDeclaration) : Text := f.namespaces.foldr wrap f.statement

end ForwardDeclaration

namespace Document

def isHeader (d : Document) : Bool := d.fileName.any SourceEdit.isHeader

/-- The end of the last line that begins with an include directive. -/
def lastIncludeLineEnd? (t : Text) : Option Nat :=
  ((Directive.placed t).filter fun l =>
    (Directive.behind? Directive.includeKeyword l.2).isSome).getLast?.map fun l => l.1 + l.2.length

def insertForwardDeclaration (d : Document) (t : Text) : Document × Except EditError Bool :=
  match d.isHeader, ForwardDeclaration.parse? t with
  | true, some f =>
    if (d.text.findForward? (Pattern.ofText f.statement).wholeWord 0).isSome then (d, .ok false)
    else match lastIncludeLineEnd? d.text with
      | none => (d, .ok false)
      | some offset => d.editOrFail [.insertion offset ('\n' :: f.render ++ ['\n'])] none
  | _, _ => (d, .ok false)

end Document

end SourceEdit
