import SourceEdit.Pattern.Search
import SourceEdit.Text.CharClass

set_option autoImplicit false

namespace SourceEdit.Directive

def placedFrom (offset : Nat) : List Text → List (Nat × Text)
  | [] => []
  | l :: ls => (offset, l) :: placedFrom (offset + l.length + 1) ls

def placed (source : Text) : List (Nat × Text) := placedFrom 0 (Text.fields '\n' source)

def skipSpaces (t : Text) : Text := t.dropWhile Text.isSpaceOrTab

def behind? (word line : Text) : Option Text :=
  match skipSpaces line with
  | '#' :: rest =>
    let rest := skipSpaces rest
    if word.isPrefixOf rest then some (rest.drop word.length) else none
  | _ => none

def argument? (word line : Text) : Option Text :=
  (behind? word line).bind fun rest =>
    if rest.head?.any Text.isSpaceOrTab then some (skipSpaces rest) else none

def closedLength? (quote : Char) (body : Text) : Option Nat :=
  let inner := body.takeWhile (· ≠ quote)
  if inner.length < body.length then some (inner.length + 2) else none

def targetLength? : Text → Option Nat
  | '"' :: body => closedLength? '"' body
  | '<' :: body => closedLength? '>' body
  | _ => none

def columns (line rest : Text) (length : Nat) : Span :=
  ⟨line.length - rest.length, line.length - rest.length + length⟩

def includeKeyword : Text := ['i', 'n', 'c', 'l', 'u', 'd', 'e']

def includeTarget? (line : Text) : Option Span :=
  (behind? includeKeyword line).bind fun rest =>
    let rest := skipSpaces rest
    (targetLength? rest).map (columns line rest)

def pragmaOnce? (line : Text) : Option Span :=
  (argument? ['p', 'r', 'a', 'g', 'm', 'a'] line).bind fun rest =>
    if ['o', 'n', 'c', 'e'].isPrefixOf rest && !(rest.drop 4).head?.any Text.isWord then
      some (columns line rest 4)
    else none

def isEmptyLine (line : Text) : Bool :=
  let rest := skipSpaces line
  rest = [] || rest = ['\r']

def startsName (c : Char) : Bool := c.isAlpha || c = '_'

def guardName? (line : Text) : Option Span :=
  (argument? ['i', 'f', 'n', 'd', 'e', 'f'] line).bind fun rest =>
    let name := rest.takeWhile Text.isWord
    if name.head?.any startsName && isEmptyLine (rest.drop name.length) then
      some (columns line rest name.length)
    else none

def definedName? (name line : Text) : Option Span :=
  (argument? ['d', 'e', 'f', 'i', 'n', 'e'] line).bind fun rest =>
    if name.isPrefixOf rest && !(rest.drop name.length).head?.any Text.isWord then
      some (columns line rest name.length)
    else none

def shift (offset : Nat) (s : Span) : Span := ⟨offset + s.start, offset + s.stop⟩

/-- The two names of a guard at the first of the lines: only empty lines may stand between them. -/
def guardAt? : List (Nat × Text) → Option (Span × Span)
  | [] => none
  | (offset, line) :: rest =>
    (guardName? line).bind fun s =>
      match rest.dropWhile fun l => isEmptyLine l.2 with
      | [] => none
      | (offset', line') :: _ =>
        (definedName? (Text.slice line s.start s.stop) line').map fun s' =>
          (shift offset s, shift offset' s')

def guards : List (Nat × Text) → List (Span × Span)
  | [] => []
  | l :: ls => (guardAt? (l :: ls)).toList ++ guards ls

def onEachLine (find? : Text → Option Span) (source : Text) : List Span :=
  (placed source).filterMap fun l => (find? l.2).map (shift l.1)

def includeTargets (source : Text) : List Span := onEachLine includeTarget? source

def onces (source : Text) : List Span := onEachLine pragmaOnce? source

def headerGuards (source : Text) : List (Span × Span) := guards (placed source)

end SourceEdit.Directive
