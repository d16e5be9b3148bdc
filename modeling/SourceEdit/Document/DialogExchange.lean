import SourceEdit.Pattern.Search
import SourceEdit.Table

set_option autoImplicit false

namespace SourceEdit.DialogExchange

def blanks : Pattern := .many (.oneOf false [.blank false])

def inLine : Pattern := .many .any

def text (s : String) : Pattern := .ofText s.toList

def head (className : Text) : Pattern :=
  .ofList [text "void", blanks, .ofText className, blanks, text "::DoDataExchange", blanks,
    .char '(']

def entry : Pattern :=
  .ofList [text "DDX_", inLine, .char '(', inLine, .char ',', blanks, .group 1 inLine, blanks,
    .char ',', blanks, .group 2 inLine, .char ')']

def bodyLength? (depth : Int) : Text → Option Nat
  | [] => none
  | c :: rest =>
    if c = '{' then (bodyLength? (depth + 1) rest).map (· + 1)
    else if c = '}' then
      if depth = 1 then some 1 else (bodyLength? (depth - 1) rest).map (· + 1)
    else (bodyLength? depth rest).map (· + 1)

def groupText (t : Text) (m : Match) (group : Nat) : Text :=
  match m.groupSpan? group with
  | some s => t.slice s.start s.stop
  | none => []

def region? (source className : Text) : Option Text :=
  ((head className).first? source 0).bind fun m =>
    (bodyLength? 0 (source.drop m.span.stop)).map fun n =>
      source.slice m.span.start (m.span.stop + n)

def entries (region : Text) : Table Text Text :=
  .ofList ((entry.allMatches region).map fun m => (groupText region m 1, groupText region m 2))

def extract (source className : Text) : Table Text Text :=
  match region? source className with
  | none => []
  | some region => entries region

end SourceEdit.DialogExchange
