import SourceEdit.Comment
import SourceEdit.Directive
import SourceEdit.Pattern.Parser
import SourceEdit.Text.Lines

/-!
Queries over a source. A query runs on the source with its comments blanked; what it captures is
text of the source itself, with lines and columns counted from zero.
-/

set_option autoImplicit false

namespace SourceEdit

inductive Query where
  | includeTargets
  | pragmaOnce
  | headerGuard
  | expression (e : Expression)

structure Capture where
  name : Text
  startLine : Nat
  startColumn : Nat
  endLine : Nat
  endColumn : Nat
  text : Text
deriving DecidableEq, Repr

namespace Query

/-- The named groups that took part in a match, in the order of the groups. -/
def groupSpans (names : List (Text × Nat)) (m : Match) : List (Text × Span) :=
  names.filterMap fun (name, index) => (m.groupSpan? index).map fun s => (name, s)

def spans : Query → Text → List (Text × Span)
  | .includeTargets, code => (Directive.includeTargets code).map fun s => (['p', 'a', 't', 'h'], s)
  | .pragmaOnce, code => (Directive.onces code).map fun s => (['v', 'a', 'l', 'u', 'e'], s)
  | .headerGuard, code =>
    (Directive.headerGuards code).flatMap fun (name, value) =>
      [(['n', 'a', 'm', 'e'], name), (['v', 'a', 'l', 'u', 'e'], value)]
  | .expression e, code => (e.pattern.allMatches code).flatMap (groupSpans e.names)

def capture (index : LineIndex) (source : Text) (name : Text) (s : Span) : Capture :=
  let start := index.lineCol s.start
  let stop := index.lineCol s.stop
  ⟨name, start.1.toNat, start.2.toNat, stop.1.toNat, stop.2.toNat, source.slice s.start s.stop⟩

def run (q : Query) (source : Text) : List Capture :=
  let code := Comment.blankOut source
  let index := LineIndex.ofText code
  (q.spans code).map fun (name, s) => capture index source name s

end Query

end SourceEdit
