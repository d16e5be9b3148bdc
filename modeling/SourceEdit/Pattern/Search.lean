import SourceEdit.Pattern.Basic

set_option autoImplicit false

namespace SourceEdit

structure Match where
  span : Span
  groups : Groups
deriving DecidableEq, Repr

namespace Pattern

def matchAt? (pattern : Pattern) (p : Point) : Option Match :=
  pattern.run (fun q => some ⟨⟨p.offset, q.offset⟩, q.groups⟩) p

def nonemptyMatchAt? (pattern : Pattern) (p : Point) : Option Match :=
  pattern.run
    (fun q => if q.offset = p.offset then none else some ⟨⟨p.offset, q.offset⟩, q.groups⟩) p

/-- The first match at or behind offset `start`; `before` is the text in front of `offset`, nearest
character first. -/
def firstFrom? (pattern : Pattern) (start : Nat) (before : Text) (offset : Nat) :
    Text → Option Match
  | [] => if start ≤ offset then pattern.matchAt? ⟨before, [], offset, []⟩ else none
  | c :: rest =>
    (if start ≤ offset then pattern.matchAt? ⟨before, c :: rest, offset, []⟩ else none) <|>
      firstFrom? pattern start (c :: before) (offset + 1) rest

def first? (pattern : Pattern) (t : Text) (start : Nat) : Option Match :=
  pattern.firstFrom? start [] 0 t

def matchesAt (pattern : Pattern) (p : Point) : List Match :=
  match pattern.matchAt? p with
  | none => []
  | some m =>
    if m.span.stop = p.offset then m :: (pattern.nonemptyMatchAt? p).toList else [m]

def matchesFrom (pattern : Pattern) (resume : Nat) (before : Text) (offset : Nat) :
    Text → List Match
  | [] => if resume ≤ offset then pattern.matchesAt ⟨before, [], offset, []⟩ else []
  | c :: rest =>
    let here := if resume ≤ offset then pattern.matchesAt ⟨before, c :: rest, offset, []⟩ else []
    let resume := (here.getLast?.map (·.span.stop)).getD resume
    here ++ matchesFrom pattern resume (c :: before) (offset + 1) rest

def allMatches (pattern : Pattern) (t : Text) : List Match := pattern.matchesFrom 0 [] 0 t

end Pattern

def Match.groupSpan? (m : Match) (group : Nat) : Option Span := m.groups.lookup group

end SourceEdit
