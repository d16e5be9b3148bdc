import SourceEdit.Text.CharClass

/-!
Patterns over text, and the matcher. Alternatives are tried from left to right, and a greedy
repetition tries one more round first. The matcher is written with a continuation: a pattern matches
at a point if some way through it is accepted by what comes after.
-/

set_option autoImplicit false

namespace SourceEdit

inductive ClassItem where
  | char (c : Char)
  | range (first last : Char)
  | word (negated : Bool)
  | decimal (negated : Bool)
  | blank (negated : Bool)
deriving DecidableEq, Repr

inductive Assertion where
  | lineStart
  | lineEnd
  | textStart
  | textEnd
  | wordBoundary
  | noWordBoundary
  | noWordBefore
  | noWordAfter
deriving DecidableEq, Repr

inductive Pattern where
  | empty
  | char (c : Char)
  | any
  | oneOf (negated : Bool) (items : List ClassItem)
  | assert (a : Assertion)
  | again (group : Nat)
  | group (index : Nat) (body : Pattern)
  | seq (first second : Pattern)
  | alt (first second : Pattern)
  | times (greedy : Bool) (least : Nat) (most : Option Nat) (body : Pattern)
  | atomic (body : Pattern)
deriving DecidableEq, Repr

structure Span where
  start : Nat
  stop : Nat
deriving DecidableEq, Repr

abbrev Groups := List (Nat × Span)

/-- A place in a text: what is in front of it, nearest character first, what is behind it, and the
groups matched on the way here, the latest first. -/
structure Point where
  before : Text
  ahead : Text
  offset : Nat
  groups : Groups
deriving DecidableEq, Repr

def ClassItem.holds : ClassItem → Char → Bool
  | .char d, c => c = d
  | .range first last, c => first ≤ c && c ≤ last
  | .word negated, c => Text.isWord c != negated
  | .decimal negated, c => Text.isDecimal c != negated
  | .blank negated, c => Text.isBlank c != negated

namespace Point

def wordBefore (p : Point) : Bool := p.before.head?.any Text.isWord

def wordAfter (p : Point) : Bool := p.ahead.head?.any Text.isWord

def holds (p : Point) : Assertion → Bool
  | .lineStart => p.before.head?.all (· = '\n')
  | .lineEnd => p.ahead.head?.all (· = '\n')
  | .textStart => p.before.isEmpty
  | .textEnd => p.ahead.isEmpty
  | .wordBoundary => p.wordBefore != p.wordAfter
  | .noWordBoundary =>
    !(p.before.isEmpty && p.ahead.isEmpty) && p.wordBefore == p.wordAfter
  | .noWordBefore => !p.wordBefore
  | .noWordAfter => !p.wordAfter

def groupText? (p : Point) (group : Nat) : Option Text :=
  (p.groups.lookup group).map fun s =>
    ((p.before.drop (p.offset - s.stop)).take (s.stop - s.start)).reverse

def past? (p : Point) (t : Text) : Option Point :=
  if t.isPrefixOf p.ahead then
    some ⟨t.reverse ++ p.before, p.ahead.drop t.length, p.offset + t.length, p.groups⟩
  else none

def pastChar? (p : Point) (kind : Char → Bool) : Option Point :=
  match p.ahead with
  | [] => none
  | c :: rest => if kind c then some ⟨c :: p.before, rest, p.offset + 1, p.groups⟩ else none

def close (p : Point) (group : Nat) (start : Nat) : Point :=
  { p with groups := (group, ⟨start, p.offset⟩) :: p.groups }

end Point

namespace Pattern

/-- The rounds of a repetition. `count` rounds are done, and `last` is where the latest optional
round began: a round that would begin there again is not tried. -/
def rounds {α : Type} (greedy : Bool) (least : Nat) (most : Option Nat)
    (body : (Point → Option α) → Point → Option α) (k : Point → Option α) :
    (fuel count : Nat) → (last : Option Nat) → Point → Option α
  | 0, _, _, _ => none
  | fuel + 1, count, last, p =>
    if count < least then body (rounds greedy least most body k fuel (count + 1) last) p
    else
      let more (_ : Unit) : Option α :=
        if most.all (count < ·) && last != some p.offset then
          body (rounds greedy least most body k fuel (count + 1) (some p.offset)) p
        else none
      if greedy then more () <|> k p else k p <|> more ()

def run : Pattern → {α : Type} → (Point → Option α) → Point → Option α
  | .empty, _, k, p => k p
  | .char c, _, k, p => (p.pastChar? (· = c)).bind k
  | .any, _, k, p => (p.pastChar? (· ≠ '\n')).bind k
  | .oneOf negated items, _, k, p =>
    (p.pastChar? fun c => items.any (·.holds c) != negated).bind k
  | .assert a, _, k, p => if p.holds a then k p else none
  | .again index, _, k, p => ((p.groupText? index).bind p.past?).bind k
  | .group index body, _, k, p => body.run (fun q => k (q.close index p.offset)) p
  | .seq first second, _, k, p => first.run (second.run k) p
  | .alt first second, _, k, p => first.run k p <|> second.run k p
  | .times greedy least most body, _, k, p =>
    rounds greedy least most body.run k (least + p.ahead.length + 2) 0 none p
  | .atomic body, _, k, p => (body.run some p).bind k

def ofText : Text → Pattern
  | [] => .empty
  | c :: rest => .seq (.char c) (ofText rest)

def ofList : List Pattern → Pattern
  | [] => .empty
  | [p] => p
  | p :: ps => .seq p (ofList ps)

def wholeWord (p : Pattern) : Pattern :=
  .seq (.assert .noWordBefore) (.seq p (.assert .noWordAfter))

def many (p : Pattern) : Pattern := .times true 0 none p

end Pattern

end SourceEdit
