import SourceEdit.Text.Basic

set_option autoImplicit false

namespace SourceEdit.Glob

inductive Token where
  | star
  | anyChar
  | char (c : Char)
  | oneOf (negated : Bool) (ranges : List (Char × Char))
deriving DecidableEq, Repr

/-- The members of a class. A hyphen between two characters makes a range, which is empty if they
are out of order; at either end of the class it is a member. -/
def ranges : Text → List (Char × Char)
  | a :: '-' :: b :: rest => (a, b) :: ranges rest
  | a :: rest => (a, a) :: ranges rest
  | [] => []

def dropEmpty : Text → Text
  | a :: '-' :: b :: rest => if b < a then dropEmpty rest else a :: '-' :: b :: rest
  | t => t

/-- A class. The mark that negates it may stand behind empty ranges too. -/
def classToken (negated : Bool) (inner : Text) : Token :=
  match negated, dropEmpty inner with
  | false, '!' :: rest => .oneOf true (ranges rest)
  | _, t => .oneOf negated (ranges t)

def classText? (t : Text) : Option (Bool × Text × Text) :=
  let (negated, t) : Bool × Text :=
    match t with
    | '!' :: rest => (true, rest)
    | _ => (false, t)
  let (first, t) : Text × Text :=
    match t with
    | ']' :: rest => ([']'], rest)
    | _ => ([], t)
  match t.span (· ≠ ']') with
  | (inner, _ :: rest) => some (negated, first ++ inner, rest)
  | _ => none

def tokens : (fuel : Nat) → Text → List Token
  | 0, _ => []
  | _ + 1, [] => []
  | fuel + 1, '*' :: rest => .star :: tokens fuel rest
  | fuel + 1, '?' :: rest => .anyChar :: tokens fuel rest
  | fuel + 1, '[' :: rest =>
    match classText? rest with
    | some (negated, inner, rest) => classToken negated inner :: tokens fuel rest
    | none => .char '[' :: tokens fuel rest
  | fuel + 1, c :: rest => .char c :: tokens fuel rest

def Token.holds : Token → Char → Bool
  | .star, _ => false
  | .anyChar, _ => true
  | .char d, c => c = d
  | .oneOf negated ranges, c => ranges.any (fun r => r.1 ≤ c && c ≤ r.2) != negated

def matchesTokens : List Token → Text → Bool
  | [], name => name.isEmpty
  | .star :: ts, name => anyRest (matchesTokens ts) name
  | t :: ts, name =>
    match name with
    | [] => false
    | c :: rest => t.holds c && matchesTokens ts rest
where
  anyRest (p : Text → Bool) : Text → Bool
    | [] => p []
    | c :: rest => p (c :: rest) || anyRest p rest

def isMatch (pattern name : Text) : Bool := matchesTokens (tokens pattern.length pattern) name

end SourceEdit.Glob
