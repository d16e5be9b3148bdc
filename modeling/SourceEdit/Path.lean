import SourceEdit.Text.Basic

/-!
Paths as text. Components stand between slashes; a path that begins with a slash is absolute, and
exactly two leading slashes are kept apart from one. Nothing here looks at a file.
-/

set_option autoImplicit false

namespace SourceEdit

abbrev Path := Text

/-- The users of the system, with the home directory of each. -/
class Users where
  home? : Text → Option Path

/-- The users of lines with fields between colons, the first of which is the name and the sixth the
home directory. -/
@[reducible] def Users.ofLines (t : Text) : Users where
  home? name := ((Text.fields '\n' t).map (Text.fields ':')).findSome? fun fields =>
    if fields[0]? = some name then fields[5]? else none

instance (priority := low) : Users := .ofLines "root:x:0:0:root:/root:/bin/sh".toList

namespace Path

def isAbsolute (p : Path) : Bool := p.head? = some '/'

/-- `q` seen from the directory `p`. -/
def join (p q : Path) : Path :=
  if isAbsolute q then q
  else if p.isEmpty || p.getLast? = some '/' then p ++ q
  else p ++ '/' :: q

def baseName (p : Path) : Path := Text.takeEndWhile p (· ≠ '/')

/-- What stands in front of the last slash, without the slashes at its end unless it has nothing
else. -/
def dirName (p : Path) : Path :=
  let head := Text.dropEndWhile p (· ≠ '/')
  if head.all (· = '/') then head else head.dropEndWhile (· = '/')

/-- The base name in front of its last dot and what stands behind that dot. Dots that begin the
name belong to it. -/
def splitBase? (p : Path) : Option (Text × Text) :=
  let base := baseName p
  let dotted := base.dropEndWhile (· ≠ '.')
  if dotted.all (· = '.') then none else some (dotted.dropLast, base.takeEndWhile (· ≠ '.'))

def suffix (p : Path) : Text := ((splitBase? p).map (·.2)).getD []

def stem (p : Path) : Text := ((splitBase? p).map (·.1)).getD (baseName p)

/-- A lone dot at the end is a suffix too, an empty one. -/
def hasSuffix (p : Path) : Bool := (splitBase? p).isSome

def leadingSlashes (p : Path) : Text :=
  match p with
  | '/' :: '/' :: '/' :: _ => ['/']
  | '/' :: '/' :: _ => ['/', '/']
  | '/' :: _ => ['/']
  | _ => []

def isParent (name : Text) : Bool := name = ['.', '.']

/-- Takes one component into a path that is kept from its end: a parent component removes the one
before it, and at the top of an absolute path it goes nowhere. -/
def pushName (absolute : Bool) (names : List Text) (name : Text) : List Text :=
  if name = [] ∨ name = ['.'] then names
  else if !isParent name then name :: names
  else match names with
    | [] => if absolute then [] else [name]
    | last :: before => if isParent last then name :: names else before

def names (p : Path) : List Text :=
  ((Text.fields '/' p).foldl (pushName (isAbsolute p)) []).reverse

def normalize (p : Path) : Path :=
  let q := leadingSlashes p ++ Text.joinWith ['/'] (names p)
  if q.isEmpty then ['.'] else q

def absolute (workDir p : Path) : Path := normalize (if isAbsolute p then p else join workDir p)

def dropCommon : List Text → List Text → List Text × List Text
  | a :: s, b :: t => if a = b then dropCommon s t else (a :: s, b :: t)
  | s, t => (s, t)

def relativeTo (start p : Path) : Path :=
  let filled (p : Path) := (Text.fields '/' p).filter (!·.isEmpty)
  let (up, down) := dropCommon (filled start) (filled p)
  let q := Text.joinWith ['/'] (up.map (fun _ => ['.', '.']) ++ down)
  if q.isEmpty then ['.'] else q

def userName? (p : Path) : Option Text :=
  match p with
  | '~' :: c :: rest => if '/' ∈ c :: rest then none else some (c :: rest)
  | _ => none

def trimmed (p : Path) : Path :=
  let p := p.dropEndWhile (· = '/')
  if p.isEmpty then ['/'] else p

/-- A tilde that stands alone or in front of a slash is the home directory, and one in front of the
name of a user is that user's. -/
def expandHome [Users] (home p : Path) : Path :=
  match p with
  | ['~'] => join (trimmed home) []
  | '~' :: '/' :: rest => join (trimmed home) rest
  | _ => (((userName? p).bind Users.home?).map trimmed).getD p

def isWithin (dir p : Path) : Bool := p = dir || (join dir []).isPrefixOf p

end Path

end SourceEdit
