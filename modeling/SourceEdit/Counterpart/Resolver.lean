import SourceEdit.Counterpart.Cache
import SourceEdit.FileSystem.Resolve
import SourceEdit.Settings

/-!
The counterpart of a file: the header of a source file or a source file of a header. A file beside
it wins; else the index is searched for the path with the most in common.
-/

set_option autoImplicit false

namespace SourceEdit.Counterpart

def candidateNames (base : Text) (suffixes : List Text) : List Text :=
  suffixes.map fun s => base ++ '.' :: s

def commonLength : Text → Text → Nat
  | a :: s, b :: t =>
    if Text.lower [a] = Text.lower [b] then commonLength s t + 1 else 0
  | _, _ => 0

def candidates (settings : Settings) (p : Path) : List Text :=
  candidateNames (Path.stem p) (settings.kinds.oppositeSuffixes (isHeader p))

def sibling? (fs : FileSystem) (p : Path) (names : List Text) : Option Path :=
  (names.map (Path.join (Path.dirName p))).find? fs.hasPath

def endsWithAny (names : List Text) (p : Path) : Bool :=
  names.any fun n => (Text.lower n).isSuffixOf (Text.lower p)

def closest (p : Path) (best : Option Path × Nat) : List Path → Option Path
  | [] => best.1
  | q :: qs =>
    let n := commonLength q p
    closest p (if best.2 < n then (some q, n) else best) qs

def inIndex? (p : Path) (names : List Text) (index : List Path) : Option Path :=
  closest p (none, 0) (index.filter (endsWithAny names))

/-- The counterpart as the files are now; `index` gives the paths with one of some suffixes. -/
def search? (fs : FileSystem) (settings : Settings) (index : List Text → List Path) (p : Path) :
    Option Path :=
  let names := candidates settings p
  match sibling? fs p names with
  | some q => some q
  | none => inIndex? p names (index (settings.kinds.oppositeSuffixes (isHeader p)))

/-- The counterpart from the cache or by a search, which is then cached both ways. -/
def resolve (fs : FileSystem) (settings : Settings) (index : List Text → List Path)
    (c : CounterpartCache) (p : Path) : CounterpartCache × Option Path :=
  let p := Path.absolute fs.workDir p
  match (c.get? p).filter (!·.isEmpty) with
  | some q => (c, some q)
  | none =>
    match search? fs settings index p with
    | some q => (c.insert p q, some q)
    | none => (c, none)

end SourceEdit.Counterpart
