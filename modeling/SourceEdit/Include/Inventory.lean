import SourceEdit.Include.Basic
import SourceEdit.Query

set_option autoImplicit false

namespace SourceEdit

/-- An include on a line, counted from one. -/
structure IncludeLine where
  item : Include
  line : Nat
deriving DecidableEq, Repr

abbrev Inventory := List IncludeLine

structure Scope where
  quoted : Bool
  angled : Bool
deriving DecidableEq, Repr

namespace Scope

def none : Scope := ⟨false, false⟩

def ofQuoting : Quoting → Scope
  | .quoted => ⟨true, false⟩
  | .angled => ⟨false, true⟩

def union (s t : Scope) : Scope := ⟨s.quoted || t.quoted, s.angled || t.angled⟩

def meets (s t : Scope) : Bool := s.quoted && t.quoted || s.angled && t.angled

def toNat (s : Scope) : Nat := s.quoted.toNat + 2 * s.angled.toNat

end Scope

namespace Inventory

def includeAt? (c : Capture) : Option IncludeLine :=
  (Include.parse? c.text).map fun i => ⟨i, c.startLine + 1⟩

def ofSource (source : Text) : Inventory := (Query.includeTargets.run source).filterMap includeAt?

def find? (inventory : Inventory) (name : Text) : Option IncludeLine :=
  List.find? (fun l => l.item.name = name) inventory

end Inventory

structure IncludeGroup where
  first : Nat
  head : IncludeLine
  tail : List IncludeLine
deriving DecidableEq, Repr

namespace IncludeGroup

def members (g : IncludeGroup) : List IncludeLine := g.head :: g.tail

def last (g : IncludeGroup) : Nat := g.first + g.tail.length

def firstLine (g : IncludeGroup) : Nat := g.head.line

def lastLine (g : IncludeGroup) : Nat := ((g.tail.getLast?).getD g.head).line

def scope (g : IncludeGroup) : Scope :=
  g.members.foldl (fun s m => s.union (.ofQuoting m.item.quoting)) .none

def directories (name : Text) : List Text := (Text.fields '/' name).dropLast

def common : List Text → List Text → List Text
  | a :: s, b :: t => if a = b then a :: common s t else []
  | _, _ => []

/-- The leading directories that all members share. -/
def sharedDirectories (g : IncludeGroup) : List Text :=
  g.tail.foldl (fun ds m => common ds (directories m.item.name)) (directories g.head.item.name)

def commonPath (g : IncludeGroup) : Text := g.sharedDirectories.flatMap (· ++ ['/'])

end IncludeGroup

namespace Inventory

/-- The groups of a list of includes whose first index is `index`, built from the end: an include
joins the group behind it if that group starts on the next line. -/
def groupsFrom (index : Nat) : Inventory → List IncludeGroup
  | [] => []
  | l :: ls =>
    match groupsFrom (index + 1) ls with
    | [] => [⟨index, l, []⟩]
    | g :: gs =>
      if g.head.line = l.line + 1 then ⟨index, l, g.members⟩ :: gs else ⟨index, l, []⟩ :: g :: gs

def groups (inventory : Inventory) : List IncludeGroup := inventory.groupsFrom 0

end Inventory

end SourceEdit
