import SourceEdit.Include.Inventory
import SourceEdit.Text.Case

/-!
Where an include goes. It joins the group that suits it best, in its alphabetical place if the group
is sorted; the first include of a source goes behind `#pragma once`, the header guard or the leading
comments.
-/

set_option autoImplicit false

namespace SourceEdit

inductive Placement where
  | present
  | atLine (line : Nat) (newGroup : Bool)
deriving DecidableEq, Repr

namespace IncludeGroup

def score (g : IncludeGroup) (i : Include) : Nat × Nat :=
  ((g.scope.meets (.ofQuoting i.quoting)).toNat,
    (common (directories i.name) g.sharedDirectories).length)

def isBelow (a b : Nat × Nat) : Bool := a.1 < b.1 || a.1 = b.1 && a.2 < b.2

/-- The first group of the best score. -/
def best (i : Include) (g : IncludeGroup) (others : List IncludeGroup) : IncludeGroup :=
  others.foldl (fun best g => if isBelow (best.score i) (g.score i) then g else best) g

def key (l : IncludeLine) : Text := Text.lower l.item.name

def isSorted : List Text → Bool
  | a :: b :: rest => Text.le a b && isSorted (b :: rest)
  | _ => true

/-- The line in this group: in front of the first greater member of a sorted group, else behind the
group. -/
def lineFor (g : IncludeGroup) (i : Include) : Nat :=
  let greater := g.members.find? fun m => !Text.le (key m) (Text.lower i.name)
  match isSorted (g.members.map key), greater with
  | true, some m => m.line
  | _, _ => g.lastLine + 1

end IncludeGroup

namespace Placement

inductive CommentScan where
  | outside
  | inside

def blockEnd : Text := ['*', '/']

/-- How many lines there are up to the end of the leading comments; `done` counts the lines that are
certainly part of them, `index` the lines that were seen. -/
def leadingCommentLines : CommentScan → (done index : Nat) → List Text → Nat
  | _, done, _, [] => done
  | .inside, done, index, l :: ls =>
    let l := Text.strip l
    if !Text.occursIn blockEnd l then leadingCommentLines .inside done (index + 1) ls
    else if blockEnd.isSuffixOf l then leadingCommentLines .outside (index + 1) (index + 1) ls
    else done
  | .outside, done, index, l :: ls =>
    let l := Text.strip l
    if ['/', '*'].isPrefixOf l then
      if !Text.occursIn blockEnd (l.drop 2) then leadingCommentLines .inside done (index + 1) ls
      else if blockEnd.isSuffixOf l then leadingCommentLines .outside (index + 1) (index + 1) ls
      else done
    else if ['/', '/'].isPrefixOf l then leadingCommentLines .outside (index + 1) (index + 1) ls
    else if l.isEmpty then leadingCommentLines .outside done (index + 1) ls
    else done

def firstInclude (source : Text) : Placement :=
  match Query.pragmaOnce.run source with
  | c :: _ => .atLine (c.endLine + 2) true
  | [] =>
    match (Query.headerGuard.run source).find? fun c => c.name = ['v', 'a', 'l', 'u', 'e'] with
    | some c => .atLine (c.endLine + 2) true
    | none => .atLine (leadingCommentLines .outside 0 0 (Text.lines source) + 1) true

end Placement

namespace Inventory

def bestGroup? (inventory : Inventory) (i : Include) : Option IncludeGroup :=
  match inventory.groups with
  | [] => none
  | g :: gs => some (IncludeGroup.best i g gs)

/-- The group for an include that is given by its text. A text that is no include has no scope and
no name, so the first group suits it as well as any. -/
def bestGroupForText? (inventory : Inventory) (t : Text) : Option IncludeGroup :=
  match Include.parse? t with
  | some i => inventory.bestGroup? i
  | none => inventory.groups.head?

/-- Where an include goes in a source with this inventory. -/
def place (inventory : Inventory) (source : Text) (i : Include) (newGroup : Bool) : Placement :=
  if (inventory.find? i.name).isSome then .present
  else match inventory.groups with
    | [] => Placement.firstInclude source
    | g :: gs =>
      if newGroup then .atLine (((gs.getLast?).getD g).lastLine + 1) true
      else .atLine ((IncludeGroup.best i g gs).lineFor i) false

def placeText? (inventory : Inventory) (source t : Text) (newGroup : Bool) : Option Placement :=
  (Include.parse? t).map fun i => inventory.place source i newGroup

def lineOfText? (inventory : Inventory) (t : Text) : Option Nat :=
  (Include.parse? t).bind fun i => (inventory.find? i.name).map (·.line)

end Inventory

end SourceEdit
