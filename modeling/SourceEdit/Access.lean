import SourceEdit.Failure

set_option autoImplicit false

namespace SourceEdit.Access

def isWithinAny (allowed : List Path) (p : Path) : Bool := allowed.any (Path.isWithin · p)

def asksForNul (p : Path) : Bool := (Path.userName? p).any (·.contains '\x00')

/-- The path to use for a requested one: absolute, and without links if it is there. -/
def validate [Users] (fs : FileSystem) (allowed : List Path) (requested : Path) :
    Except AccessError Path :=
  if allowed.isEmpty then .error .nothingAllowed
  else if asksForNul requested then .error .nulCharacter
  else
    let p := Path.absolute fs.workDir (Path.expandHome fs.home requested)
    if !isWithinAny allowed p then .error (.outside p)
    else if fs.hasPath p then
      let real := Path.normalize (fs.realPath p)
      if isWithinAny allowed real then .ok real else .error .linkOutside
    else
      let parent := Path.dirName p
      if !fs.hasPath parent then .error (.noParent parent)
      else if isWithinAny allowed (Path.normalize (fs.realPath parent)) then .ok p
      else .error .parentOutside

end SourceEdit.Access
