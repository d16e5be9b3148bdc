import SourceEdit.Path
import SourceEdit.Table
import SourceEdit.Text.Case

set_option autoImplicit false

namespace SourceEdit

structure CounterpartCache where
  entries : Table Path Path
deriving DecidableEq, Repr

namespace CounterpartCache

def empty : CounterpartCache := ⟨[]⟩

def get? (c : CounterpartCache) (p : Path) : Option Path := c.entries.get? p

def size (c : CounterpartCache) : Nat := c.entries.length

def put (c : CounterpartCache) (p q : Path) : CounterpartCache := ⟨c.entries.insert p q⟩

def drop (c : CounterpartCache) (p : Path) : CounterpartCache := ⟨c.entries.erase p⟩

def insert (c : CounterpartCache) (p q : Path) : CounterpartCache := (c.put p q).put q p

/-- Drops the entry of a path, and that of its counterpart if it leads back. -/
def invalidate (c : CounterpartCache) (p : Path) : CounterpartCache :=
  match c.get? p with
  | none => c
  | some q =>
    let c := c.drop p
    if c.get? q = some p then c.drop q else c

def rename (c : CounterpartCache) (old new : Path) : CounterpartCache :=
  match c.get? old with
  | none => c
  | some q => ((c.drop old).put new q).put q new

def lowerStem (p : Path) : Text := Text.lower (Path.stem p)

def fileCreated (c : CounterpartCache) (p : Path) : CounterpartCache :=
  ⟨c.entries.filter fun e => lowerStem e.1 ≠ lowerStem p⟩

@[simp] theorem get?_empty (p : Path) : empty.get? p = none := rfl

theorem get?_put (c : CounterpartCache) (p q r : Path) :
    (c.put p q).get? r = if p = r then some q else c.get? r :=
  Table.get?_insert c.entries p r q

theorem get?_drop (c : CounterpartCache) (p r : Path) :
    (c.drop p).get? r = if p = r then none else c.get? r :=
  Table.get?_erase c.entries p r

end CounterpartCache

end SourceEdit
