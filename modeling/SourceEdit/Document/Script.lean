import SourceEdit.Document.Basic

/-!
Scripts of an edit block: edits, cursor requests, blocks inside the block, failures and their
handling, and other steps that run while the block is open. The document may be part of a larger
state, which the other steps may change.
-/

set_option autoImplicit false

namespace SourceEdit

structure Focus (σ : Type) where
  get : σ → Document
  set : Document → σ → σ

def Focus.modify {σ : Type} (focus : Focus σ) (f : Document → Document) (s : σ) : σ :=
  focus.set (f (focus.get s)) s

def Focus.self : Focus Document := ⟨id, fun d _ => d⟩

inductive Script (σ : Type) where
  | edit (e : Edit)
  | cursor (position : Int) (anchor : Option Int)
  | nested (body : List (Script σ))
  | attempt (body : List (Script σ))
  | fail (message : Text)
  | step (f : σ → σ)

inductive BlockError where
  | rejected (e : EditError)
  | raised (message : Text)
deriving DecidableEq, Repr

namespace Script

variable {σ : Type}

/-- Opens a block, runs its body and closes the block, which is abandoned if the body failed. -/
def inBlock (focus : Focus σ) (body : σ → σ × Option BlockError) (s : σ) :
    σ × Option BlockError :=
  let (s, failure) := body (focus.modify Document.openBlock s)
  let (d, rejected) := (focus.get s).closeBlock failure.isSome
  (focus.set d s, failure <|> rejected.map .rejected)

mutual

def run (focus : Focus σ) : Script σ → σ → σ × Option BlockError
  | .edit e, s => (focus.modify (·.record e) s, none)
  | .cursor position anchor, s => (focus.modify (·.requestCursor position anchor) s, none)
  | .nested body, s => inBlock focus (runAll focus body) s
  | .attempt body, s =>
    match inBlock focus (runAll focus body) s with
    | (s, some (.raised _)) => (s, none)
    | r => r
  | .fail message, s => (s, some (.raised message))
  | .step f, s => (f s, none)

def runAll (focus : Focus σ) : List (Script σ) → σ → σ × Option BlockError
  | [], s => (s, none)
  | a :: rest, s =>
    match run focus a s with
    | (s, none) => runAll focus rest s
    | r => r

end

def runBlock (focus : Focus σ) (body : List (Script σ)) (s : σ) : σ × Option BlockError :=
  inBlock focus (runAll focus body) s

end Script

end SourceEdit
