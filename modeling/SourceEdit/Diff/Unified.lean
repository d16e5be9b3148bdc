import SourceEdit.Diff.Segment
import SourceEdit.Text.Lines

set_option autoImplicit false

namespace SourceEdit.Diff

structure Hunk where
  oldStart : Nat
  newStart : Nat
  segments : List Segment

def context : Nat := 3

def trimStart : List Segment → Nat × List Segment
  | .kept l :: rest => (l.length - context, .kept (l.drop (l.length - context)) :: rest)
  | segments => (0, segments)

def trimEnd : List Segment → List Segment
  | [] => []
  | [.kept l] => [.kept (l.take context)]
  | s :: rest => s :: trimEnd rest

/-- Cuts inside kept segments that are longer than twice the context. The first answer is what
belongs to the hunk that goes on from before. -/
def cut (old new : Nat) : List Segment → List Segment × List Hunk
  | [] => ([], [])
  | s :: rest =>
    let (current, later) := cut (old + s.before.length) (new + s.after.length) rest
    match s with
    | .kept l =>
      let skipped := l.length - context
      if 2 * context < l.length then
        ([.kept (l.take context)],
          ⟨old + skipped, new + skipped, .kept (l.drop skipped) :: current⟩ :: later)
      else (s :: current, later)
    | .replaced _ _ => (s :: current, later)

def hunks (segments : List Segment) : List Hunk :=
  let (skipped, segments) := trimStart segments
  let (first, later) := cut skipped skipped (trimEnd segments)
  (⟨skipped, skipped, first⟩ :: later).filter fun h => h.segments.any (·.isChange)

/-- The first line, counted from one, and the number of lines unless it is one. Without lines the
line in front of them is given. -/
def rangeText (start length : Nat) : Text :=
  if length = 1 then Text.ofInt (start + 1)
  else Text.ofInt (if length = 0 then (start : Int) else start + 1) ++ ',' :: Text.ofInt length

def segmentText : Segment → Text
  | .kept lines => lines.flatMap (' ' :: ·)
  | .replaced old new => old.flatMap ('-' :: ·) ++ new.flatMap ('+' :: ·)

def hunkText (h : Hunk) : Text :=
  let count (side : Segment → List Text) := (h.segments.flatMap side).length
  "@@ -".toList ++ rangeText h.oldStart (count Segment.before) ++ " +".toList ++
    rangeText h.newStart (count Segment.after) ++ " @@\n".toList ++ h.segments.flatMap segmentText

def endedLines (t : Text) : List Text :=
  (Text.splitLines t).map fun l => if l.getLast? = some '\n' then l else l ++ ['\n']

def unified (before after : Text) (oldName newName : Text) : Text :=
  match hunks (segments (endedLines before) (endedLines after)) with
  | [] => []
  | hs =>
    "--- a/".toList ++ oldName ++ "\n+++ b/".toList ++ newName ++ ['\n'] ++ hs.flatMap hunkText

end SourceEdit.Diff
