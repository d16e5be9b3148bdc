import SourceEdit.Failure
import SourceEdit.Json.Reader
import SourceEdit.Json.Shown

set_option autoImplicit false

namespace SourceEdit

structure Settings where
  kinds : KindTable
  excludes : List Text

namespace Settings

def standard : Settings where
  kinds :=
    (["c", "cc", "cpp", "cxx", "h", "hh", "hpp", "hxx"].map fun s => (s.toList, .source)) ++
      [("txt".toList, .text)]
  excludes := [".git", ".mcp", "__pycache__", "*.lock", "*.tmp"].map (·.toList)

theorem oppositeSuffixes_standard (header : Bool) :
    standard.kinds.oppositeSuffixes header =
      (if header then ["c", "cc", "cpp", "cxx"] else ["h", "hh", "hpp", "hxx"]).map (·.toList) := by
  cases header <;> exact List.mergeSort_of_pairwise (by decide +kernel)

def kindOf (s : Settings) (p : Path) : DocumentKind :=
  (s.kinds.get? (Text.lower (Path.suffix p))).getD .text

def kindOfName? (name : Text) : Option DocumentKind :=
  if name = "text".toList then some .text
  else if name = "cpp".toList then some .source
  else none

def kindOfJson (v : Json) : Except Failure DocumentKind :=
  match v with
  | .string name =>
    match kindOfName? name with
    | some k => .ok k
    | none => .error (.unknownKind v.shown)
  | _ => .error (.unknownKind v.shown)

def cleanSuffix (t : Text) : Text := Text.lower (t.dropWhile (· = '.'))

def putKinds : List (Text × Json) → KindTable → Except Failure KindTable
  | [], table => .ok table
  | (suffix, v) :: rest, table => do
    let k ← kindOfJson v
    putKinds rest (table.insert (cleanSuffix suffix) k)

def texts? : List Json → Option (List Text)
  | [] => some []
  | .string t :: rest => (texts? rest).map (t :: ·)
  | _ => none

/-- The settings of a file with this content; `p` is named in a failure. -/
def ofJson (p : Path) (v : Json) : Except Failure Settings := do
  let members : Table Text Json ← match v with
    | .object members => .ok members
    | _ => .error (.settings p .noObject)
  let kinds ← match members.get? "mime_types".toList with
    | none => .ok []
    | some (.object kinds) => .ok kinds
    | some _ => .error (.settings p .kindsNoObject)
  let excludes ← match members.get? "exclude_patterns".toList with
    | none => .ok standard.excludes
    | some (.array items) =>
      match texts? items with
      | some texts => .ok texts
      | none => .error (.settings p .patternsNoTexts)
    | some _ => .error (.settings p .patternsNoTexts)
  .ok ⟨← putKinds kinds standard.kinds, excludes⟩

def load (fs : FileSystem) (p : Path) : Except Failure Settings := do
  let content ← (fs.read p).mapError .file
  let text ← (Utf8.decode content).mapError .notUtf8
  let text := Text.unifyNewlines text
  let v ← (Json.parse text).mapError fun e => .settings p (.badSyntax (e.message text))
  ofJson p v

end Settings

end SourceEdit
