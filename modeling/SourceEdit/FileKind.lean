import SourceEdit.Path
import SourceEdit.Table
import SourceEdit.Text.Case

set_option autoImplicit false

namespace SourceEdit

inductive DocumentKind where
  | text
  | source
deriving DecidableEq, Repr

def isHeaderSuffix (suffix : Text) : Bool := (Text.lower suffix).head? = some 'h'

def isHeader (p : Path) : Bool := isHeaderSuffix (Path.suffix p)

abbrev KindTable := Table Text DocumentKind

namespace KindTable

/-- The source suffixes of the other category than a header's or a source file's, in order. -/
def oppositeSuffixes (table : KindTable) (header : Bool) : List Text :=
  let opposite := table.filter fun e => e.2 = .source && isHeaderSuffix e.1 != header
  (opposite.map (·.1)).mergeSort Text.le

end KindTable

end SourceEdit
