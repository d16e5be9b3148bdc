import SourceEdit.Decimal.Basic
import SourceEdit.Text.Basic

set_option autoImplicit false

namespace SourceEdit

inductive Json where
  | null
  | bool (b : Bool)
  | int (n : Int)
  | fraction (d : Decimal)
  | infinity (negative : Bool)
  | notANumber
  | string (t : Text)
  | array (items : List Json)
  | object (members : List (Text × Json))

end SourceEdit
