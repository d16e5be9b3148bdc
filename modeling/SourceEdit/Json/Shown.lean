import SourceEdit.Decimal.Shortest
import SourceEdit.Json.Basic
import SourceEdit.Text.Quoted

set_option autoImplicit false

namespace SourceEdit.Json

mutual

def shown : Json → Text
  | .null => "None".toList
  | .bool b => (if b then "True" else "False").toList
  | .int n => Text.ofInt n
  | .fraction d => d.shown
  | .infinity negative => (if negative then "-inf" else "inf").toList
  | .notANumber => "nan".toList
  | .string t => Text.quoted t
  | .array items => '[' :: Text.joinWith [',', ' '] (shownItems items) ++ [']']
  | .object members => '{' :: Text.joinWith [',', ' '] (shownMembers members) ++ ['}']

def shownItems : List Json → List Text
  | [] => []
  | v :: vs => shown v :: shownItems vs

def shownMembers : List (Text × Json) → List Text
  | [] => []
  | (name, v) :: ms => (Text.quoted name ++ [':', ' '] ++ shown v) :: shownMembers ms

end

def unitEscape (n : Nat) : Text := '\\' :: 'u' :: Text.hexDigits 4 n

def writtenChar (c : Char) : Text :=
  if c = '"' ∨ c = '\\' then ['\\', c]
  else if c = '\n' then ['\\', 'n']
  else if c = '\r' then ['\\', 'r']
  else if c = '\t' then ['\\', 't']
  else if c = '\x08' then ['\\', 'b']
  else if c = '\x0c' then ['\\', 'f']
  else if 0x20 ≤ c.toNat ∧ c.toNat < 0x7f then [c]
  else if c.toNat < 0x10000 then unitEscape c.toNat
  else
    let n := c.toNat - 0x10000
    unitEscape (0xd800 + n / 0x400) ++ unitEscape (0xdc00 + n % 0x400)

def writtenText (t : Text) : Text := '"' :: t.flatMap writtenChar ++ ['"']

def writtenTexts (members : List (Text × Text)) : Text :=
  if members.isEmpty then ['{', '}']
  else
    let line (m : Text × Text) : Text :=
      [' ', ' '] ++ writtenText m.1 ++ [':', ' '] ++ writtenText m.2
    ['{', '\n'] ++ Text.joinWith [',', '\n'] (members.map line) ++ ['\n', '}']

end SourceEdit.Json
