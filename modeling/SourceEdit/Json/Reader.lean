import SourceEdit.Json.Basic
import SourceEdit.Table
import SourceEdit.Text.Digits
import SourceEdit.Text.Lines

set_option autoImplicit false

namespace SourceEdit

inductive JsonFault where
  | byteOrderMark
  | noValue
  | noName
  | noColon
  | noComma
  | unterminatedString
  | controlCharacter
  | badEscape
  | badCodeEscape
  | extraText
deriving DecidableEq, Repr

structure JsonError where
  fault : JsonFault
  offset : Nat
deriving DecidableEq, Repr

namespace JsonFault

def describe : JsonFault → String
  | .byteOrderMark => "Unexpected UTF-8 BOM (decode using utf-8-sig)"
  | .noValue => "Expecting value"
  | .noName => "Expecting property name enclosed in double quotes"
  | .noColon => "Expecting ':' delimiter"
  | .noComma => "Expecting ',' delimiter"
  | .unterminatedString => "Unterminated string starting at"
  | .controlCharacter => "Invalid control character at"
  | .badEscape => "Invalid \\escape"
  | .badCodeEscape => "Invalid \\uXXXX escape"
  | .extraText => "Extra data"

end JsonFault

def JsonError.message (e : JsonError) (t : Text) : Text :=
  let (line, column) := (LineIndex.ofText t).lineCol e.offset
  e.fault.describe.toList ++ ": line ".toList ++ Text.ofInt (line + 1) ++ " column ".toList ++
    Text.ofInt (column + 1) ++ " (char ".toList ++ Text.ofInt e.offset ++ [')']

namespace Json

abbrev Stop := JsonFault × Text

def skipSpace (t : Text) : Text := t.dropWhile fun c => c = ' ' || c = '\t' || c = '\n' || c = '\r'

def codeUnit? (t : Text) : Option (Nat × Text) :=
  let (ds, rest) := Text.spanDigits 16 4 t
  if ds.length = 4 ∧ rest ≠ [] then some (Text.ofDigits 16 ds, rest) else none

def isHighSurrogate (n : Nat) : Bool := 0xd800 ≤ n && n < 0xdc00

def isLowSurrogate (n : Nat) : Bool := 0xdc00 ≤ n && n < 0xe000

/-- The character of a unit. Half of a pair that stands alone is no character. -/
def unitChar (n : Nat) : Char :=
  if isHighSurrogate n || isLowSurrogate n then Char.ofNat 0xfffd else Char.ofNat n

def simpleEscape? : Char → Option Char
  | '"' => some '"'
  | '\\' => some '\\'
  | '/' => some '/'
  | 'b' => some '\x08'
  | 'f' => some '\x0c'
  | 'n' => some '\n'
  | 'r' => some '\r'
  | 't' => some '\t'
  | _ => none

def readEscape (opening start : Text) : Text → Except Stop (Char × Text)
  | [] => .error (.unterminatedString, opening)
  | 'u' :: rest =>
    match codeUnit? rest with
    | none => .error (.badCodeEscape, 'u' :: rest)
    | some (high, behind) =>
      match isHighSurrogate high, behind with
      | true, '\\' :: 'u' :: next =>
        match codeUnit? next with
        | some (low, behind') =>
          if isLowSurrogate low then
            .ok (Char.ofNat (0x10000 + (high - 0xd800) * 0x400 + (low - 0xdc00)), behind')
          else .ok (unitChar high, behind)
        | none => .ok (unitChar high, behind)
      | _, _ => .ok (unitChar high, behind)
  | c :: rest =>
    match simpleEscape? c with
    | some d => .ok (d, rest)
    | none => .error (.badEscape, start)

def readString (opening : Text) : (fuel : Nat) → Text → Except Stop (Text × Text)
  | 0, _ => .error (.unterminatedString, opening)
  | _ + 1, [] => .error (.unterminatedString, opening)
  | fuel + 1, c :: rest =>
    if c = '"' then .ok ([], rest)
    else if c = '\\' then do
      let (d, rest) ← readEscape opening (c :: rest) rest
      let (t, rest) ← readString opening fuel rest
      .ok (d :: t, rest)
    else if c.toNat < 0x20 then .error (.controlCharacter, c :: rest)
    else do
      let (t, rest) ← readString opening fuel rest
      .ok (c :: t, rest)

def readPoint : Text → List Nat × Text
  | '.' :: rest =>
    let (ds, behind) := Text.leadingDigits 10 rest
    if ds.isEmpty then ([], '.' :: rest) else (ds, behind)
  | t => ([], t)

def signed (negative : Bool) (n : Nat) : Int := if negative then -n else n

def readExponent? (t : Text) : Option (Int × Text) :=
  match t with
  | c :: rest =>
    if c = 'e' ∨ c = 'E' then
      let (negative, rest) : Bool × Text :=
        match rest with
        | '-' :: rest => (true, rest)
        | '+' :: rest => (false, rest)
        | _ => (false, rest)
      let (ds, behind) := Text.leadingDigits 10 rest
      if ds.isEmpty then none else some (signed negative (Text.ofDigits 10 ds), behind)
    else none
  | [] => none

def readNumber? (t : Text) : Option (Json × Text) :=
  let (negative, rest) : Bool × Text :=
    match t with
    | '-' :: rest => (true, rest)
    | _ => (false, t)
  let (whole, rest) : List Nat × Text :=
    match rest with
    | '0' :: rest => ([0], rest)
    | _ => Text.leadingDigits 10 rest
  if whole.isEmpty then none
  else
    let (point, rest) := readPoint rest
    let digits := Text.ofDigits 10 (whole ++ point)
    match point.isEmpty, readExponent? rest with
    | true, none => some (.int (signed negative digits), rest)
    | _, none => some (.fraction ⟨negative, digits, -(point.length : Int)⟩, rest)
    | _, some (e, rest) => some (.fraction ⟨negative, digits, e - (point.length : Int)⟩, rest)

def words : List (Text × Json) := [
  ("null".toList, .null), ("true".toList, .bool true), ("false".toList, .bool false),
  ("NaN".toList, .notANumber), ("Infinity".toList, .infinity false),
  ("-Infinity".toList, .infinity true)]

def readWord? (t : Text) : Option (Json × Text) :=
  words.findSome? fun (w, v) => if w.isPrefixOf t then some (v, t.drop w.length) else none

mutual

def readValue : (fuel : Nat) → Text → Except Stop (Json × Text)
  | 0, t => .error (.noValue, t)
  | fuel + 1, t =>
    match t with
    | '"' :: rest => (readString t (rest.length + 1) rest).map fun (s, rest) => (.string s, rest)
    | '[' :: rest =>
      match skipSpace rest with
      | ']' :: rest => .ok (.array [], rest)
      | rest => (readItems fuel rest).map fun (items, rest) => (.array items, rest)
    | '{' :: rest =>
      match skipSpace rest with
      | '}' :: rest => .ok (.object [], rest)
      | rest => (readMembers fuel [] rest).map fun (members, rest) => (.object members, rest)
    | _ =>
      match readWord? t <|> readNumber? t with
      | some r => .ok r
      | none => .error (.noValue, t)

def readItems : (fuel : Nat) → Text → Except Stop (List Json × Text)
  | 0, t => .error (.noValue, t)
  | fuel + 1, t => do
    let (item, rest) ← readValue fuel t
    match skipSpace rest with
    | ']' :: rest => .ok ([item], rest)
    | ',' :: rest =>
      let (items, rest) ← readItems fuel (skipSpace rest)
      .ok (item :: items, rest)
    | rest => .error (.noComma, rest)

def readMembers : (fuel : Nat) → Table Text Json → Text → Except Stop (Table Text Json × Text)
  | 0, _, t => .error (.noName, t)
  | fuel + 1, members, t =>
    match t with
    | '"' :: rest => do
      let (name, rest) ← readString t (rest.length + 1) rest
      match skipSpace rest with
      | ':' :: rest =>
        let (value, rest) ← readValue fuel (skipSpace rest)
        let members := members.insert name value
        match skipSpace rest with
        | '}' :: rest => .ok (members, rest)
        | ',' :: rest => readMembers fuel members (skipSpace rest)
        | rest => .error (.noComma, rest)
      | rest => .error (.noColon, rest)
    | _ => .error (.noName, t)

end

def parse (t : Text) : Except JsonError Json :=
  let faultAt (fault : JsonFault) (rest : Text) : JsonError := ⟨fault, t.length - rest.length⟩
  if t.head? = some (Char.ofNat 0xfeff) then .error (faultAt .byteOrderMark t)
  else match readValue (t.length + 1) (skipSpace t) with
    | .error (fault, rest) => .error (faultAt fault rest)
    | .ok (v, rest) =>
      match skipSpace rest with
      | [] => .ok v
      | rest => .error (faultAt .extraText rest)

end Json

end SourceEdit
