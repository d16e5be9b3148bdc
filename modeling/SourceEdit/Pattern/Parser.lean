import SourceEdit.Pattern.Basic
import SourceEdit.Text.Digits

/-!
The written form of patterns: `.`, classes, escapes, anchors, groups with or without a name,
references to groups, alternatives, and repetitions that are greedy, lazy or possessive. Of the
forms that look around it knows the two for the edges of a word, `(?<!\w)` and `(?!\w)`.

The reader goes through the text once with a stack of the groups that are open. A text that is to be
taken as it stands is written with a backslash in front of each special character.
-/

set_option autoImplicit false

namespace SourceEdit

inductive PatternError where
  | endsInEscape
  | badEscape
  | unterminatedClass
  | badRange
  | nothingToRepeat
  | repeatedRepeat
  | badBounds
  | boundTooLarge
  | unterminatedGroup
  | unbalancedParenthesis
  | unknownExtension
  | badGroupName
  | groupNameTaken
  | unknownGroup
  | groupStillOpen
deriving DecidableEq, Repr

structure Expression where
  pattern : Pattern
  names : List (Text × Nat)
deriving DecidableEq, Repr

namespace Expression

inductive Escape where
  | char (c : Char)
  | item (i : ClassItem)
  | assertion (a : Assertion)
  | group (index : Nat)

def codeEscape (width : Nat) (rest : Text) : Except PatternError (Escape × Text) :=
  let (ds, rest) := Text.spanDigits 16 width rest
  if ds.length = width ∧ (Text.ofDigits 16 ds).isValidChar then
    .ok (.char (Char.ofNat (Text.ofDigits 16 ds)), rest)
  else .error .badEscape

def classEscape? : Char → Option ClassItem
  | 'd' => some (.decimal false)
  | 'D' => some (.decimal true)
  | 's' => some (.blank false)
  | 'S' => some (.blank true)
  | 'w' => some (.word false)
  | 'W' => some (.word true)
  | _ => none

def assertionEscape? : Char → Option Assertion
  | 'A' => some .textStart
  | 'Z' => some .textEnd
  | 'b' => some .wordBoundary
  | 'B' => some .noWordBoundary
  | _ => none

def controlEscape? : Char → Option Char
  | 'a' => some '\x07'
  | 'f' => some '\x0c'
  | 'n' => some '\n'
  | 'r' => some '\r'
  | 't' => some '\t'
  | 'v' => some '\x0b'
  | _ => none

def octalEscape (digits : List Nat) (rest : Text) : Except PatternError (Escape × Text) :=
  if Text.ofDigits 8 digits ≤ 0o377 then .ok (.char (Char.ofNat (Text.ofDigits 8 digits)), rest)
  else .error .badEscape

def groupEscape (digit : Nat) (rest : Text) : Except PatternError (Escape × Text) :=
  let (octal, behind) := Text.spanDigits 8 2 rest
  if digit < 8 ∧ octal.length = 2 then octalEscape (digit :: octal) behind
  else
    let (more, behind) := Text.spanDigits 10 1 rest
    .ok (.group (Text.ofDigits 10 (digit :: more)), behind)

def readEscape (inClass : Bool) : Text → Except PatternError (Escape × Text)
  | [] => .error .endsInEscape
  | c :: rest =>
    if let some i := classEscape? c then .ok (.item i, rest)
    else if let some d := controlEscape? c then .ok (.char d, rest)
    else if c = 'b' ∧ inClass then .ok (.char '\x08', rest)
    else if c = 'x' then codeEscape 2 rest
    else if c = 'u' then codeEscape 4 rest
    else if c = 'U' then codeEscape 8 rest
    else if c = '0' then
      let (ds, rest) := Text.spanDigits 8 2 rest
      octalEscape ds rest
    else if let some d := Text.digitValue? 10 c then
      if !inClass then groupEscape d rest
      else if d < 8 then
        let (ds, rest) := Text.spanDigits 8 2 rest
        octalEscape (d :: ds) rest
      else .error .badEscape
    else if c.isAlpha then
      match assertionEscape? c with
      | some a => if inClass then .error .badEscape else .ok (.assertion a, rest)
      | none => .error .badEscape
    else .ok (.char c, rest)

def readMember : Text → Except PatternError (ClassItem × Text)
  | [] => .error .unterminatedClass
  | '\\' :: rest => do
    match ← readEscape true rest with
    | (.char c, rest) => .ok (.char c, rest)
    | (.item i, rest) => .ok (i, rest)
    | _ => .error .badEscape
  | c :: rest => .ok (.char c, rest)

def readClass : (fuel : Nat) → List ClassItem → Text → Except PatternError (List ClassItem × Text)
  | 0, _, _ => .error .unterminatedClass
  | fuel + 1, items, t =>
    match t, items with
    | ']' :: rest, _ :: _ => .ok (items.reverse, rest)
    | _, _ => do
      match ← readMember t with
      | (i, '-' :: ']' :: rest) => .ok ((.char '-' :: i :: items).reverse, rest)
      | (i, '-' :: rest) =>
        match i, ← readMember rest with
        | .char first, (.char last, rest) =>
          if last < first then .error .badRange
          else readClass fuel (.range first last :: items) rest
        | _, _ => .error .badRange
      | (i, rest) => readClass fuel (i :: items) rest

/-- A part of an alternative. An anchor cannot be repeated, a repetition not again. -/
inductive Part where
  | plain (p : Pattern)
  | anchor (a : Assertion)
  | repeated (p : Pattern)

def Part.pattern : Part → Pattern
  | .plain p => p
  | .anchor a => .assert a
  | .repeated p => p

inductive GroupKind where
  | numbered (index : Nat)
  | bare
  | atomic

/-- A group that is being read: its finished alternatives and the parts of the present one, the
latest first. -/
structure OpenGroup where
  kind : GroupKind
  done : List Pattern
  parts : List Part

structure Reader where
  current : OpenGroup
  outer : List OpenGroup
  groups : Nat
  names : List (Text × Nat)

namespace OpenGroup

def alternative (g : OpenGroup) : Pattern := .ofList (g.parts.reverse.map (·.pattern))

def pattern (g : OpenGroup) : Pattern :=
  let body := g.done.foldl (fun later earlier => .alt earlier later) g.alternative
  match g.kind with
  | .numbered index => .group index body
  | .bare => body
  | .atomic => .atomic body

def isGroup (g : OpenGroup) (index : Nat) : Bool :=
  match g.kind with
  | .numbered i => i = index
  | _ => false

end OpenGroup

namespace Reader

def add (r : Reader) (p : Part) : Reader :=
  { r with current := { r.current with parts := p :: r.current.parts } }

def nextAlternative (r : Reader) : Reader :=
  let g := r.current
  { r with current := ⟨g.kind, g.alternative :: g.done, []⟩ }

def openGroup (r : Reader) (kind : GroupKind) : Reader :=
  { r with current := ⟨kind, [], []⟩, outer := r.current :: r.outer }

def openNumbered (r : Reader) : Reader :=
  { r.openGroup (.numbered (r.groups + 1)) with groups := r.groups + 1 }

def isOpen (r : Reader) (index : Nat) : Bool :=
  r.current.isGroup index || r.outer.any (·.isGroup index)

def addReference (r : Reader) (index : Nat) : Except PatternError Reader :=
  if index = 0 ∨ r.groups < index then .error .unknownGroup
  else if r.isOpen index then .error .groupStillOpen
  else .ok (r.add (.plain (.again index)))

def repeatLast (r : Reader) (wrap : Pattern → Pattern) : Except PatternError Reader :=
  match r.current.parts with
  | .plain p :: parts =>
    .ok { r with current := { r.current with parts := .repeated (wrap p) :: parts } }
  | .repeated _ :: _ => .error .repeatedRepeat
  | _ => .error .nothingToRepeat

end Reader

structure Bounds where
  least : Nat
  most : Option Nat

/-- The bounds of a repetition at the start of a text. A brace that begins no bounds is text. -/
def readBounds? : Text → Except PatternError (Option (Bounds × Text))
  | '*' :: rest => .ok (some (⟨0, none⟩, rest))
  | '+' :: rest => .ok (some (⟨1, none⟩, rest))
  | '?' :: rest => .ok (some (⟨0, some 1⟩, rest))
  | '{' :: '}' :: _ => .ok none
  | '{' :: rest =>
    let (low, rest) := Text.leadingDigits 10 rest
    let (high, rest) :=
      match rest with
      | ',' :: rest => Text.leadingDigits 10 rest
      | _ => (low, rest)
    match rest with
    | '}' :: rest =>
      let least := Text.ofDigits 10 low
      let most := if high.isEmpty then none else some (Text.ofDigits 10 high)
      let limit := 4294967295
      if limit ≤ least ∨ most.any (limit ≤ ·) then .error .boundTooLarge
      else if most.any (· < least) then .error .badBounds
      else .ok (some (⟨least, most⟩, rest))
    | _ => .ok none
  | _ => .ok none

def repetition (b : Bounds) (rest : Text) : (Pattern → Pattern) × Text :=
  match rest with
  | '?' :: rest => (.times false b.least b.most, rest)
  | '+' :: rest => (fun p => .atomic (.times true b.least b.most p), rest)
  | _ => (.times true b.least b.most, rest)

def isGroupName : Text → Bool
  | [] => false
  | c :: rest => Text.isWord c && !Text.isDecimal c && rest.all Text.isWord

def readName (close : Char) (t : Text) : Except PatternError (Text × Text) :=
  match t.span (· ≠ close) with
  | (name, _ :: rest) => if isGroupName name then .ok (name, rest) else .error .badGroupName
  | _ => .error .badGroupName

/-- What follows an opening parenthesis. Flags written in the pattern, groups that depend on whether
another one took part, and lookaround, but for the two assertions beside a whole word, are not
modelled: they are refused. -/
def readGroup (r : Reader) : Text → Except PatternError (Reader × Text)
  | '?' :: 'P' :: '<' :: rest => do
    let (name, rest) ← readName '>' rest
    if (r.names.lookup name).isSome then .error .groupNameTaken
    else .ok ({ r.openNumbered with names := r.names ++ [(name, r.groups + 1)] }, rest)
  | '?' :: 'P' :: '=' :: rest => do
    let (name, rest) ← readName ')' rest
    match r.names.lookup name with
    | some index => do .ok (← r.addReference index, rest)
    | none => .error .unknownGroup
  | '?' :: ':' :: rest => .ok (r.openGroup .bare, rest)
  | '?' :: '>' :: rest => .ok (r.openGroup .atomic, rest)
  | '?' :: '#' :: rest =>
    match rest.dropWhile (· ≠ ')') with
    | _ :: rest => .ok (r, rest)
    | [] => .error .unterminatedGroup
  | '?' :: '<' :: '!' :: '\\' :: 'w' :: ')' :: rest =>
    .ok (r.add (.plain (.assert .noWordBefore)), rest)
  | '?' :: '!' :: '\\' :: 'w' :: ')' :: rest =>
    .ok (r.add (.plain (.assert .noWordAfter)), rest)
  | '?' :: _ => .error .unknownExtension
  | rest => .ok (r.openNumbered, rest)

def readPart (r : Reader) (c : Char) (rest : Text) : Except PatternError (Reader × Text) :=
  match c with
  | '\\' => do
    match ← readEscape false rest with
    | (.char d, rest) => .ok (r.add (.plain (.char d)), rest)
    | (.item i, rest) => .ok (r.add (.plain (.oneOf false [i])), rest)
    | (.assertion a, rest) => .ok (r.add (.anchor a), rest)
    | (.group index, rest) => do .ok (← r.addReference index, rest)
  | '[' => do
    let (negated, rest) : Bool × Text :=
      match rest with
      | '^' :: rest => (true, rest)
      | _ => (false, rest)
    let (items, rest) ← readClass (rest.length + 1) [] rest
    .ok (r.add (.plain (.oneOf negated items)), rest)
  | '(' => readGroup r rest
  | ')' =>
    match r.outer with
    | [] => .error .unbalancedParenthesis
    | g :: gs =>
      .ok (Reader.add { r with current := g, outer := gs } (.plain r.current.pattern), rest)
  | '|' => .ok (r.nextAlternative, rest)
  | '.' => .ok (r.add (.plain .any), rest)
  | '^' => .ok (r.add (.anchor .lineStart), rest)
  | '$' => .ok (r.add (.anchor .lineEnd), rest)
  | _ => do
    match ← readBounds? (c :: rest) with
    | some (b, rest) =>
      let (wrap, rest) := repetition b rest
      .ok (← r.repeatLast wrap, rest)
    | none => .ok (r.add (.plain (.char c)), rest)

def readAll : (fuel : Nat) → Reader → Text → Except PatternError Expression
  | _, r, [] =>
    if r.outer.isEmpty then .ok ⟨r.current.pattern, r.names⟩ else .error .unterminatedGroup
  | 0, _, _ :: _ => .error .unterminatedGroup
  | fuel + 1, r, c :: rest => do
    let (r, rest) ← readPart r c rest
    readAll fuel r rest

/-- The pattern written by a text. Every step takes in at least one character, so the length of the
text bounds the steps. -/
def parse (t : Text) : Except PatternError Expression :=
  readAll t.length ⟨⟨.bare, [], []⟩, [], 0, []⟩ t

def specialChars : List Char :=
  ['(', ')', '[', ']', '{', '}', '?', '*', '+', '-', '|', '^', '$', '\\', '.', '&', '~', '#', ' ',
    '\t', '\n', '\r', '\x0b', '\x0c']

def escape (t : Text) : Text :=
  t.flatMap fun c => if specialChars.contains c then ['\\', c] else [c]

end Expression

end SourceEdit
