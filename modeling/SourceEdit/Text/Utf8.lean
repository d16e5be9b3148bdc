import SourceEdit.Text.Basic

set_option autoImplicit false

namespace SourceEdit

abbrev Octets := List UInt8

/-- A character that is being read: how many octets it still lacks, the bounds of the next one, and
the bits read so far. -/
structure Unfinished where
  owed : Nat
  low : UInt8
  high : UInt8
  bits : Nat
deriving DecidableEq

inductive LeadOctet where
  | single (c : Char)
  | lead (u : Unfinished)
  | bad

inductive Utf8Flaw where
  | badStart
  | badContinuation
  | cutShort
deriving DecidableEq, Repr

structure Utf8Error where
  start : Nat
  stop : Nat
  octet : UInt8
  flaw : Utf8Flaw
deriving DecidableEq, Repr

def Unfinished.accepts (u : Unfinished) (b : UInt8) : Bool := u.low ≤ b && b ≤ u.high

def Unfinished.next (u : Unfinished) (b : UInt8) : Char ⊕ Unfinished :=
  let bits := u.bits * 0x40 + (b.toNat - 0x80)
  if u.owed ≤ 1 then .inl (Char.ofNat bits) else .inr ⟨u.owed - 1, 0x80, 0xbf, bits⟩

namespace Utf8

def encodeChar (c : Char) : Octets :=
  let n := c.toNat
  let tail (m : Nat) : UInt8 := UInt8.ofNat (0x80 + m % 0x40)
  if n < 0x80 then [UInt8.ofNat n]
  else if n < 0x800 then [UInt8.ofNat (0xc0 + n / 0x40), tail n]
  else if n < 0x10000 then [UInt8.ofNat (0xe0 + n / 0x1000), tail (n / 0x40), tail n]
  else [UInt8.ofNat (0xf0 + n / 0x40000), tail (n / 0x1000), tail (n / 0x40), tail n]

def encode (t : Text) : Octets := t.flatMap encodeChar

def lead (b : UInt8) : LeadOctet :=
  if b ≤ 0x7f then .single (Char.ofNat b.toNat)
  else if b < 0xc2 then .bad
  else if b ≤ 0xdf then .lead ⟨1, 0x80, 0xbf, b.toNat - 0xc0⟩
  else if b = 0xe0 then .lead ⟨2, 0xa0, 0xbf, 0⟩
  else if b = 0xed then .lead ⟨2, 0x80, 0x9f, 0xd⟩
  else if b ≤ 0xef then .lead ⟨2, 0x80, 0xbf, b.toNat - 0xe0⟩
  else if b = 0xf0 then .lead ⟨3, 0x90, 0xbf, 0⟩
  else if b ≤ 0xf3 then .lead ⟨3, 0x80, 0xbf, b.toNat - 0xf0⟩
  else if b = 0xf4 then .lead ⟨3, 0x80, 0x8f, 4⟩
  else .bad

def replacement : Char := Char.ofNat 0xfffd

def decodeFrom : Option Unfinished → Octets → Text
  | none, [] => []
  | some _, [] => [replacement]
  | pending, b :: rest =>
    let fresh (_ : Unit) : Text × Option Unfinished :=
      match lead b with
      | .single c => ([c], none)
      | .lead u => ([], some u)
      | .bad => ([replacement], none)
    let (shown, next) : Text × Option Unfinished :=
      match pending with
      | none => fresh ()
      | some u =>
        if u.accepts b then
          match u.next b with
          | .inl c => ([c], none)
          | .inr v => ([], some v)
        else
          let (cs, v) := fresh ()
          (replacement :: cs, v)
    shown ++ decodeFrom next rest

def decodeLossy (bytes : Octets) : Text := decodeFrom none bytes

/-- Reads octet by octet and stops at the first flaw. The open character and the offset of its first
octet go along with the offset of the next octet. -/
def readFrom : Option (Unfinished × Nat × UInt8) → Nat → Octets → Except Utf8Error Text
  | none, _, [] => .ok []
  | some (_, start, first), offset, [] => .error ⟨start, offset, first, .cutShort⟩
  | none, offset, b :: rest =>
    match lead b with
    | .single c => (readFrom none (offset + 1) rest).map (c :: ·)
    | .lead u => readFrom (some (u, offset, b)) (offset + 1) rest
    | .bad => .error ⟨offset, offset + 1, b, .badStart⟩
  | some (u, start, first), offset, b :: rest =>
    if u.accepts b then
      match u.next b with
      | .inl c => (readFrom none (offset + 1) rest).map (c :: ·)
      | .inr v => readFrom (some (v, start, first)) (offset + 1) rest
    else .error ⟨start, offset, first, .badContinuation⟩

def decode (bytes : Octets) : Except Utf8Error Text := readFrom none 0 bytes

end Utf8

namespace Text

def unifyNewlines : Text → Text
  | [] => []
  | '\r' :: '\n' :: rest => '\n' :: unifyNewlines rest
  | c :: rest => (if c = '\r' then '\n' else c) :: unifyNewlines rest

end Text

end SourceEdit
