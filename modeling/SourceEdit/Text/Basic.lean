/-!
Text is a list of code points. Offsets and lengths count code points, and a position given from
outside may be any integer.
-/

set_option autoImplicit false

namespace SourceEdit

abbrev Text := List Char

namespace Text

def slice (t : Text) (start stop : Nat) : Text := (t.take stop).drop start

theorem slice_middle (a b c : Text) : (a ++ (b ++ c)).slice a.length (a.length + b.length) = b := by
  rw [slice, List.take_length_add_append, List.take_left, List.drop_left]

def clamp (t : Text) (position : Int) : Nat := min position.toNat t.length

theorem clamp_le (t : Text) (position : Int) : t.clamp position ≤ t.length :=
  Nat.min_le_right _ _

def takeEndWhile (t : Text) (p : Char → Bool) : Text := (t.reverse.takeWhile p).reverse

def dropEndWhile (t : Text) (p : Char → Bool) : Text := (t.reverse.dropWhile p).reverse

theorem dropEndWhile_append_takeEndWhile (t : Text) (p : Char → Bool) :
    t.dropEndWhile p ++ t.takeEndWhile p = t := by
  rw [dropEndWhile, takeEndWhile, ← List.reverse_append, List.takeWhile_append_dropWhile,
    List.reverse_reverse]

def fields (sep : Char) : Text → List Text
  | [] => [[]]
  | c :: rest =>
    if c = sep then [] :: fields sep rest
    else match fields sep rest with
      | [] => [[c]]
      | f :: fs => (c :: f) :: fs

theorem fields_ne_nil (sep : Char) (t : Text) : fields sep t ≠ [] := by
  cases t with
  | nil => simp [fields]
  | cons c rest =>
    unfold fields
    split
    · simp
    · split <;> simp

def joinWith (sep : Text) : List Text → Text
  | [] => []
  | [t] => t
  | t :: ts => t ++ sep ++ joinWith sep ts

theorem joinWith_cons (sep t : Text) {ts : List Text} (h : ts ≠ []) :
    joinWith sep (t :: ts) = t ++ sep ++ joinWith sep ts := by
  cases ts with
  | nil => exact absurd rfl h
  | cons _ _ => rfl

theorem joinWith_append (sep : Text) {ss ts : List Text} (hs : ss ≠ []) (ht : ts ≠ []) :
    joinWith sep (ss ++ ts) = joinWith sep ss ++ sep ++ joinWith sep ts := by
  induction ss with
  | nil => exact absurd rfl hs
  | cons s ss ih =>
    rw [List.cons_append, joinWith_cons sep s (List.append_ne_nil_of_right_ne_nil ss ht)]
    by_cases hss : ss = []
    · rw [hss]
      rfl
    · rw [ih hss, joinWith_cons sep s hss]
      simp only [List.append_assoc]

theorem joinWith_fields (sep : Char) (t : Text) : joinWith [sep] (fields sep t) = t := by
  induction t with
  | nil => rfl
  | cons c rest ih =>
    unfold fields
    split
    · next h => rw [joinWith_cons _ _ (fields_ne_nil sep rest), ih, h]; rfl
    · match hf : fields sep rest with
      | [] => exact absurd hf (fields_ne_nil sep rest)
      | [f] => rw [hf] at ih; simpa [joinWith] using ih
      | f :: g :: fs =>
        rw [hf, joinWith_cons _ _ (by simp)] at ih
        simp only [joinWith_cons [sep] (c :: f) (List.cons_ne_nil g fs), List.cons_append, ← ih]

def firstIndex? (needle : Text) : Text → Option Nat
  | [] => if needle.isEmpty then some 0 else none
  | c :: rest =>
    if needle.isPrefixOf (c :: rest) then some 0 else (firstIndex? needle rest).map (· + 1)

def occursIn (needle t : Text) : Bool := (firstIndex? needle t).isSome

def replaceChar (old new : Char) (t : Text) : Text := t.map fun c => if c = old then new else c

def le : Text → Text → Bool
  | [], _ => true
  | _ :: _, [] => false
  | a :: s, b :: t => if a = b then le s t else a.toNat < b.toNat

def ofInt (n : Int) : Text := (toString n).toList

end Text

end SourceEdit
