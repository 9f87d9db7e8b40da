import SourceSwitch.Text.Blank

namespace SourceSwitch

abbrev Text := List Char

instance : Coe String Text := ⟨String.toList⟩

namespace Text

def isBlankText (t : Text) : Bool := t.all isBlank

def dropEnd (p : Char → Bool) (t : Text) : Text := (t.reverse.dropWhile p).reverse

def trimStart (t : Text) : Text := t.dropWhile isBlank

def trimEnd (t : Text) : Text := dropEnd isBlank t

def trim (t : Text) : Text := trimEnd (trimStart t)

def stripEnd (c : Char) (t : Text) : Text := dropEnd (· == c) t

def strip (c : Char) (t : Text) : Text := stripEnd c (t.dropWhile (· == c))

def after? : (lead t : Text) → Option Text
  | [], t => some t
  | _ :: _, [] => none
  | l :: lead, c :: t => if l = c then after? lead t else none

def nonempty? (t : Text) : Option Text := if t.isEmpty then none else some t

def replace (c : Char) (s t : Text) : Text := t.flatMap fun x => if x = c then s else [x]

theorem after?_eq_some_iff {lead t r : Text} : after? lead t = some r ↔ t = lead ++ r := by
  fun_induction after? lead t with
  | case1 t => simp [eq_comm]
  | case2 l lead => simp
  | case3 l lead t ih => simp [ih]
  | case4 l lead c t h => simp [Ne.symm h]

@[simp] theorem after?_append (lead t : Text) : after? lead (lead ++ t) = some t :=
  after?_eq_some_iff.mpr rfl

theorem nonempty?_eq_some_iff {s t : Text} : nonempty? s = some t ↔ s = t ∧ t ≠ [] := by
  rw [nonempty?, Option.ite_none_left_eq_some, Option.some_inj, and_comm]
  refine and_congr_right fun h => ?_
  simp [h]

end Text

end SourceSwitch
