import SourceSwitch.Text.Basic

namespace SourceSwitch.Text

def byteLength : Text → Nat
  | [] => 0
  | c :: t => c.utf8Size + byteLength t

/-- The parts before and after a byte offset. -/
def splitAt? : Nat → Text → Option (Text × Text)
  | 0, t => some ([], t)
  | _ + 1, [] => none
  | n + 1, c :: t =>
    if c.utf8Size ≤ n + 1 then
      (splitAt? (n + 1 - c.utf8Size) t).map fun (before, rest) => (c :: before, rest)
    else none

@[simp] theorem byteLength_append (s t : Text) :
    byteLength (s ++ t) = byteLength s + byteLength t := by
  induction s with
  | nil => simp [byteLength]
  | cons c s ih => simp [byteLength, ih, Nat.add_assoc]

theorem splitAt?_append (s t : Text) : splitAt? (byteLength s) (s ++ t) = some (s, t) := by
  induction s with
  | nil => simp [byteLength, splitAt?]
  | cons c s ih =>
    obtain ⟨n, hn⟩ : ∃ n, c.utf8Size = n + 1 :=
      ⟨_, (Nat.succ_pred (Nat.pos_iff_ne_zero.mp c.utf8Size_pos)).symm⟩
    have hsub : n + byteLength s + 1 - (n + 1) = byteLength s := by omega
    simp [byteLength, splitAt?, hn, Nat.add_right_comm n 1, hsub, ih]

theorem eq_append_of_splitAt? {n : Nat} {t s r : Text} (h : splitAt? n t = some (s, r)) :
    t = s ++ r ∧ byteLength s = n := by
  fun_induction splitAt? n t generalizing s r with
  | case1 t => simp_all [byteLength]
  | case2 => simp at h
  | case3 n c t hle ih =>
    obtain ⟨⟨s', r'⟩, hs, heq⟩ := Option.map_eq_some_iff.mp h
    obtain ⟨rfl, rfl⟩ := Prod.mk.inj heq
    obtain ⟨rfl, hlen⟩ := ih hs
    exact ⟨rfl, by simp only [byteLength]; omega⟩
  | case4 => simp at h

end SourceSwitch.Text
