import SourceSwitch.Text.Offset

namespace SourceSwitch.Text

variable {s t v w : Text}

theorem byteLength_eq_zero_iff : byteLength t = 0 ↔ t = [] := by
  cases t with
  | nil => simp [byteLength]
  | cons c t =>
    have hsize := c.utf8Size_pos
    simp only [byteLength, reduceCtorEq, iff_false]
    omega

theorem eq_of_append_eq (h : s ++ t = v ++ w) (hlength : byteLength s = byteLength v) : s = v := by
  have hs := splitAt?_append s t
  rw [h, hlength, splitAt?_append] at hs
  exact (Prod.mk.inj (Option.some.inj hs)).1.symm

theorem exists_append_of_byteLength_le (h : s ++ t = v ++ w)
    (hlength : byteLength s ≤ byteLength v) : ∃ gap, v = s ++ gap := by
  rcases List.append_eq_append_iff.mp h with ⟨gap, hgap, -⟩ | ⟨gap, hgap, -⟩
  · exact ⟨gap, hgap⟩
  · rw [hgap, byteLength_append] at hlength
    obtain rfl : gap = [] := byteLength_eq_zero_iff.mp (by omega)
    exact ⟨[], by rw [hgap, List.append_nil, List.append_nil]⟩

end SourceSwitch.Text
