import Mathlib.Data.List.DropRight
import SourceSwitch.Text.Basic

namespace SourceSwitch.Text

variable {t v w : Text}

/-- A text's characters are gone through, and not all that there are. -/
instance decidableForallMem {t : Text} {p : Char → Prop} [DecidablePred p] :
    Decidable (∀ c ∈ t, p c) := List.decidableBAll p t

theorem isAlphanum_of_isBlank {c : Char} (hc : isBlank c) : c.isAlphanum = false := by
  rw [Bool.eq_false_iff]
  intro h
  change (decide (65 ≤ c.val ∧ c.val ≤ 90) || 97 ≤ c.val && c.val ≤ 122 || c.isDigit) = true at h
  simp only [Char.isDigit, Bool.or_eq_true, Bool.and_eq_true, decide_eq_true_eq, ge_iff_le,
    UInt32.le_iff_toNat_le] at h
  change (((65 ≤ c.toNat ∧ c.toNat ≤ 90) ∨ (97 ≤ c.toNat ∧ c.toNat ≤ 122)) ∨
    (48 ≤ c.toNat ∧ c.toNat ≤ 57)) at h
  simp [isBlank, blankRanges] at hc
  omega

@[simp] theorem isBlankText_nil : isBlankText [] := rfl

@[simp] theorem isBlankText_cons (c : Char) (t : Text) :
    isBlankText (c :: t) ↔ isBlank c ∧ isBlankText t := by
  simp [isBlankText]

@[simp] theorem isBlankText_append (v w : Text) :
    isBlankText (v ++ w) ↔ isBlankText v ∧ isBlankText w := by
  simp [isBlankText, List.all_append]

theorem isBlankText_iff : isBlankText t ↔ ∀ c ∈ t, isBlank c := List.all_eq_true

theorem isBlankText_reverse (t : Text) : isBlankText t.reverse = isBlankText t := List.all_reverse

theorem trimStart_append_blank (hv : isBlankText v) (t : Text) :
    trimStart (v ++ t) = trimStart t :=
  List.dropWhile_append_of_pos (isBlankText_iff.mp hv)

theorem exists_eq_append_trimStart (t : Text) : ∃ v, isBlankText v ∧ t = v ++ trimStart t :=
  ⟨t.takeWhile isBlank, List.all_takeWhile, List.takeWhile_append_dropWhile.symm⟩

theorem trimStart_eq_nil_iff : trimStart t = [] ↔ isBlankText t := by
  rw [trimStart, List.dropWhile_eq_nil_iff, isBlankText_iff]

theorem trimStart_append_of_not_blank (ht : ¬ isBlankText t) (w : Text) :
    trimStart (t ++ w) = trimStart t ++ w := by
  rw [trimStart, List.dropWhile_append, if_neg]
  · rfl
  · rw [List.isEmpty_iff]
    intro h
    exact ht (trimStart_eq_nil_iff.mp h)

theorem trimEnd_eq_reverse (t : Text) : trimEnd t = (trimStart t.reverse).reverse := rfl

theorem trimEnd_append_blank (t : Text) (hw : isBlankText w) : trimEnd (t ++ w) = trimEnd t := by
  rw [trimEnd_eq_reverse, List.reverse_append, trimStart_append_blank, ← trimEnd_eq_reverse]
  rwa [isBlankText_reverse]

theorem trimEnd_append_of_not_blank (hw : ¬ isBlankText w) (t : Text) :
    trimEnd (t ++ w) = t ++ trimEnd w := by
  rw [trimEnd_eq_reverse, List.reverse_append, trimStart_append_of_not_blank, List.reverse_append,
    List.reverse_reverse, ← trimEnd_eq_reverse]
  rwa [isBlankText_reverse]

theorem exists_eq_trimEnd_append (t : Text) : ∃ w, isBlankText w ∧ t = trimEnd t ++ w := by
  obtain ⟨v, hv, he⟩ := exists_eq_append_trimStart t.reverse
  refine ⟨v.reverse, by rwa [isBlankText_reverse], ?_⟩
  rw [trimEnd_eq_reverse, ← List.reverse_append, ← he, List.reverse_reverse]

theorem trim_eq_nil_of_blank (ht : isBlankText t) : trim t = [] := by
  rw [trim, trimStart_eq_nil_iff.mpr ht]
  rfl

theorem trim_append_blanks (hv : isBlankText v) (t : Text) (hw : isBlankText w) :
    trim (v ++ t ++ w) = trim t := by
  rw [List.append_assoc, trim, trimStart_append_blank hv]
  by_cases ht : isBlankText t
  · rw [trimStart_eq_nil_iff.mpr ((isBlankText_append t w).mpr ⟨ht, hw⟩), trim_eq_nil_of_blank ht]
    rfl
  · rw [trimStart_append_of_not_blank ht, trimEnd_append_blank _ hw]
    rfl

theorem exists_eq_append_trim (t : Text) :
    ∃ v w, isBlankText v ∧ isBlankText w ∧ t = v ++ trim t ++ w := by
  obtain ⟨v, hv, he⟩ := exists_eq_append_trimStart t
  obtain ⟨w, hw, he'⟩ := exists_eq_trimEnd_append (trimStart t)
  refine ⟨v, w, hv, hw, ?_⟩
  rw [List.append_assoc, trim, ← he']
  exact he

theorem trim_eq_nil_iff : trim t = [] ↔ isBlankText t := by
  refine ⟨fun h => ?_, trim_eq_nil_of_blank⟩
  obtain ⟨v, w, hv, hw, he⟩ := exists_eq_append_trim t
  rw [he, h, List.append_nil, isBlankText_append]
  exact ⟨hv, hw⟩

@[simp] theorem trim_trim (t : Text) : trim (trim t) = trim t := by
  obtain ⟨v, w, hv, hw, he⟩ := exists_eq_append_trim t
  conv_rhs => rw [he]
  exact (trim_append_blanks hv _ hw).symm

theorem trim_append_left (hv : isBlankText v) (t : Text) : trim (v ++ t) = trim t := by
  simpa using trim_append_blanks hv t (w := []) rfl

theorem trim_append_right (t : Text) (hw : isBlankText w) : trim (t ++ w) = trim t :=
  trim_append_blanks (v := []) rfl t hw

theorem trim_trimEnd (t : Text) : trim (trimEnd t) = trim t := by
  obtain ⟨w, hw, he⟩ := exists_eq_trimEnd_append t
  conv_rhs => rw [he]
  exact (trim_append_right _ hw).symm

theorem trim_sublist (t : Text) : (trim t).Sublist t := by
  obtain ⟨v, w, -, -, he⟩ := exists_eq_append_trim t
  conv_rhs => rw [he]
  exact (List.sublist_append_right v _).trans (List.sublist_append_left _ w)

theorem trimEnd_sublist (t : Text) : (trimEnd t).Sublist t := by
  obtain ⟨w, -, he⟩ := exists_eq_trimEnd_append t
  conv_rhs => rw [he]
  exact List.sublist_append_left _ w

theorem not_isBlank_of_trim_eq_cons {c : Char} (h : trim t = c :: v) : ¬ isBlank c := by
  intro hc
  have hself : trim (c :: v) = c :: v := by rw [← h, trim_trim]
  have hv : trim ([c] ++ v) = trim v := trim_append_left (by simpa using hc) v
  have hlen := (trim_sublist v).length_le
  rw [← hv, List.singleton_append, hself, List.length_cons] at hlen
  omega

theorem getLast?_trimEnd_not_blank {c : Char} (h : (trimEnd t).getLast? = some c) :
    ¬ isBlank c := by
  rw [trimEnd_eq_reverse, List.getLast?_reverse] at h
  have hhead := List.head?_dropWhile_not isBlank t.reverse
  rw [← trimStart, h] at hhead
  simpa using hhead

theorem getLast?_trim_not_blank {c : Char} (h : (trim t).getLast? = some c) : ¬ isBlank c :=
  getLast?_trimEnd_not_blank h

theorem trimStart_eq_self (h : ∀ c, t.head? = some c → ¬ isBlank c) : trimStart t = t := by
  cases t with
  | nil => rfl
  | cons c t => exact List.dropWhile_cons_of_neg (h c rfl)

theorem trimEnd_eq_self (h : ∀ c, t.getLast? = some c → ¬ isBlank c) : trimEnd t = t := by
  have hreverse : trimStart t.reverse = t.reverse := by
    refine trimStart_eq_self fun c hc => h c ?_
    rwa [List.head?_reverse] at hc
  rw [trimEnd_eq_reverse, hreverse, List.reverse_reverse]

theorem trim_eq_self (hstart : ∀ c, t.head? = some c → ¬ isBlank c)
    (hend : ∀ c, t.getLast? = some c → ¬ isBlank c) : trim t = t := by
  rw [trim, trimStart_eq_self hstart, trimEnd_eq_self hend]

theorem trim_of_not_blank (h : ∀ c ∈ t, ¬ isBlank c) : trim t = t := by
  apply trim_eq_self
  · intro c hc
    exact h c (List.mem_of_head? hc)
  · intro c hc
    exact h c (List.mem_of_getLast? hc)

end SourceSwitch.Text
