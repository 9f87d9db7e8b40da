import SourceSwitch.ModuleSource
import SourceSwitch.Proofs.Text.Trim

namespace SourceSwitch

open Text

namespace Text

variable {c : Char} {t : Text}

theorem dropEnd_sublist (p : Char → Bool) (t : Text) : (dropEnd p t).Sublist t := by
  have h := (List.dropWhile_sublist (l := t.reverse) p).reverse
  rwa [List.reverse_reverse] at h

theorem stripEnd_sublist (c : Char) (t : Text) : (stripEnd c t).Sublist t := dropEnd_sublist _ t

theorem strip_sublist (c : Char) (t : Text) : (strip c t).Sublist t :=
  (stripEnd_sublist c _).trans (List.dropWhile_sublist _)

theorem stripEnd_eq_self (h : t.getLast? ≠ some c) : stripEnd c t = t := by
  have hreverse : t.reverse.dropWhile (· == c) = t.reverse := by
    rw [List.getLast?_eq_head?_reverse] at h
    cases hr : t.reverse with
    | nil => rfl
    | cons d u =>
      rw [hr] at h
      exact List.dropWhile_cons_of_neg (by simpa using h)
  rw [stripEnd, dropEnd, hreverse, List.reverse_reverse]

theorem stripEnd_append_self (c : Char) (t : Text) : stripEnd c (t ++ [c]) = stripEnd c t := by
  simp [stripEnd, dropEnd]

theorem exists_eq_stripEnd_append (c : Char) (t : Text) :
    ∃ k, t = stripEnd c t ++ List.replicate k c := by
  refine ⟨(t.reverse.takeWhile (· == c)).length, ?_⟩
  have htake : t.reverse.takeWhile (· == c)
      = List.replicate (t.reverse.takeWhile (· == c)).length c := by
    apply List.eq_replicate_of_mem
    intro d hd
    simpa using List.mem_takeWhile_imp hd
  rw [stripEnd, dropEnd, ← List.reverse_replicate, ← htake, ← List.reverse_append,
    List.takeWhile_append_dropWhile, List.reverse_reverse]

theorem getLast?_stripEnd (c : Char) (t : Text) : (stripEnd c t).getLast? ≠ some c := by
  rw [stripEnd, dropEnd, List.getLast?_reverse]
  intro h
  have hhead := List.head?_dropWhile_not (· == c) t.reverse
  rw [h] at hhead
  simp at hhead

theorem dropWhile_eq_self (h : t.head? ≠ some c) : t.dropWhile (· == c) = t := by
  cases t with
  | nil => rfl
  | cons d t => exact List.dropWhile_cons_of_neg (by simpa using h)

end Text

namespace ModuleSource

variable {raw base subpath : Text}

structure IsSubpath (t : Text) : Prop where
  ne_nil : t ≠ []
  head : t.head? ≠ some '/'
  last : t.getLast? ≠ some '/'

theorem isSubpath_of_subpath? {t : Text} (h : subpath? t = some subpath) : IsSubpath subpath := by
  obtain ⟨rfl, hne⟩ := nonempty?_eq_some_iff.mp h
  refine ⟨hne, ?_, getLast?_stripEnd _ _⟩
  obtain ⟨k, hk⟩ := exists_eq_stripEnd_append '/' (t.dropWhile (· == '/'))
  have hhead := List.head?_dropWhile_not (· == '/') t
  intro h
  have hstart : (t.dropWhile (· == '/')).head? = some '/' := by
    rw [hk, List.head?_append]
    simp only [strip] at h
    rw [h]
    rfl
  rw [hstart] at hhead
  simp at hhead

theorem IsSubpath.strip_eq (h : IsSubpath subpath) : strip '/' subpath = subpath := by
  rw [strip, dropWhile_eq_self h.head, stripEnd_eq_self h.last]

theorem IsSubpath.subpath?_eq (h : IsSubpath subpath) : subpath? subpath = some subpath := by
  rw [subpath?, h.strip_eq]
  exact nonempty?_eq_some_iff.mpr ⟨rfl, h.ne_nil⟩

theorem IsSubpath.subpath?_append (h : IsSubpath subpath) :
    subpath? (subpath ++ ['/']) = some subpath := by
  have hhead : (subpath ++ ['/']).head? ≠ some '/' := by
    obtain ⟨c, t, rfl⟩ := List.exists_cons_of_ne_nil h.ne_nil
    exact h.head
  rw [subpath?, strip, dropWhile_eq_self hhead, stripEnd_append_self, stripEnd_eq_self h.last]
  exact nonempty?_eq_some_iff.mpr ⟨rfl, h.ne_nil⟩

theorem isSubpath_of_classify (h : (classify raw).subpath = some subpath) : IsSubpath subpath := by
  unfold classify at h
  simp only at h
  split at h
  · exact isSubpath_of_subpath? h
  · split at h
    · exact isSubpath_of_subpath? h
    · cases h

theorem mem_of_mem_subpath {c : Char} (h : (classify raw).subpath = some subpath)
    (hc : c ∈ subpath) : c ∈ raw := by
  have hsub {t : Text} (ht : subpath? t = some subpath) : c ∈ t := by
    obtain ⟨rfl, -⟩ := nonempty?_eq_some_iff.mp ht
    exact (strip_sublist '/' t).subset hc
  apply (trim_sublist raw).subset
  unfold classify at h
  simp only at h
  split at h
  · next rest hrest =>
    unfold treeRemainder? at hrest
    split at hrest
    · obtain rfl := Option.some.inj hrest
      exact absurd (hsub h) List.not_mem_nil
    · rw [after?_eq_some_iff.mp hrest]
      exact List.mem_append_right _ (hsub h)
  · split at h
    · next hsplit =>
      rw [eq_append_of_splitSubpath? hsplit]
      exact List.mem_append_right _ (hsub h)
    · cases h

theorem classify_treeText {subpath : Option Text} (h : ∀ t ∈ subpath, IsSubpath t) :
    classify (treeText subpath) = inTree subpath := by
  cases subpath with
  | none => decide
  | some t =>
    have ht := h t rfl
    have htrim : trim (treeText (some t)) = treeRoot ++ (t ++ ['/']) := by
      rw [treeText, List.append_assoc]
      refine trim_eq_self ?_ ?_
      · rintro c ⟨⟩
        decide
      · rw [← List.append_assoc, List.getLast?_append]
        rintro c ⟨⟩
        decide
    have hne : treeRoot ++ (t ++ ['/']) ≠ ("../..".toList : Text) := by
      intro h
      have hlast := congrArg List.getLast? h
      rw [← List.append_assoc, List.getLast?_append] at hlast
      cases hlast
    have hrest : treeRemainder? (treeRoot ++ (t ++ ['/'])) = some (t ++ ['/']) := by
      rw [treeRemainder?, if_neg hne, after?_append]
    simp only [classify, htrim, hrest, ht.subpath?_append]

theorem treeRemainder?_eq_none_iff {t : Text} :
    treeRemainder? t = none ↔ ¬ (t = "../..".toList ∨ ∃ u, t = treeRoot ++ u) := by
  rw [treeRemainder?, not_or, not_exists]
  split
  · next h => simp [h]
  · next h =>
    rw [Option.eq_none_iff_forall_ne_some]
    simp only [ne_eq, after?_eq_some_iff]
    exact ⟨fun hu => ⟨h, hu⟩, fun hu => hu.2⟩

theorem classify_of_inTree {rest : Text} (h : treeRemainder? (trim raw) = some rest) :
    classify raw = inTree (subpath? rest) := by
  rw [classify]
  simp only [h]

theorem isInTree_classify (raw : Text) :
    (classify raw).isInTree = (treeRemainder? (trim raw)).isSome := by
  cases h : treeRemainder? (trim raw) with
  | some rest => rw [classify_of_inTree h]; rfl
  | none =>
    rw [classify]
    simp only [h]
    cases splitSubpath? (trim raw) <;> rfl

theorem trim_append_separator (base : Text) {t : Text}
    (ht : ∀ c, t.getLast? = some c → ¬ isBlank c) (hne : t ≠ []) :
    trim (base ++ separator ++ t) = trimStart base ++ (separator ++ t) := by
  have hstart : trimStart (base ++ (separator ++ t)) = trimStart base ++ (separator ++ t) := by
    by_cases hb : isBlankText base
    · rw [trimStart_append_blank hb, trimStart_eq_nil_iff.mpr hb]
      rfl
    · exact trimStart_append_of_not_blank hb _
  rw [List.append_assoc, trim, hstart, ← List.append_assoc]
  refine trimEnd_eq_self fun c hc => ht c ?_
  rw [List.getLast?_append, Option.or_of_isSome (List.getLast?_isSome.mpr hne)] at hc
  exact hc

theorem treeRemainder?_isSome_trimEnd {t : Text} (h : t = "../..".toList ∨ ∃ u, t = treeRoot ++ u) :
    (treeRemainder? (trimEnd t)).isSome := by
  rcases h with rfl | ⟨u, rfl⟩
  · decide
  · have htrim : ∃ u', trimEnd (treeRoot ++ u) = treeRoot ++ u' := by
      by_cases hu : isBlankText u
      · exact ⟨[], by rw [trimEnd_append_blank _ hu]; decide⟩
      · exact ⟨_, trimEnd_append_of_not_blank hu _⟩
    obtain ⟨u', hu'⟩ := htrim
    rw [hu', treeRemainder?]
    split
    · rfl
    · rw [after?_append]
      rfl

theorem eq_or_of_append_separator {s t : Text} (h : s ++ (separator ++ t) = "../..".toList ∨
      ∃ u, s ++ (separator ++ t) = treeRoot ++ u) :
    s = "../..".toList ∨ ∃ u, s = treeRoot ++ u := by
  have hseparator : separator = ['/', '/'] := by decide
  have hshort : "../..".toList = ['.', '.', '/', '.', '.'] := by decide
  have hroot : treeRoot = ['.', '.', '/', '.', '.', '/'] := by decide
  rw [hseparator, hshort, hroot] at h
  rw [hshort, hroot]
  rcases s with _ | ⟨a, _ | ⟨b, _ | ⟨c, _ | ⟨d, _ | ⟨e, _ | ⟨f, s⟩⟩⟩⟩⟩⟩ <;> simp_all

theorem not_isInTree_publishedText {subpath : Option Text} (hbase : ¬ (classify base).isInTree)
    (hsub : ∀ t ∈ subpath, t ≠ [] ∧ ∀ c, t.getLast? = some c → ¬ isBlank c) :
    ¬ (classify (publishedText base subpath)).isInTree := by
  cases subpath with
  | none => exact hbase
  | some t =>
    obtain ⟨hne, ht⟩ := hsub t rfl
    rw [isInTree_classify] at hbase ⊢
    rw [publishedText, trim_append_separator base ht hne]
    intro h
    refine hbase (treeRemainder?_isSome_trimEnd (eq_or_of_append_separator (t := t) ?_))
    rw [treeRemainder?] at h
    split at h
    · exact .inl ‹_›
    · obtain ⟨u, hu⟩ := Option.isSome_iff_exists.mp h
      exact .inr ⟨u, after?_eq_some_iff.mp hu⟩

theorem exists_of_classify {subpath : Option Text} (h : classify raw = published base subpath) :
    treeRemainder? (trim raw) = none ∧
      ((splitSubpath? (trim raw) = none ∧ stripEnd '/' (trim raw) = base ∧ subpath = none) ∨
        ∃ b s, splitSubpath? (trim raw) = some (b, s) ∧ stripEnd '/' b = base ∧
          subpath? s = subpath) := by
  cases ht : treeRemainder? (trim raw) with
  | some rest =>
    rw [classify_of_inTree ht] at h
    cases h
  | none =>
    simp only [classify, ht] at h
    refine ⟨rfl, ?_⟩
    cases hs : splitSubpath? (trim raw) with
    | none =>
      rw [hs] at h
      cases h
      exact .inl ⟨rfl, rfl, rfl⟩
    | some parts =>
      rw [hs] at h
      cases h
      exact .inr ⟨_, _, rfl, rfl, rfl⟩

theorem base?_classify (h : (classify raw).base? = some base) :
    (splitSubpath? (trim raw) = none ∧ stripEnd '/' (trim raw) = base ∧
        (classify raw).subpath = none) ∨
      ∃ b s, trim raw = b ++ separator ++ s ∧ stripEnd '/' b = base ∧
        (classify raw).subpath = subpath? s := by
  cases hread : classify raw with
  | inTree subpath =>
    rw [hread] at h
    cases h
  | published b' subpath =>
    rw [hread] at h
    obtain rfl : b' = base := Option.some.inj h
    obtain ⟨-, ⟨hsplit, hb, rfl⟩ | ⟨b, s, hsplit, hb, rfl⟩⟩ := exists_of_classify hread
    · exact .inl ⟨hsplit, hb, rfl⟩
    · exact .inr ⟨b, s, eq_append_of_splitSubpath? hsplit, hb, rfl⟩

theorem head?_not_blank_of_base? (h : (classify raw).base? = some base) :
    ∀ c, base.head? = some c → ¬ isBlank c := by
  intro c hc
  have hhead : (trim raw).head? = some c := by
    rcases base?_classify h with ⟨-, hb, -⟩ | ⟨b, s, hraw, hb, -⟩
    · obtain ⟨k, hk⟩ := exists_eq_stripEnd_append '/' (trim raw)
      rw [hk, hb, List.head?_append, hc]
      rfl
    · obtain ⟨k, hk⟩ := exists_eq_stripEnd_append '/' b
      rw [hraw, List.append_assoc, List.head?_append, hk, hb, List.head?_append, hc]
      rfl
  obtain ⟨t, ht⟩ := List.head?_eq_some_iff.mp hhead
  exact not_isBlank_of_trim_eq_cons ht

/-- Slashes in front of a sub-path belong to neither part. -/
theorem IsSubpath.eq_of_append {t s : Text} (ht : IsSubpath t) {k : Nat}
    (h : separator ++ t = List.replicate k '/' ++ (separator ++ s)) : t = s := by
  have hseparator : separator = List.replicate 2 '/' := by decide
  rw [hseparator, ← List.append_assoc, List.replicate_append_replicate, Nat.add_comm,
    ← List.replicate_append_replicate, List.append_assoc] at h
  have hts := List.append_cancel_left h
  cases k with
  | zero => exact hts
  | succ k =>
    refine absurd ?_ ht.head
    rw [hts]
    rfl

theorem subpath_publishedText {subpath : Option Text}
    (hsub : ∀ t ∈ subpath, IsSubpath t ∧ ∀ c, t.getLast? = some c → ¬ isBlank c)
    (h : (classify (publishedText base subpath)).base? = some base) :
    (classify (publishedText base subpath)).subpath = subpath := by
  cases subpath with
  | none =>
    rcases base?_classify h with ⟨-, -, hnone⟩ | ⟨b, s, hraw, hb, -⟩
    · exact hnone
    · have hlength := congrArg List.length hraw
      have hle := (trim_sublist base).length_le
      have hle' := (stripEnd_sublist '/' b).length_le
      have hseparator : separator.length = 2 := by decide
      rw [← hb] at hle
      simp only [publishedText, List.length_append, hseparator] at hlength
      rw [← hb] at hlength
      omega
  | some t =>
    obtain ⟨hpath, ht⟩ := hsub t rfl
    have htrim : trim (publishedText base (some t)) = base ++ (separator ++ t) := by
      rw [publishedText, trim_append_separator base ht hpath.ne_nil,
        trimStart_eq_self (head?_not_blank_of_base? h)]
    rcases base?_classify h with ⟨-, hb, -⟩ | ⟨b, s, hraw, hb, hs⟩
    · rw [htrim, stripEnd_eq_self] at hb
      · have hlength := congrArg List.length hb
        have hseparator : separator.length = 2 := by decide
        rw [List.length_append, List.length_append, hseparator] at hlength
        omega
      · rw [List.getLast?_append, List.getLast?_append, Option.or_assoc, Option.or_of_isSome]
        · exact hpath.last
        · exact List.getLast?_isSome.mpr hpath.ne_nil
    · obtain ⟨k, hk⟩ := exists_eq_stripEnd_append '/' b
      rw [htrim, hk, hb, List.append_assoc, List.append_assoc] at hraw
      obtain rfl := hpath.eq_of_append (List.append_cancel_left hraw)
      rw [hs, hpath.subpath?_eq]

/-- A base that is read as it is written: no sub-path or scheme begins in it or at its end. -/
structure IsAddress (base : Text) : Prop where
  trim_eq : trim base = base
  not_inTree : treeRemainder? base = none
  split_eq : splitSubpath? base = none
  last_slash : base.getLast? ≠ some '/'
  last_colon : base.getLast? ≠ some ':'

theorem splitSubpath?_cons {c : Char} {t : Text} (hslash : c = '/' → t.head? ≠ some '/')
    (hcolon : c = ':' → ∀ u, t ≠ '/' :: '/' :: u) :
    splitSubpath? (c :: t) = (splitSubpath? t).map fun p => (c :: p.1, p.2) := by
  rw [splitSubpath?]
  · intro rest hc ht
    exact hcolon hc rest ht
  · intro rest hc ht
    apply hslash hc
    rw [ht]
    rfl

theorem getLast?_of_cons {c d : Char} {t : Text} (h : (c :: t).getLast? ≠ some d) :
    t.getLast? ≠ some d := by
  intro ht
  apply h
  rw [List.getLast?_cons, ht]
  rfl

theorem splitSubpath?_append_separator {t : Text} (h : splitSubpath? base = none)
    (hslash : base.getLast? ≠ some '/') (hcolon : base.getLast? ≠ some ':') :
    splitSubpath? (base ++ separator ++ t) = some (base, t) := by
  have hseparator : separator = ['/', '/'] := by decide
  rw [hseparator, List.append_assoc]
  fun_induction splitSubpath? base with
  | case1 => rfl
  | case2 rest ih =>
    have hrest : splitSubpath? (rest ++ (['/', '/'] ++ t)) = some (rest, t) := by
      apply ih (Option.map_eq_none_iff.mp h)
      · exact getLast?_of_cons (getLast?_of_cons (getLast?_of_cons hslash))
      · exact getLast?_of_cons (getLast?_of_cons (getLast?_of_cons hcolon))
    rw [List.cons_append, List.cons_append, List.cons_append, splitSubpath?, hrest]
    rfl
  | case3 rest => cases h
  | case4 c rest hscheme hdouble ih =>
    have hrest : splitSubpath? (rest ++ (['/', '/'] ++ t)) = some (rest, t) := by
      apply ih (Option.map_eq_none_iff.mp h)
      · exact getLast?_of_cons hslash
      · exact getLast?_of_cons hcolon
    rw [List.cons_append, splitSubpath?_cons, hrest]
    · rfl
    -- Neither a slash nor the colon of a scheme may run into the separator.
    · rintro rfl hhead
      cases rest with
      | nil => exact hslash rfl
      | cons d rest => exact hdouble rest rfl (congrArg (· :: rest) (Option.some.inj hhead))
    · rintro rfl u hu
      rcases rest with _ | ⟨d, _ | ⟨d', rest⟩⟩
      · exact hcolon rfl
      · obtain ⟨rfl, -⟩ := List.cons.inj hu
        exact hslash rfl
      · obtain ⟨rfl, hd⟩ := List.cons.inj hu
        obtain ⟨rfl, -⟩ := List.cons.inj hd
        exact hscheme rest rfl rfl

/-- What reading leaves of a source as its base: no sub-path or way into the tree begins in it.
Blanks and a colon may stand at its end. -/
structure IsBase (base : Text) : Prop where
  trimStart_eq : trimStart base = base
  not_inTree : treeRemainder? base = none
  split_eq : splitSubpath? base = none
  last_slash : base.getLast? ≠ some '/'

theorem IsAddress.isBase (h : IsAddress base) : IsBase base := by
  refine ⟨?_, h.not_inTree, h.split_eq, h.last_slash⟩
  apply List.Sublist.antisymm (List.dropWhile_sublist _)
  conv_lhs => rw [← h.trim_eq]
  exact dropEnd_sublist _ _

theorem IsBase.classify_self (h : IsBase base) (hend : ∀ c, base.getLast? = some c → ¬ isBlank c) :
    classify base = published base none := by
  have htrim : trim base = base := by rw [trim, h.trimStart_eq, trimEnd_eq_self hend]
  rw [classify]
  simp only [htrim, h.not_inTree, h.split_eq]
  rw [stripEnd_eq_self h.last_slash]

theorem IsBase.treeRemainder?_append (h : IsBase base) (t : Text) :
    treeRemainder? (base ++ separator ++ t) = none := by
  rw [treeRemainder?_eq_none_iff, List.append_assoc]
  intro htree
  exact treeRemainder?_eq_none_iff.mp h.not_inTree (eq_or_of_append_separator htree)

theorem IsBase.classify_append_separator (h : IsBase base) (hcolon : base.getLast? ≠ some ':')
    (ht : IsSubpath subpath) (hend : ∀ c, subpath.getLast? = some c → ¬ isBlank c) :
    classify (publishedText base (some subpath)) = published base (some subpath) := by
  have htrim : trim (publishedText base (some subpath)) = base ++ separator ++ subpath := by
    rw [publishedText, trim_append_separator base hend ht.ne_nil, h.trimStart_eq, List.append_assoc]
  rw [classify]
  simp only [htrim, h.treeRemainder?_append,
    splitSubpath?_append_separator h.split_eq h.last_slash hcolon]
  rw [stripEnd_eq_self h.last_slash, ht.subpath?_eq]

theorem classify_publishedText (h : IsAddress base) {subpath : Option Text}
    (hsub : ∀ t ∈ subpath, IsSubpath t ∧ ∀ c, t.getLast? = some c → ¬ isBlank c) :
    classify (publishedText base subpath) = published base subpath := by
  cases subpath with
  | none =>
    apply h.isBase.classify_self
    intro c hc
    rw [← h.trim_eq] at hc
    exact getLast?_trim_not_blank hc
  | some t =>
    obtain ⟨hpath, ht⟩ := hsub t rfl
    exact h.isBase.classify_append_separator h.last_colon hpath ht

end ModuleSource

end SourceSwitch
