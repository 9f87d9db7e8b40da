import SourceSwitch.Proofs.ModuleSource

namespace SourceSwitch

open Text

namespace ModuleSource

variable {raw t base s : Text} {subpath : Option Text}

/-- What stands in front of the first separator has none, and ends in no colon: behind that, it
would belong to a scheme. -/
theorem front_of_splitSubpath? (h : splitSubpath? t = some (base, s)) :
    splitSubpath? base = none ∧ base.getLast? ≠ some ':' := by
  fun_induction splitSubpath? t generalizing base s with
  | case1 => cases h
  | case2 rest ih =>
    obtain ⟨⟨b, s'⟩, hb, heq⟩ := Option.map_eq_some_iff.mp h
    obtain ⟨rfl, rfl⟩ := Prod.mk.inj heq
    obtain ⟨hnone, hlast⟩ := ih hb
    constructor
    · rw [splitSubpath?, hnone]
      rfl
    · cases b with
      | nil => decide
      | cons d b => simpa only [List.getLast?_cons_cons] using hlast
  | case3 rest =>
    obtain ⟨rfl, rfl⟩ := Prod.mk.inj (Option.some.inj h)
    decide
  | case4 c rest hscheme hdouble ih =>
    obtain ⟨⟨b, s'⟩, hb, heq⟩ := Option.map_eq_some_iff.mp h
    obtain ⟨rfl, rfl⟩ := Prod.mk.inj heq
    obtain ⟨hnone, hlast⟩ := ih hb
    have hrest := eq_append_of_splitSubpath? hb
    constructor
    · rw [splitSubpath?_cons, hnone]
      · rfl
      · rintro rfl hhead
        obtain ⟨u, rfl⟩ := List.head?_eq_some_iff.mp hhead
        exact hdouble _ rfl hrest
      · rintro rfl u rfl
        exact hscheme _ rfl hrest
    · cases b with
      | nil =>
        intro hcolon
        obtain rfl : c = ':' := Option.some.inj hcolon
        exact hscheme s' rfl hrest
      | cons d b => simpa only [List.getLast?_cons_cons] using hlast

theorem splitSubpath?_append (h : splitSubpath? t = some (base, s)) (u : Text) :
    splitSubpath? (t ++ u) = some (base, s ++ u) := by
  fun_induction splitSubpath? t generalizing base s with
  | case1 => cases h
  | case2 rest ih =>
    obtain ⟨⟨b, s'⟩, hb, heq⟩ := Option.map_eq_some_iff.mp h
    obtain ⟨rfl, rfl⟩ := Prod.mk.inj heq
    simp only [List.cons_append, splitSubpath?, ih hb, Option.map_some]
  | case3 rest =>
    obtain ⟨rfl, rfl⟩ := Prod.mk.inj (Option.some.inj h)
    rfl
  | case4 c rest hscheme hdouble ih =>
    obtain ⟨⟨b, s'⟩, hb, heq⟩ := Option.map_eq_some_iff.mp h
    obtain ⟨rfl, rfl⟩ := Prod.mk.inj heq
    -- The rest holds a separator, so two of its characters are in sight.
    obtain ⟨d, e, rest, rfl⟩ : ∃ d e rest', rest = d :: e :: rest' := by
      have hrest := eq_append_of_splitSubpath? hb
      rcases b with _ | ⟨d, _ | ⟨e, b⟩⟩ <;> exact ⟨_, _, _, hrest⟩
    rw [List.cons_append, splitSubpath?_cons, ih hb]
    · rfl
    · rintro rfl hhead
      obtain rfl : d = '/' := Option.some.inj hhead
      exact hdouble _ rfl rfl
    · rintro rfl v hv
      obtain ⟨rfl, hrest⟩ := List.cons.inj hv
      obtain rfl : e = '/' := (List.cons.inj hrest).1
      exact hscheme _ rfl rfl

theorem splitSubpath?_of_append {u : Text} (h : splitSubpath? (t ++ u) = none) :
    splitSubpath? t = none := by
  cases hs : splitSubpath? t with
  | none => rfl
  | some parts =>
    rw [splitSubpath?_append hs] at h
    cases h

theorem treeRemainder?_of_append {k : Nat} {u : Text}
    (h : treeRemainder? (base ++ (List.replicate k '/' ++ u)) = none)
    (hu : u = [] ∨ u.head? = some '/') : treeRemainder? base = none := by
  rw [treeRemainder?_eq_none_iff] at h ⊢
  rintro (rfl | ⟨v, rfl⟩)
  · rcases hslashes : List.replicate k '/' ++ u with _ | ⟨c, v⟩
    · exact h (.inl (by rw [hslashes, List.append_nil]))
    · obtain rfl : c = '/' := by
        have hhead := congrArg List.head? hslashes
        cases k with
        | zero =>
          rcases hu with rfl | hu
          · cases hslashes
          · exact (Option.some.inj (hu.symm.trans hhead)).symm
        | succ k => exact (Option.some.inj hhead).symm
      refine h (.inr ⟨v, ?_⟩)
      rw [hslashes]
      rfl
  · exact h (.inr ⟨v ++ (List.replicate k '/' ++ u), List.append_assoc ..⟩)

theorem isBase_of_classify (h : classify raw = published base subpath) : IsBase base := by
  have hread : (classify raw).base? = some base := by
    rw [h]
    rfl
  have hstart : trimStart base = base := trimStart_eq_self (head?_not_blank_of_base? hread)
  obtain ⟨htree, ⟨hsplit, rfl, -⟩ | ⟨b, s, hsplit, rfl, -⟩⟩ := exists_of_classify h
  · obtain ⟨k, hk⟩ := exists_eq_stripEnd_append '/' (trim raw)
    refine ⟨hstart, ?_, ?_, getLast?_stripEnd _ _⟩
    · apply treeRemainder?_of_append (k := k) (u := []) _ (.inl rfl)
      rwa [List.append_nil, ← hk]
    · apply splitSubpath?_of_append (u := List.replicate k '/')
      rwa [← hk]
  · obtain ⟨k, hk⟩ := exists_eq_stripEnd_append '/' b
    refine ⟨hstart, ?_, ?_, getLast?_stripEnd _ _⟩
    · apply treeRemainder?_of_append (k := k) (u := separator ++ s) _ (.inr rfl)
      rwa [← List.append_assoc, ← hk, ← List.append_assoc, ← eq_append_of_splitSubpath? hsplit]
    · apply splitSubpath?_of_append (u := List.replicate k '/')
      rw [← hk]
      exact (front_of_splitSubpath? hsplit).1

theorem trim_of_classify (h : classify (publishedText base subpath) = published base subpath) :
    trim (publishedText base subpath) = publishedText base subpath := by
  refine (trim_sublist _).eq_of_length_le ?_
  obtain ⟨-, ⟨-, hb, rfl⟩ | ⟨b, s, hsplit, hb, hs⟩⟩ := exists_of_classify h
  · have hle := (stripEnd_sublist '/' (trim (publishedText base none))).length_le
    rwa [hb] at hle
  · have hle := (stripEnd_sublist '/' b).length_le
    have hparts := congrArg List.length (eq_append_of_splitSubpath? hsplit)
    rw [hb] at hle
    simp only [List.length_append] at hparts
    cases subpath with
    | none =>
      simp only [publishedText] at hparts ⊢
      omega
    | some t =>
      obtain ⟨rfl, -⟩ := nonempty?_eq_some_iff.mp hs
      have hle' := (strip_sublist '/' s).length_le
      rw [hparts]
      simp only [publishedText, List.length_append]
      omega

/-- Reading leaves no slashes at the ends of base and sub-path, and no empty sub-path. -/
structure IsNormal (m : ModuleSource) : Prop where
  last_slash : m.base?.bind List.getLast? ≠ some '/'
  subpath : m.subpath.elim True IsSubpath

/-- The written form ends in no blank, and the separator in it does not follow a colon. -/
def Survives : ModuleSource → Prop
  | inTree _ => True
  | published base subpath =>
    (publishedText base subpath).getLast?.elim True (¬ isBlank ·) ∧
      ¬ (subpath.isSome ∧ base.getLast? = some ':')

theorem isNormal_classify (raw : Text) : (classify raw).IsNormal := by
  constructor
  · cases h : classify raw with
    | inTree subpath =>
      intro hlast
      cases hlast
    | published base subpath => exact (isBase_of_classify h).last_slash
  · cases h : (classify raw).subpath with
    | none => trivial
    | some t => exact isSubpath_of_classify h

theorem survives_of_classify (hsub : ∀ t ∈ subpath, IsSubpath t)
    (hread : classify (publishedText base subpath) = published base subpath) :
    (published base subpath).Survives := by
  have htrim := trim_of_classify hread
  constructor
  · cases hlast : (publishedText base subpath).getLast? with
    | none => trivial
    | some c =>
      rw [← htrim] at hlast
      exact getLast?_trim_not_blank hlast
  · rintro ⟨hsome, hcolon⟩
    obtain ⟨t, rfl⟩ := Option.isSome_iff_exists.mp hsome
    rcases exists_of_classify hread with ⟨-, ⟨-, -, hnone⟩ | ⟨b, s, hsplit, hb, hs⟩⟩
    · cases hnone
    · -- Base and separator are where they were written, and a separator follows no colon.
      obtain ⟨k, hk⟩ := exists_eq_stripEnd_append '/' b
      have hparts := eq_append_of_splitSubpath? hsplit
      rw [htrim, hk, hb, publishedText, List.append_assoc, List.append_assoc, List.append_assoc]
        at hparts
      obtain rfl := (hsub t rfl).eq_of_append (List.append_cancel_left hparts)
      obtain rfl : base = b := by
        have hwhole := htrim.symm.trans (eq_append_of_splitSubpath? hsplit)
        exact List.append_cancel_right (List.append_cancel_right hwhole)
      exact (front_of_splitSubpath? hsplit).2 hcolon

theorem IsBase.classify_of_survives (h : IsBase base) (hsub : ∀ t ∈ subpath, IsSubpath t)
    (hsurvives : (published base subpath).Survives) :
    classify (publishedText base subpath) = published base subpath := by
  obtain ⟨hlast, hcolon⟩ := hsurvives
  have hend : ∀ c, (publishedText base subpath).getLast? = some c → ¬ isBlank c := by
    intro c hc
    rwa [hc] at hlast
  cases subpath with
  | none => exact h.classify_self hend
  | some t =>
    have ht := hsub t rfl
    refine h.classify_append_separator (fun hbase => hcolon ⟨rfl, hbase⟩) ht fun c hc => hend c ?_
    rw [publishedText, List.getLast?_append, hc]
    rfl

/-- What a source is read as is normal, and it is read back from its written form exactly when that
form ends in no blank and puts no separator behind a colon. Sources in the tree always are. -/
theorem classify_text_eq_iff (raw : Text) : (classify raw).IsNormal ∧
    (classify (classify raw).text = classify raw ↔ (classify raw).Survives) := by
  have hnormal := isNormal_classify raw
  refine ⟨hnormal, ?_⟩
  have hsub : ∀ t ∈ (classify raw).subpath, IsSubpath t := by
    intro t ht
    have hpath := hnormal.subpath
    rwa [ht] at hpath
  cases h : classify raw with
  | inTree subpath =>
    rw [h] at hsub
    exact iff_of_true (classify_treeText hsub) trivial
  | published base subpath =>
    rw [h] at hsub
    have hbase := isBase_of_classify h
    exact ⟨survives_of_classify hsub, hbase.classify_of_survives hsub⟩

example : classify (classify "git:////net").text = published "git://net" none ∧
    classify (classify "acme/vnet /").text = published "acme/vnet" none ∧
    classify (classify "acme //net /").text = published "acme " (some "net") := by decide

end ModuleSource

end SourceSwitch
