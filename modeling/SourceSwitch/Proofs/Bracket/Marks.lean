import SourceSwitch.Bracket.Mark
import SourceSwitch.Proofs.Text.Trim

namespace SourceSwitch

open Text

theorem Text.after?_append_blank {lead w : Text} (hlead : ∀ c ∈ lead, ¬ isBlank c)
    (hw : isBlankText w) (t : Text) : after? lead (t ++ w) = (after? lead t).map (· ++ w) := by
  fun_induction after? lead t with
  | case1 t => rfl
  | case2 l lead =>
    cases w with
    | nil => rfl
    | cons c w =>
      have hne : l ≠ c := by
        rintro rfl
        exact hlead l List.mem_cons_self (isBlankText_iff.mp hw l List.mem_cons_self)
      simp [after?, hne]
  | case3 l lead t ih =>
    simpa [after?] using ih fun c hc => hlead c (List.mem_cons_of_mem _ hc)
  | case4 l lead c t h => simp [after?, h]

namespace Bracket

/-- Reading `p` in front of `q` leaves the marks `ms`, and `q` is entered in the region `r'`. -/
inductive Passes (q : Text) : Region → Nat → Text → List (Nat × Mark) → Region → Prop where
  | nil {r : Region} {o : Nat} : Passes q r o [] [] r
  | cons {r r' r'' : Region} {o : Nat} {c : Char} {p : Text} {mark : Option Mark}
      {ms : List (Nat × Mark)} : read r c (p ++ q) = .go mark r' →
      Passes q r' (o + c.utf8Size) p ms r'' →
      Passes q r o (c :: p) (mark.toList.map (o, ·) ++ ms) r''

variable {r r' r'' : Region} {o : Nat} {p q t w name : Text} {ms ms' : List (Nat × Mark)} {c : Char}

theorem isMarkerChar_of_isBlank (hc : isBlank c) : isMarkerChar c = false := by
  rw [Bool.eq_false_iff]
  intro hm
  simp only [isMarkerChar, Bool.or_eq_true, decide_eq_true_eq] at hm
  rcases hm with (h | rfl) | rfl
  · rw [isAlphanum_of_isBlank hc] at h
    cases h
  · exact absurd hc (by decide)
  · exact absurd hc (by decide)

def IsSpecial (c : Char) : Prop :=
  c = '#' ∨ c = '/' ∨ c = '*' ∨ c = '"' ∨ c = '\\' ∨ c = '<'

instance : DecidablePred IsSpecial := fun c =>
  inferInstanceAs (Decidable (c = '#' ∨ c = '/' ∨ c = '*' ∨ c = '"' ∨ c = '\\' ∨ c = '<'))

theorem not_isSpecial_of_isBlank (hc : isBlank c) : ¬ IsSpecial c := by
  rintro (rfl | rfl | rfl | rfl | rfl | rfl) <;> exact absurd hc (by decide)

theorem not_isSpecial_of_isClosing (hc : isClosing c) : ¬ IsSpecial c := by
  rintro (rfl | rfl | rfl | rfl | rfl | rfl) <;> exact absurd hc (by decide)

theorem marker?_cons_of_ne (hc : c ≠ '<') (t : Text) : marker? (c :: t) = none := by
  simp [marker?, after?, hc.symm]

theorem read_code_of_not_special (hc : ¬ IsSpecial c) (t : Text) :
    read .code c t = .go (codeMark? c) .code := by
  simp only [IsSpecial, not_or] at hc
  simp [read, readCode, hc, marker?_cons_of_ne hc.2.2.2.2.2]

theorem codeMark?_of_isBlank (hc : isBlank c) : codeMark? c = none := by
  have ho : isOpening c = false := by
    rw [Bool.eq_false_iff]
    intro h
    simp only [isOpening, Bool.or_eq_true, decide_eq_true_eq] at h
    rcases h with (rfl | rfl) | rfl <;> exact absurd hc (by decide)
  have hcl : isClosing c = false := by
    rw [Bool.eq_false_iff]
    intro h
    simp only [isClosing, Bool.or_eq_true, decide_eq_true_eq] at h
    rcases h with (rfl | rfl) | rfl <;> exact absurd hc (by decide)
  simp [codeMark?, ho, hcl, hc]

theorem codeMark?_of_isClosing (hc : isClosing c) : codeMark? c = some .closing := by
  have ho : isOpening c = false := by
    rw [Bool.eq_false_iff]
    intro h
    simp only [isOpening, isClosing, Bool.or_eq_true, decide_eq_true_eq] at h hc
    rcases h with (rfl | rfl) | rfl <;> simp at hc
  simp [codeMark?, ho, hc]

theorem read_code_of_isBlank (hc : isBlank c) (t : Text) : read .code c t = .go none .code := by
  rw [read_code_of_not_special (not_isSpecial_of_isBlank hc), codeMark?_of_isBlank hc]

theorem read_code_of_isClosing (hc : isClosing c) (t : Text) :
    read .code c t = .go (some .closing) .code := by
  rw [read_code_of_not_special (not_isSpecial_of_isClosing hc), codeMark?_of_isClosing hc]

theorem read_comment_of_ne (hc : c ≠ '*') (t : Text) : read .comment c t = .go none .comment := by
  simp [read, hc]

theorem marks_cons_of_go {mark : Option Mark} (h : read r c t = .go mark r') :
    marks r o (c :: t) = (mark.toList.map (o, ·) ++ (marks r' (o + c.utf8Size) t).1,
      (marks r' (o + c.utf8Size) t).2) := by
  rw [marks, h]

theorem marks_cons_of_stop {mark : Option Mark} {carry : Carry}
    (h : read r c t = .stop mark carry) :
    marks r o (c :: t) = (mark.toList.map (o, ·), carry) := by
  rw [marks, h]

theorem Passes.marks_append (h : Passes q r o p ms r') :
    marks r o (p ++ q) = (ms ++ (marks r' (o + byteLength p) q).1,
      (marks r' (o + byteLength p) q).2) := by
  induction h with
  | nil => simp [byteLength]
  | cons hread _ ih =>
    rw [List.cons_append, marks_cons_of_go hread, ih]
    simp [byteLength, Nat.add_assoc]

theorem Passes.append (h : Passes (q ++ t) r o p ms r')
    (h' : Passes t r' (o + byteLength p) q ms' r'') : Passes t r o (p ++ q) (ms ++ ms') r'' := by
  induction h with
  | nil => simpa [byteLength] using h'
  | cons hread _ ih =>
    rw [List.cons_append, List.append_assoc]
    refine .cons (by rwa [List.append_assoc]) (ih ?_)
    simpa [byteLength, Nat.add_assoc] using h'

/-- Where a line starts does not change its marks but for their offsets. -/
theorem marks_offset (r : Region) (o : Nat) (t : Text) :
    marks r o t = ((marks r 0 t).1.map (fun m => (o + m.1, m.2)), (marks r 0 t).2) := by
  induction t generalizing r o with
  | nil => rfl
  | cons c t ih =>
    cases h : read r c t with
    | stop mark carry =>
      rw [marks_cons_of_stop h, marks_cons_of_stop h]
      cases mark <;> rfl
    | go mark next =>
      rw [marks_cons_of_go h, marks_cons_of_go h, ih next (o + c.utf8Size),
        ih next (0 + c.utf8Size)]
      cases mark <;> simp [Function.comp_def, Nat.add_assoc]

theorem Passes.skip (hread : read r c (p ++ q) = .go none r')
    (h : Passes q r' (o + c.utf8Size) p ms r'') : Passes q r o (c :: p) ms r'' := by
  have hcons := Passes.cons hread h
  exact hcons

theorem Passes.code_blank (hp : isBlankText p) (o : Nat) (q : Text) :
    Passes q .code o p [] .code := by
  induction p generalizing o with
  | nil => exact .nil
  | cons c p ih =>
    obtain ⟨hc, hp⟩ := (isBlankText_cons c p).mp hp
    exact .skip (read_code_of_isBlank hc _) (ih hp _)

theorem ne_star_of_isBlank (hc : isBlank c) : c ≠ '*' := by
  rintro rfl
  exact absurd hc (by decide)

theorem Passes.comment_blank (hp : isBlankText p) (o : Nat) (q : Text) :
    Passes q .comment o p [] .comment := by
  induction p generalizing o with
  | nil => exact .nil
  | cons c p ih =>
    obtain ⟨hc, hp⟩ := (isBlankText_cons c p).mp hp
    exact .skip (read_comment_of_ne (ne_star_of_isBlank hc) _) (ih hp _)

theorem takeWhile_isMarkerChar_append_blank (t : Text) (hw : isBlankText w) :
    (t ++ w).takeWhile isMarkerChar = t.takeWhile isMarkerChar := by
  have hw' : w.takeWhile isMarkerChar = [] := by
    cases w with
    | nil => rfl
    | cons c w => simp [isMarkerChar_of_isBlank ((isBlankText_cons c w).mp hw).1]
  rw [List.takeWhile_append, hw', List.append_nil]
  split
  · next h => exact (List.takeWhile_prefix _).eq_of_length h |>.symm
  · rfl

theorem all_isBlank_dropWhile_append_blank (t : Text) (hw : isBlankText w) :
    ((t ++ w).dropWhile isMarkerChar).all isBlank = (t.dropWhile isMarkerChar).all isBlank := by
  have hd : (t ++ w).dropWhile isMarkerChar = t.dropWhile isMarkerChar ++ w := by
    have h := List.takeWhile_append_dropWhile (p := isMarkerChar) (l := t ++ w)
    rw [takeWhile_isMarkerChar_append_blank t hw] at h
    conv_rhs at h => rw [← List.takeWhile_append_dropWhile (p := isMarkerChar) (l := t)]
    exact List.append_cancel_left (h.trans (List.append_assoc ..))
  have hw' : w.all isBlank = true := hw
  rw [hd, List.all_append, hw', Bool.and_true]

theorem marker?_append_blank (t : Text) (hw : isBlankText w) :
    marker? (t ++ w) = marker? t := by
  have hopen : after? "<<" (t ++ w) = (after? "<<" t).map (· ++ w) :=
    after?_append_blank (by decide) hw t
  rw [marker?, marker?, hopen]
  cases after? "<<" t with
  | none => rfl
  | some s =>
    have hdash : after? "-" (s ++ w) = (after? "-" s).map (· ++ w) :=
      after?_append_blank (by decide) hw s
    have hget : (after? "-" (s ++ w)).getD (s ++ w) = (after? "-" s).getD s ++ w := by
      rw [hdash]
      cases after? "-" s <;> rfl
    simp only [Option.map_some, Option.bind_eq_bind, Option.bind_some, hget,
      takeWhile_isMarkerChar_append_blank _ hw, all_isBlank_dropWhile_append_blank _ hw]

theorem head?_append_blank_eq_iff (hc : ¬ isBlank c) (t : Text) (hw : isBlankText w) :
    (t ++ w).head? = some c ↔ t.head? = some c := by
  cases t with
  | cons d t => simp
  | nil =>
    cases w with
    | nil => simp
    | cons d w =>
      have hd := ((isBlankText_cons d w).mp hw).1
      have hne : d ≠ c := by
        rintro rfl
        exact hc hd
      simp [hne]

/-- The text opens a here-document of this name, with nothing behind the opener. -/
structure IsOpener (name t : Text) : Prop where
  exists_eq : ∃ dash w : Text, (dash = [] ∨ dash = "-") ∧ isBlankText w ∧
    t = "<<" ++ (dash ++ (name ++ w))
  start : name.head?.any isMarkerStart
  all : name.all isMarkerChar

theorem exists_eq_dash_append (t : Text) : ∃ dash : Text, (dash = [] ∨ dash = "-") ∧
    t = dash ++ (after? "-" t).getD t := by
  cases h : after? "-" t with
  | none => exact ⟨[], .inl rfl, rfl⟩
  | some s => exact ⟨"-", .inr rfl, after?_eq_some_iff.mp h⟩

theorem getD_after?_dash {dash : Text} (hdash : dash = [] ∨ dash = "-") (ht : t.head? ≠ some '-') :
    (after? "-" (dash ++ t)).getD (dash ++ t) = t := by
  rcases hdash with rfl | rfl
  · have hnone : after? "-" t = none := by
      rw [Option.eq_none_iff_forall_ne_some]
      intro s hs
      rw [after?_eq_some_iff.mp hs] at ht
      exact ht rfl
    rw [List.nil_append, hnone]
    rfl
  · rw [after?_append]
    rfl

theorem marker?_eq_some_iff : marker? t = some name ↔ IsOpener name t := by
  constructor
  · intro h
    obtain ⟨s, hs, h⟩ := Option.bind_eq_some_iff.mp h
    obtain ⟨hform, hname⟩ := Option.ite_none_right_eq_some.mp h
    rw [Bool.and_eq_true] at hform
    obtain ⟨dash, hdash, hbody⟩ := exists_eq_dash_append s
    generalize (after? "-" s).getD s = body at *
    obtain rfl := Option.some.inj hname
    refine ⟨⟨dash, body.dropWhile isMarkerChar, hdash, hform.2, ?_⟩, hform.1, List.all_takeWhile⟩
    rw [List.takeWhile_append_dropWhile, ← hbody]
    exact after?_eq_some_iff.mp hs
  · rintro ⟨⟨dash, w, hdash, hw, rfl⟩, hstart, hall⟩
    have hhead : (name ++ w).head? ≠ some '-' := by
      cases name with
      | nil => cases hstart
      | cons c name =>
        intro hc
        obtain rfl := Option.some.inj hc
        cases hstart
    have htake : (name ++ w).takeWhile isMarkerChar = name := by
      rw [takeWhile_isMarkerChar_append_blank name hw, List.takeWhile_eq_self_iff]
      exact List.all_eq_true.mp hall
    have hdrop : ((name ++ w).dropWhile isMarkerChar).all isBlank := by
      rw [all_isBlank_dropWhile_append_blank name hw,
        List.dropWhile_eq_nil_iff.mpr (List.all_eq_true.mp hall)]
      rfl
    rw [marker?, after?_append]
    simp only [Option.bind_eq_bind, Option.bind_some, getD_after?_dash hdash hhead, htake, hstart,
      hdrop, Bool.and_self, if_true]

instance (name t : Text) : Decidable (IsOpener name t) :=
  decidable_of_iff (marker? t = some name) marker?_eq_some_iff

theorem marker?_eq_none_of_mem (hname : ¬ isMarkerChar c) (hblank : ¬ isBlank c)
    (hopener : c ∉ "<<-".toList) (h : c ∈ t) : marker? t = none := by
  rw [Option.eq_none_iff_forall_ne_some]
  intro name hmarker
  obtain ⟨⟨dash, w, hdash, hw, rfl⟩, -, hall⟩ := marker?_eq_some_iff.mp hmarker
  simp only [List.mem_append] at h
  rcases h with h | h | h | h
  · exact hopener (List.mem_append_left "-".toList h)
  · rcases hdash with rfl | rfl
    · cases h
    · exact hopener (List.mem_append_right "<<".toList h)
  · exact hname (List.all_eq_true.mp hall c h)
  · exact hblank (isBlankText_iff.mp hw c h)

theorem read_append_blank (r : Region) (c : Char) (t : Text) (hw : isBlankText w) :
    read r c (t ++ w) = read r c t := by
  have hslash := head?_append_blank_eq_iff (c := '/') (by decide) t hw
  have hstar := head?_append_blank_eq_iff (c := '*') (by decide) t hw
  have hmarker : marker? (c :: (t ++ w)) = marker? (c :: t) := marker?_append_blank (c :: t) hw
  cases r with
  | code => simp only [read, readCode, hslash, hstar, hmarker]
  | comment => simp only [read, hslash]
  | quoted | escape | opener | closer => rfl

theorem marks_of_blank (r : Region) (o : Nat) (hw : isBlankText w) :
    marks r o w = ([], r.carry) := by
  induction w generalizing r o with
  | nil => rfl
  | cons c w ih =>
    obtain ⟨hc, hw⟩ := (isBlankText_cons c w).mp hw
    have hstar := ne_star_of_isBlank hc
    have hquote : c ≠ '\\' ∧ c ≠ '"' := by
      constructor <;> rintro rfl <;> exact absurd hc (by decide)
    cases r with
    | code => rw [marks_cons_of_go (read_code_of_isBlank hc w), ih _ _ hw]; rfl
    | comment => rw [marks_cons_of_go (read_comment_of_ne hstar w), ih _ _ hw]; rfl
    | quoted =>
      have hread : read .quoted c w = .go none .quoted := by simp [read, hquote]
      rw [marks_cons_of_go hread, ih _ _ hw]; rfl
    | escape =>
      have hread : read .escape c w = .go none .quoted := rfl
      rw [marks_cons_of_go hread, ih _ _ hw]; rfl
    | opener =>
      have hread : read .opener c w = .go none .comment := rfl
      rw [marks_cons_of_go hread, ih _ _ hw]; rfl
    | closer =>
      have hread : read .closer c w = .go none .code := rfl
      rw [marks_cons_of_go hread, ih _ _ hw]; rfl

theorem marks_append_blank (r : Region) (o : Nat) (t : Text) (hw : isBlankText w) :
    marks r o (t ++ w) = marks r o t := by
  induction t generalizing r o with
  | nil => exact marks_of_blank r o hw
  | cons c t ih =>
    rw [List.cons_append, marks, marks, read_append_blank r c t hw]
    simp only [ih]

/-- Blanks around a line only move the marks of a line that starts in code or in a comment. -/
theorem marks_append_blanks {v : Text} (hr : r = .code ∨ r = .comment) (hv : isBlankText v)
    (t : Text) (hw : isBlankText w) :
    marks r 0 (v ++ t ++ w)
      = ((marks r 0 t).1.map (fun m => (byteLength v + m.1, m.2)), (marks r 0 t).2) := by
  have hpass : Passes t r 0 v [] r := by
    rcases hr with rfl | rfl
    · exact .code_blank hv 0 t
    · exact .comment_blank hv 0 t
  rw [marks_append_blank r 0 _ hw, hpass.marks_append, Nat.zero_add, marks_offset]
  rfl

def Move.mark? : Move → Option Mark
  | .go mark _ => mark
  | .stop mark _ => mark

theorem exists_passes_of_mark {m : Nat × Mark} (h : (marks r o t).1 = ms ++ m :: ms') :
    ∃ p c q r', t = p ++ c :: q ∧ Passes (c :: q) r o p ms r' ∧ m.1 = o + byteLength p ∧
      (read r' c q).mark? = some m.2 := by
  induction t generalizing r o ms with
  | nil => simp [marks] at h
  | cons c t ih =>
    cases hread : read r c t with
    | stop mark carry =>
      rw [marks_cons_of_stop hread] at h
      cases mark with
      | none => simp at h
      | some k =>
        obtain ⟨rfl, rfl⟩ : ms = [] ∧ (o, k) = m := by
          cases ms with
          | nil => exact ⟨rfl, (List.cons.inj h).1⟩
          | cons x ms => simp at h
        exact ⟨[], c, t, r, rfl, .nil, rfl, by rw [hread]; rfl⟩
    | go mark next =>
      -- A mark among those of the rest stands behind this character as well.
      have hrest {ms₂ : List (Nat × Mark)} (hms₂ : ms = mark.toList.map (o, ·) ++ ms₂)
          (h₂ : (marks next (o + c.utf8Size) t).1 = ms₂ ++ m :: ms') :
          ∃ p d q r', c :: t = p ++ d :: q ∧ Passes (d :: q) r o p ms r' ∧
            m.1 = o + byteLength p ∧ (read r' d q).mark? = some m.2 := by
        obtain ⟨p, d, q, r', rfl, hp, ho, hd⟩ := ih h₂
        refine ⟨c :: p, d, q, r', rfl, hms₂ ▸ .cons hread hp, ?_, hd⟩
        rw [ho, byteLength, Nat.add_assoc]
      rw [marks_cons_of_go hread] at h
      cases mark with
      | none => exact hrest rfl h
      | some k =>
        cases ms with
        | nil =>
          obtain rfl : (o, k) = m := (List.cons.inj h).1
          exact ⟨[], c, t, r, rfl, .nil, rfl, by rw [hread]; rfl⟩
        | cons x ms =>
          obtain ⟨rfl, h₂⟩ := List.cons.inj h
          exact hrest rfl h₂

theorem readCode_mark? (c : Char) (t : Text) :
    (readCode c t).mark? = none ∨ (readCode c t).mark? = some .code ∨
      (readCode c t).mark? = some .comment ∧ (c = '#' ∨ c = '/') ∨
      (readCode c t).mark? = codeMark? c := by
  unfold readCode
  split_ifs with hline hblock hquote
  · exact .inr (.inr (.inl ⟨rfl, hline.imp_right And.left⟩))
  · exact .inr (.inr (.inl ⟨rfl, .inr hblock.1⟩))
  · exact .inr (.inl rfl)
  · split
    · exact .inl rfl
    · exact .inr (.inr (.inr rfl))

theorem codeMark?_ne_comment (c : Char) : codeMark? c ≠ some .comment := by
  unfold codeMark?
  split_ifs <;> simp

theorem isClosing_of_codeMark? (h : codeMark? c = some .closing) : isClosing c := by
  unfold codeMark? at h
  split_ifs at h with ho hc hb
  · cases h
  · exact hc
  · cases h

theorem isOpening_eq_decide (c : Char) : isOpening c = decide (codeMark? c = some .opening) := by
  rw [Bool.eq_iff_iff, decide_eq_true_iff, codeMark?]
  split_ifs <;> simp [*]

theorem isClosing_eq_decide (c : Char) : isClosing c = decide (codeMark? c = some .closing) := by
  rw [Bool.eq_iff_iff, decide_eq_true_iff]
  exact ⟨codeMark?_of_isClosing, isClosing_of_codeMark?⟩

theorem isBlank_eq_decide (c : Char) : isBlank c = decide (codeMark? c = none) := by
  rw [Bool.eq_iff_iff, decide_eq_true_iff]
  refine ⟨codeMark?_of_isBlank, ?_⟩
  intro h
  rw [codeMark?] at h
  split_ifs at h with ho hc hb
  exact hb

theorem mark?_read_of_ne_code (hr : r ≠ .code) (c : Char) (t : Text) :
    (read r c t).mark? = none := by
  cases r with
  | code => exact absurd rfl hr
  | quoted => simp only [read]; split_ifs <;> rfl
  | comment => simp only [read]; split_ifs <;> rfl
  | escape | opener | closer => rfl

theorem codeMark?_of_mark? {mark : Mark} (hmark : mark = .opening ∨ mark = .closing)
    (h : (read r c t).mark? = some mark) : r = .code ∧ codeMark? c = some mark := by
  by_cases hr : r = .code
  · subst hr
    have hcode : (readCode c t).mark? = some mark := h
    refine ⟨rfl, ?_⟩
    rcases readCode_mark? c t with h' | h' | ⟨h', -⟩ | h' <;> rw [hcode] at h'
    · cases h'
    · rcases hmark with rfl | rfl <;> cases h'
    · rcases hmark with rfl | rfl <;> cases h'
    · exact h'.symm
  · rw [mark?_read_of_ne_code hr] at h
    cases h

theorem isOpener_of_mark? (h : (read r c t).mark? = some .comment) :
    r = .code ∧ (c = '#' ∨ c = '/') := by
  by_cases hr : r = .code
  · subst hr
    have hcode : (readCode c t).mark? = some .comment := h
    refine ⟨rfl, ?_⟩
    rcases readCode_mark? c t with h' | h' | ⟨-, h'⟩ | h'
    · rw [hcode] at h'; cases h'
    · rw [hcode] at h'; cases h'
    · exact h'
    · exact absurd (h'.symm.trans hcode) (codeMark?_ne_comment c)
  · rw [mark?_read_of_ne_code hr] at h
    cases h

theorem exists_eq_append_bracket {k : Nat} {mark : Mark} (hmark : mark = .opening ∨ mark = .closing)
    (h : (marks r o t).1 = ms ++ (k, mark) :: ms') :
    ∃ p c q, t = p ++ c :: q ∧ codeMark? c = some mark ∧ Passes (c :: q) r o p ms .code ∧
      k = o + byteLength p := by
  obtain ⟨p, c, q, r', rfl, hp, hk, hc⟩ := exists_passes_of_mark h
  obtain ⟨rfl, hbracket⟩ := codeMark?_of_mark? hmark hc
  exact ⟨p, c, q, rfl, hbracket, hp, hk⟩

theorem exists_eq_append_closing {k : Nat} (h : (marks r o t).1 = ms ++ (k, .closing) :: ms') :
    ∃ p c q, t = p ++ c :: q ∧ isClosing c ∧ Passes (c :: q) r o p ms .code ∧
      k = o + byteLength p := by
  obtain ⟨p, c, q, ht, hc, hp, hk⟩ := exists_eq_append_bracket (.inr rfl) h
  exact ⟨p, c, q, ht, isClosing_of_codeMark? hc, hp, hk⟩

theorem exists_eq_append_comment {k : Nat} (h : (marks r o t).1 = ms ++ (k, .comment) :: ms') :
    ∃ p c q, t = p ++ c :: q ∧ (c = '#' ∨ c = '/') ∧ Passes (c :: q) r o p ms .code ∧
      k = o + byteLength p := by
  obtain ⟨p, c, q, r', rfl, hp, hk, hc⟩ := exists_passes_of_mark h
  obtain ⟨rfl, hopener⟩ := isOpener_of_mark? hc
  exact ⟨p, c, q, rfl, hopener, hp, hk⟩

theorem pairwise_marks (r : Region) (o : Nat) (t : Text) :
    (∀ m ∈ (marks r o t).1, o ≤ m.1) ∧ (marks r o t).1.Pairwise fun m m' => m.1 < m'.1 := by
  induction t generalizing r o with
  | nil => simp [marks]
  | cons c t ih =>
    cases h : read r c t with
    | stop mark carry =>
      rw [marks_cons_of_stop h]
      cases mark <;> simp
    | go mark next =>
      obtain ⟨hle, hpairwise⟩ := ih next (o + c.utf8Size)
      have hpos := c.utf8Size_pos
      have hlt : ∀ m ∈ (marks next (o + c.utf8Size) t).1, o < m.1 := by
        intro m hm
        have := hle m hm
        omega
      rw [marks_cons_of_go h]
      cases mark with
      | none => exact ⟨fun m hm => (hlt m hm).le, hpairwise⟩
      | some k =>
        refine ⟨List.forall_mem_cons.mpr ⟨le_rfl, fun m hm => (hlt m hm).le⟩, ?_⟩
        exact .cons hlt hpairwise

theorem read_truncate {d : Char} {mark : Option Mark} (hd : ¬ IsSpecial d)
    (h : read r c (p ++ d :: q) = .go mark r') :
    read r c p = .go mark r' ∨ ∃ name, read r c p = .stop none (.heredoc name) := by
  have hhead {x : Char} (hx : IsSpecial x) : (p ++ d :: q).head? = some x ↔ p.head? = some x := by
    cases p with
    | nil =>
      have hne : d ≠ x := by
        rintro rfl
        exact hd hx
      simp [hne]
    | cons y p => simp
  have hslash := hhead (x := '/') (.inr (.inl rfl))
  have hstar := hhead (x := '*') (.inr (.inr (.inl rfl)))
  cases r with
  | code =>
    simp only [read, readCode, hslash, hstar] at h ⊢
    split_ifs at h ⊢ with hline hblock hquote
    · exact .inl h
    · exact .inl h
    · split at h
      · cases h
      · split
        · next name hname => exact .inr ⟨name, rfl⟩
        · exact .inl h
  | comment =>
    simp only [read, hslash] at h ⊢
    exact .inl h
  | quoted | escape | opener | closer => exact .inl h

/-- Read alone, what stands in front of a character of plain code has the marks that it has in
place. Only a here-document may open at its end, where the character kept it from opening. -/
theorem Passes.truncate {d : Char} (hd : ¬ IsSpecial d) (h : Passes (d :: q) r o p ms r') :
    marks r o p = (ms, r'.carry) ∨ ∃ name, (marks r o p).2 = .heredoc name := by
  induction h with
  | nil => exact .inl rfl
  | cons hread _ ih =>
    rcases read_truncate hd hread with hgo | ⟨name, hstop⟩
    · rw [marks_cons_of_go hgo]
      rcases ih with h | h
      · exact .inl (by rw [h])
      · exact .inr h
    · exact .inr ⟨name, by rw [marks_cons_of_stop hstop]⟩

theorem exists_passes_quoted (hr : r = .quoted ∨ r = .escape) (hp : '"' ∉ p) :
    ∃ r', (r' = .quoted ∨ r' = .escape) ∧ ∀ o q, Passes q r o p [] r' := by
  induction p generalizing r with
  | nil => exact ⟨r, hr, fun _ _ => .nil⟩
  | cons c p ih =>
    obtain ⟨hc, hp⟩ : '"' ≠ c ∧ '"' ∉ p := by simpa using hp
    obtain ⟨next, hnext, hread⟩ : ∃ next, (next = .quoted ∨ next = .escape) ∧
        ∀ t, read r c t = .go none next := by
      rcases hr with rfl | rfl
      · by_cases hb : c = '\\'
        · exact ⟨.escape, .inr rfl, fun t => by simp [read, hb]⟩
        · exact ⟨.quoted, .inl rfl, fun t => by simp [read, hb, hc.symm]⟩
      · exact ⟨.quoted, .inl rfl, fun t => rfl⟩
    obtain ⟨r', hr', hpass⟩ := ih hnext hp
    exact ⟨r', hr', fun o q => .skip (hread _) (hpass _ _)⟩

/-- Without a backslash no quote behind the text is hidden. -/
theorem Passes.quoted_plain (hp : '"' ∉ p) (hb : '\\' ∉ p) (o : Nat) (q : Text) :
    Passes q .quoted o p [] .quoted := by
  induction p generalizing o with
  | nil => exact .nil
  | cons c p ih =>
    rw [List.mem_cons, not_or] at hp hb
    have hread : read .quoted c (p ++ q) = .go none .quoted := by
      simp [read, Ne.symm hp.1, Ne.symm hb.1]
    exact .skip hread (ih hp.2 hb.2 _)

end Bracket

end SourceSwitch
