import SourceSwitch.Text.Lines

namespace SourceSwitch.Text

/-- May stand in front of an ending: no line feed, and no carriage return that would join it. -/
structure IsLine (e : Ending) (body : Text) : Prop where
  newline_not_mem : '\n' ∉ body
  not_return : e = .lf → body.getLast? ≠ some '\r'

/-- The lines that splitting gives. Only the last one may lack an ending, and is then not empty. -/
inductive IsSplit : List Line → Prop where
  | nil : IsSplit []
  | last {body : Text} : '\n' ∉ body → body ≠ [] → IsSplit [⟨body, .none⟩]
  | cons {body : Text} {e : Ending} {ls : List Line} : e ≠ .none → IsLine e body → IsSplit ls →
      IsSplit (⟨body, e⟩ :: ls)

variable {e : Ending} {l : Line} {ls : List Line} {body t : Text} {c : Char}

namespace Line

theorem push_newline (ls : List Line) : push '\n' ls = ⟨[], .lf⟩ :: ls := by
  cases ls <;> rfl

theorem push_return (ls : List Line) : push '\r' (⟨[], .lf⟩ :: ls) = ⟨[], .crlf⟩ :: ls := rfl

theorem push_cons (hc : c ≠ '\n') (h : c = '\r' → e = .lf → body ≠ []) (ls : List Line) :
    push c (⟨body, e⟩ :: ls) = ⟨c :: body, e⟩ :: ls := by
  have h' : ¬ (c = '\r' ∧ body = [] ∧ e = .lf) := by
    rintro ⟨hr, hb, he⟩
    exact h hr he hb
  simp [push, hc, h']

theorem foldr_push (h : IsLine e body) (ls : List Line) :
    body.foldr push (⟨[], e⟩ :: ls) = ⟨body, e⟩ :: ls := by
  induction body with
  | nil => rfl
  | cons c body ih =>
    have hc : c ≠ '\n' := by
      intro hc
      exact h.newline_not_mem (hc ▸ List.mem_cons_self)
    have hn : '\n' ∉ body := by
      intro hn
      exact h.newline_not_mem (List.mem_cons_of_mem c hn)
    have hr : e = .lf → body.getLast? ≠ some '\r' := by
      intro he hr
      apply h.not_return he
      rw [List.getLast?_cons, hr]
      rfl
    rw [List.foldr_cons, ih ⟨hn, hr⟩]
    refine push_cons hc ?_ ls
    rintro rfl he rfl
    exact h.not_return he rfl

theorem split_append (body t : Text) : split (body ++ t) = body.foldr push (split t) :=
  List.foldr_append

theorem split_cons_ending (he : e ≠ .none) (t : Text) :
    split (e.text ++ t) = ⟨[], e⟩ :: split t := by
  cases e with
  | lf => exact push_newline _
  | crlf =>
    change push '\r' (push '\n' (split t)) = _
    rw [push_newline, push_return]
  | none => exact absurd rfl he

theorem split_of_newline_not_mem (hn : '\n' ∉ body) (hb : body ≠ []) :
    split body = [⟨body, .none⟩] := by
  obtain ⟨init, c, rfl⟩ := List.eq_nil_or_concat body |>.resolve_left hb
  rw [List.concat_eq_append] at hn ⊢
  have hc : c ≠ '\n' := by
    intro hc
    exact hn (hc ▸ List.mem_append_right init List.mem_cons_self)
  have hlast : split [c] = [⟨[c], .none⟩] := by simp [split, push, hc]
  rw [split_append, hlast]
  clear hb
  induction init with
  | nil => rfl
  | cons d init ih =>
    rw [List.cons_append, List.mem_cons, not_or] at hn
    rw [List.foldr_cons, ih hn.2]
    exact push_cons (Ne.symm hn.1) (by simp) []

theorem split_join (h : IsSplit ls) : split (join ls) = ls := by
  induction h with
  | nil => rfl
  | last hn hb => simpa [join, text, Ending.text] using split_of_newline_not_mem hn hb
  | @cons body e ls he hl _ ih =>
    change split (body ++ e.text ++ join ls) = _
    rw [List.append_assoc, split_append, split_cons_ending he, ih, foldr_push hl]

theorem isSplit_push (h : IsSplit ls) (c : Char) : IsSplit (push c ls) := by
  by_cases hc : c = '\n'
  · subst hc
    rw [push_newline]
    exact .cons (by simp) ⟨by simp, by simp⟩ h
  cases h with
  | nil =>
    simp only [push, hc, if_false]
    exact .last (by simpa using Ne.symm hc) (by simp)
  | @last body hn hb =>
    rw [push_cons hc (by simp)]
    exact .last (by simpa [Ne.symm hc] using hn) (by simp)
  | @cons body e ls he hl hls =>
    by_cases hr : c = '\r' ∧ body = [] ∧ e = .lf
    · obtain ⟨rfl, rfl, rfl⟩ := hr
      exact .cons (by simp) ⟨by simp, by simp⟩ hls
    · rw [push_cons hc fun hcr he hb => hr ⟨hcr, hb, he⟩]
      refine .cons he ⟨by simpa [Ne.symm hc] using hl.newline_not_mem, fun hlf => ?_⟩ hls
      rw [List.getLast?_cons]
      cases hlast : body.getLast? with
      | none =>
        have hb : body = [] := List.getLast?_eq_none_iff.mp hlast
        simpa using fun hcr => hr ⟨hcr, hb, hlf⟩
      | some d =>
        rintro ⟨⟩
        exact hl.not_return hlf hlast

end Line

theorem isSplit_split (t : Text) : IsSplit (Line.split t) := by
  induction t with
  | nil => exact .nil
  | cons c t ih => exact Line.isSplit_push ih c

def Line.endAll (e : Ending) (closed : Bool) : List Text → List Line
  | [] => []
  | [body] => [⟨body, if closed then e else .none⟩]
  | body :: rest => ⟨body, e⟩ :: endAll e closed rest

theorem getElem?_endAll {closed : Bool} {bodies : List Text} {index : Nat}
    (h : bodies[index]? = some body) : (Line.endAll e closed bodies)[index]?
    = some ⟨body, if index + 1 < bodies.length ∨ closed then e else .none⟩ := by
  induction bodies generalizing index with
  | nil => cases h
  | cons first bodies ih =>
    cases bodies with
    | nil =>
      cases index with
      | zero =>
        obtain rfl := Option.some.inj h
        simp [Line.endAll]
      | succ index => cases h
    | cons second bodies =>
      cases index with
      | zero =>
        obtain rfl := Option.some.inj h
        simp [Line.endAll]
      | succ index =>
        rw [List.getElem?_cons_succ] at h
        rw [Line.endAll, List.getElem?_cons_succ, ih h]
        · simp
        · simp

/-- Lines that can all get the same ending and be found again. -/
inductive Fits (e : Ending) (closed : Bool) : List Text → Prop where
  | nil : closed = false → Fits e closed []
  | last {body : Text} : IsLine (if closed then e else .none) body → (closed = false → body ≠ []) →
      Fits e closed [body]
  | cons {body : Text} {rest : List Text} : IsLine e body → rest ≠ [] → Fits e closed rest →
      Fits e closed (body :: rest)

namespace Fits

variable {closed : Bool} {bodies v w : List Text}

theorem isSplit (he : e ≠ .none) (h : Fits e closed bodies) :
    IsSplit (Line.endAll e closed bodies) := by
  induction h with
  | nil => exact .nil
  | @last body hl hb =>
    cases closed with
    | true => exact .cons he hl .nil
    | false => exact .last hl.newline_not_mem (hb rfl)
  | @cons body rest hl hne _ ih =>
    cases rest with
    | nil => exact absurd rfl hne
    | cons body' rest => exact .cons he hl ih

theorem append (hv : ∀ body ∈ v, IsLine e body) (hne : w ≠ []) (h : Fits e closed w) :
    Fits e closed (v ++ w) := by
  induction v with
  | nil => exact h
  | cons body v ih =>
    refine .cons (hv body List.mem_cons_self) (by simp [hne]) ?_
    exact ih fun body' hb => hv body' (List.mem_cons_of_mem _ hb)

theorem of_append (h : Fits e closed (v ++ w)) (hne : w ≠ []) :
    (∀ body ∈ v, IsLine e body) ∧ Fits e closed w := by
  induction v with
  | nil => exact ⟨fun _ hb => absurd hb List.not_mem_nil, h⟩
  | cons body v ih =>
    generalize hall : body :: v ++ w = all at h
    cases h with
    | nil => cases hall
    | last _ _ => simp [hne] at hall
    | cons hl _ h =>
      obtain ⟨rfl, rfl⟩ := List.cons.inj hall
      obtain ⟨hv, hw⟩ := ih h
      refine ⟨fun body' hb => ?_, hw⟩
      rcases List.mem_cons.mp hb with rfl | hb
      · exact hl
      · exact hv body' hb

theorem newline_not_mem (h : Fits e closed bodies) (hb : body ∈ bodies) : '\n' ∉ body := by
  induction h with
  | nil => cases hb
  | last hl _ =>
    obtain rfl := List.mem_singleton.mp hb
    exact hl.newline_not_mem
  | cons hl _ _ ih =>
    rcases List.mem_cons.mp hb with rfl | hb
    · exact hl.newline_not_mem
    · exact ih hb

theorem of_isLine (hv : ∀ body ∈ v, IsLine e body) (hl : IsLine e body) (hb : body ≠ []) :
    Fits e closed (v ++ [body]) := by
  refine append hv (by simp) (.last ?_ fun _ => hb)
  cases closed with
  | true => exact hl
  | false => exact ⟨hl.newline_not_mem, by simp⟩

end Fits

theorem join_ne_nil (h : IsSplit ls) (hne : ls ≠ []) : Line.join ls ≠ [] := by
  cases h with
  | nil => exact absurd rfl hne
  | last _ hb => simpa [Line.join, Line.text, Ending.text] using hb
  | @cons body e ls he _ _ =>
    cases e with
    | lf | crlf => simp [Line.join, Line.text, Ending.text]
    | none => exact absurd rfl he

theorem endsLine_join (h : IsSplit ls) :
    endsLine (Line.join ls) = ls.getLast?.any (·.ending ≠ .none) := by
  induction h with
  | nil => rfl
  | @last body hn hb =>
    have hlast : body.getLast? ≠ some '\n' := by
      intro h
      exact hn (List.mem_of_getLast? h)
    simpa [endsLine, Line.join, Line.text, Ending.text] using hlast
  | @cons body e ls he hl hls ih =>
    have hjoin : Line.join (⟨body, e⟩ :: ls) = body ++ e.text ++ Line.join ls := rfl
    rw [endsLine, hjoin]
    by_cases hne : ls = []
    · subst hne
      cases e with
      | lf | crlf => simp [Line.join, Ending.text]
      | none => exact absurd rfl he
    · obtain ⟨l, ls', rfl⟩ := List.exists_cons_of_ne_nil hne
      rw [List.getLast?_append, Option.or_of_isSome, List.getLast?_cons_cons]
      · exact ih
      · exact List.getLast?_isSome.mpr (join_ne_nil hls hne)

theorem fits_of_isSplit (h : IsSplit ls) (he : e = .lf → ∀ l ∈ ls, l.ending ≠ .crlf) :
    Fits e (ls.getLast?.any (·.ending ≠ .none)) (ls.map Line.body) := by
  induction h with
  | nil => exact .nil rfl
  | last hn hb => exact .last ⟨hn, by simp⟩ fun _ => hb
  | @cons body e' ls he' hl _ ih =>
    have hbody : IsLine e body := by
      refine ⟨hl.newline_not_mem, fun hlf => hl.not_return ?_⟩
      have hcrlf := he hlf _ List.mem_cons_self
      cases e' with
      | lf => rfl
      | crlf => exact absurd rfl hcrlf
      | none => exact absurd rfl he'
    cases ls with
    | nil =>
      have hclosed : [(⟨body, e'⟩ : Line)].getLast?.any (·.ending ≠ .none)
          = true := by simpa using he'
      rw [hclosed]
      exact .last hbody (by simp)
    | cons l ls =>
      rw [List.getLast?_cons_cons]
      exact .cons hbody (by simp) (ih fun hlf l' hl' => he hlf l' (List.mem_cons_of_mem _ hl'))

/-- All lines have one ending, which the last one may lack. -/
def IsUniform (e : Ending) (t : Text) : Prop := ∀ l ∈ Line.split t, l.ending = e ∨ l.ending = .none

instance (e : Ending) : DecidablePred (IsUniform e) := fun t =>
  inferInstanceAs (Decidable (∀ l ∈ Line.split t, l.ending = e ∨ l.ending = .none))

theorem endAll_of_isSplit (h : IsSplit ls) (hls : ∀ l ∈ ls, l.ending = e ∨ l.ending = .none) :
    Line.endAll e (ls.getLast?.any (·.ending ≠ .none)) (ls.map Line.body) = ls := by
  induction h with
  | nil => rfl
  | last _ _ => rfl
  | @cons body e' ls he' _ _ ih =>
    obtain rfl : e' = e := (hls _ List.mem_cons_self).resolve_right he'
    cases ls with
    | nil => simp [Line.endAll, he']
    | cons l ls =>
      rw [List.getLast?_cons_cons]
      exact congrArg (⟨body, e'⟩ :: ·) (ih fun l' hl' => hls l' (List.mem_cons_of_mem _ hl'))

theorem getLast?_split_ending (t : Text) :
    (Line.split t).getLast?.any (·.ending ≠ .none) = endsLine t := by
  rw [← endsLine_join (isSplit_split t), Line.join_split]

theorem IsSplit.ending_ne_none_iff {index : Nat} {l : Line} (h : IsSplit ls)
    (hl : ls[index]? = some l) :
    l.ending ≠ .none ↔ index + 1 < ls.length ∨ ls.getLast?.any (·.ending ≠ .none) := by
  induction h generalizing index with
  | nil => cases hl
  | last _ _ =>
    cases index with
    | zero =>
      obtain rfl := Option.some.inj hl
      simp
    | succ index => cases hl
  | @cons body e ls he _ hls ih =>
    cases index with
    | zero =>
      obtain rfl := Option.some.inj hl
      cases ls with
      | nil => simp [he]
      | cons l ls => simp [he]
    | succ index =>
      rw [List.getElem?_cons_succ] at hl
      cases ls with
      | nil => cases hl
      | cons l ls =>
        rw [ih hl, List.getLast?_cons_cons]
        simp

theorem ending_ne_none_iff {index : Nat} {l : Line} (hl : (Line.split t)[index]? = some l) :
    l.ending ≠ .none ↔ index + 1 < (lines t).length ∨ endsLine t := by
  rw [(isSplit_split t).ending_ne_none_iff hl, getLast?_split_ending, lines, List.length_map]

theorem endAll_lines (h : IsUniform e t) :
    Line.endAll e (endsLine t) (lines t) = Line.split t := by
  rw [← getLast?_split_ending]
  exact endAll_of_isSplit (isSplit_split t) h

theorem IsSplit.append (h : IsSplit ls) (hlast : ls.getLast?.all (·.ending ≠ .none))
    {ls' : List Line} (h' : IsSplit ls') : IsSplit (ls ++ ls') := by
  induction h with
  | nil => exact h'
  | last _ _ => cases hlast
  | @cons body e ls he hl _ ih =>
    apply IsSplit.cons he hl
    cases ls with
    | nil => exact h'
    | cons l ls =>
      rw [List.getLast?_cons_cons] at hlast
      exact ih hlast

/-- Behind a line feed a text is split on its own. -/
theorem split_append_of_endsLine {v : Text} (hv : v = [] ∨ endsLine v) (w : Text) :
    Line.split (v ++ w) = Line.split v ++ Line.split w := by
  have hlast : (Line.split v).getLast?.all (·.ending ≠ .none) := by
    rcases hv with rfl | hv
    · rfl
    · rw [← getLast?_split_ending] at hv
      cases h : (Line.split v).getLast? with
      | none => rfl
      | some l =>
        rw [h] at hv
        exact hv
  rw [← Line.split_join ((isSplit_split v).append hlast (isSplit_split w))]
  simp only [Line.join, List.flatMap_append]
  rw [← Line.join, ← Line.join, Line.join_split, Line.join_split]

theorem lines_append_of_endsLine {v : Text} (hv : v = [] ∨ endsLine v) (w : Text) :
    lines (v ++ w) = lines v ++ lines w := by
  rw [lines, split_append_of_endsLine hv, List.map_append, lines, lines]

theorem endsLine_append (v : Text) {w : Text} (hw : w ≠ []) : endsLine (v ++ w) = endsLine w := by
  rw [endsLine, List.getLast?_append, Option.or_of_isSome (List.getLast?_isSome.mpr hw), endsLine]

theorem IsUniform.append {v w : Text} (hends : v = [] ∨ endsLine v) (hv : IsUniform e v)
    (hw : IsUniform e w) : IsUniform e (v ++ w) := by
  intro l hl
  rw [split_append_of_endsLine hends] at hl
  rcases List.mem_append.mp hl with hl | hl
  · exact hv l hl
  · exact hw l hl

theorem lines_eq_nil_iff {t : Text} : lines t = [] ↔ t = [] := by
  constructor
  · intro h
    rw [← Line.join_split t, List.map_eq_nil_iff.mp h]
    rfl
  · rintro rfl
    rfl

end SourceSwitch.Text
