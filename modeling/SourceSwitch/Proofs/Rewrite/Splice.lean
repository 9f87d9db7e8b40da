import SourceSwitch.Proofs.Block.Extent
import SourceSwitch.Proofs.Rewrite.Verdict
import SourceSwitch.Proofs.Text.Lines
import SourceSwitch.Rewrite.Content

namespace SourceSwitch

open Text (Ending Line Fits IsSplit endsLine)

section Joining

variable {e : Ending} {closed : Bool} {ls : List Text} {content : Text}

theorem joinLines_cons (h : ls ≠ []) (ending l : Text) :
    joinLines ending closed (l :: ls) = l ++ ending ++ joinLines ending closed ls := by
  obtain ⟨l', ls, rfl⟩ := List.exists_cons_of_ne_nil h
  simp [joinLines, List.intercalate, List.intersperse]

theorem joinLines_singleton (ending l : Text) :
    joinLines ending closed [l] = l ++ if closed then ending else [] := by
  simp [joinLines]

theorem joinLines_append {ls' : List Text} (h : ls ≠ []) (h' : ls' ≠ []) (ending : Text) :
    joinLines ending closed (ls ++ ls') = joinLines ending true ls
      ++ joinLines ending closed ls' := by
  induction ls with
  | nil => exact absurd rfl h
  | cons l ls ih =>
    cases ls with
    | nil =>
      rw [List.singleton_append, joinLines_cons h', joinLines_singleton, if_pos rfl]
    | cons l₂ ls =>
      rw [List.cons_append, joinLines_cons (by simp), joinLines_cons (by simp), ih (by simp)]
      simp only [List.append_assoc]

theorem joinLines_eq_join (h : ls ≠ [] ∨ closed = false) (e : Ending) :
    joinLines e.text closed ls = Line.join (Line.endAll e closed ls) := by
  induction ls with
  | nil =>
    obtain rfl := h.resolve_left (fun h => h rfl)
    rfl
  | cons l ls ih =>
    cases ls with
    | nil =>
      rw [joinLines_singleton]
      cases closed <;> simp [Line.join, Line.endAll, Line.text, Ending.text]
    | cons l' ls =>
      rw [joinLines_cons (by simp), ih (.inl (by simp))]
      rfl

theorem Fits.ne_nil_or (h : Fits e closed ls) : ls ≠ [] ∨ closed = false := by
  cases h with
  | nil h => exact .inr h
  | last _ _ | cons _ _ _ => exact .inl (by simp)

theorem map_body_endAll (e : Ending) (closed : Bool) (ls : List Text) :
    (Line.endAll e closed ls).map Line.body = ls := by
  induction ls with
  | nil => rfl
  | cons l ls ih =>
    cases ls with
    | nil => rfl
    | cons l' ls => exact congrArg (l :: ·) ih

theorem split_joinLines (he : e ≠ .none) (h : Fits e closed ls) :
    Line.split (joinLines e.text closed ls) = Line.endAll e closed ls := by
  rw [joinLines_eq_join (Fits.ne_nil_or h), Line.split_join (h.isSplit he)]

theorem lines_joinLines (he : e ≠ .none) (h : Fits e closed ls) :
    Text.lines (joinLines e.text closed ls) = ls := by
  rw [Text.lines, split_joinLines he h, map_body_endAll]

theorem getLast?_endAll (he : e ≠ .none) (h : ls ≠ [] ∨ closed = false) :
    (Line.endAll e closed ls).getLast?.any (·.ending ≠ .none) = closed := by
  induction ls with
  | nil =>
    obtain rfl := h.resolve_left (fun h => h rfl)
    rfl
  | cons l ls ih =>
    cases ls with
    | nil => cases closed <;> simp [Line.endAll, he]
    | cons l' ls =>
      have hne : Line.endAll e closed (l' :: ls) ≠ [] := by
        intro hnil
        simpa [hnil] using map_body_endAll e closed (l' :: ls)
      obtain ⟨x, xs, hx⟩ := List.exists_cons_of_ne_nil hne
      have ih := ih (.inl (by simp))
      rw [hx] at ih
      rw [Line.endAll, hx, List.getLast?_cons_cons]
      · exact ih
      · simp

theorem endsLine_joinLines (he : e ≠ .none) (h : Fits e closed ls) :
    endsLine (joinLines e.text closed ls) = closed := by
  rw [joinLines_eq_join (Fits.ne_nil_or h), Text.endsLine_join (h.isSplit he),
    getLast?_endAll he (Fits.ne_nil_or h)]

def endingOf (content : Text) : Ending := if Text.hasCrlf content then .crlf else .lf

theorem chosenEnding_eq (content : Text) : chosenEnding content = (endingOf content).text := by
  rw [chosenEnding, endingOf]
  split <;> rfl

theorem endingOf_ne_none (content : Text) : endingOf content ≠ .none := by
  rw [endingOf]
  split <;> simp

theorem fits_lines (content : Text) :
    Fits (endingOf content) (endsLine content) (Text.lines content) := by
  have hends := Text.endsLine_join (Text.isSplit_split content)
  rw [Line.join_split] at hends
  rw [hends]
  apply Text.fits_of_isSplit (Text.isSplit_split content)
  intro hlf l hl hcrlf
  have hany : Text.hasCrlf content = true := List.any_eq_true.mpr ⟨l, hl, by simp [hcrlf]⟩
  rw [endingOf, if_pos hany] at hlf
  cases hlf

theorem ending_of_mem_endAll {l : Line} (h : l ∈ Line.endAll e closed ls) :
    l.ending = e ∨ l.ending = .none := by
  induction ls with
  | nil => cases h
  | cons body ls ih =>
    cases ls with
    | nil =>
      obtain rfl := List.mem_singleton.mp h
      cases closed <;> simp
    | cons body' ls =>
      rcases List.mem_cons.mp h with rfl | h
      · exact .inl rfl
      · exact ih h

theorem isUniform_joinLines (he : e ≠ .none) (h : Fits e closed ls) :
    Text.IsUniform e (joinLines e.text closed ls) := by
  intro l hl
  rw [split_joinLines he h] at hl
  exact ending_of_mem_endAll hl

theorem joinLines_lines_of_isUniform (h : Text.IsUniform e content) :
    joinLines e.text (endsLine content) (Text.lines content) = content := by
  have hclosed : Text.lines content ≠ [] ∨ endsLine content = false := by
    by_cases hne : content = []
    · subst hne
      exact .inr rfl
    · exact .inl (mt Text.lines_eq_nil_iff.mp hne)
  rw [joinLines_eq_join hclosed, Text.endAll_lines h, Line.join_split]

theorem fits_of_isUniform (h : Text.IsUniform e content) :
    Fits e (endsLine content) (Text.lines content) := by
  rw [← Text.getLast?_split_ending]
  apply Text.fits_of_isSplit (Text.isSplit_split content)
  rintro rfl l hl hcrlf
  rcases h l hl with h | h <;> rw [hcrlf] at h <;> cases h

theorem endingOf_joinLines (he : e ≠ .none) (h : Fits e closed ls) :
    endingOf (joinLines e.text closed ls) = e ∨ closed = false ∧ ls.length ≤ 1 := by
  rw [endingOf, Text.hasCrlf, split_joinLines he h]
  cases e with
  | none => exact absurd rfl he
  | lf =>
    left
    rw [if_neg]
    rw [List.any_eq_true]
    rintro ⟨l, hl, hcrlf⟩
    rcases ending_of_mem_endAll hl with hl | hl <;> simp [hl] at hcrlf
  | crlf =>
    cases h with
    | nil hc => exact .inr ⟨hc, by simp⟩
    | last _ _ => cases closed <;> simp [Line.endAll]
    | @cons body rest _ hne _ =>
      obtain ⟨body', rest, rfl⟩ := List.exists_cons_of_ne_nil hne
      exact .inl (by simp [Line.endAll])

theorem joinLines_of_length_le_one (h : ls.length ≤ 1) (ending ending' : Text) :
    joinLines ending false ls = joinLines ending' false ls := by
  match ls, h with
  | [], _ => rfl
  | [l], _ => rw [joinLines_singleton, joinLines_singleton]; rfl

/-- A content that is joined with one ending is joined again to itself. -/
theorem joinLines_lines (he : e ≠ .none) (h : Fits e closed ls)
    (hcontent : content = joinLines e.text closed ls) :
    joinLines (chosenEnding content) (endsLine content) (Text.lines content) = content := by
  subst hcontent
  rw [lines_joinLines he h, endsLine_joinLines he h, chosenEnding_eq]
  rcases endingOf_joinLines he h with hending | ⟨rfl, hlength⟩
  · rw [hending]
  · exact joinLines_of_length_le_one hlength _ _

end Joining

namespace Mode

/-- The lines that take the place of a declaration's own: it qualifies, and a release is found if
one is needed. -/
def replacement? (mode : Mode) (reply : Coordinates → Reply) (b : ModuleBlock) :
    Option (List Text) :=
  if mode.qualifies b then
    match mode.newVersion reply b with
    | .ok version => some (b.render (mode.newSource b) version)
    | .error _ => none
  else none

def unresolved? (mode : Mode) (reply : Coordinates → Reply) (b : ModuleBlock) :
    Option Unresolved :=
  if mode.qualifies b then
    match mode.newVersion reply b with
    | .ok _ => none
    | .error e => some (.of b (mode.targetText b) e)
  else none

theorem replacement?_eq_some_iff {mode : Mode} {reply : Coordinates → Reply} {b : ModuleBlock}
    {ls : List Text} : mode.replacement? reply b = some ls ↔ mode.qualifies b ∧
      ∃ version, mode.newVersion reply b = .ok version ∧
        b.render (mode.newSource b) version = ls := by
  rw [replacement?]
  by_cases hq : mode.qualifies b
  · rw [if_pos hq]
    cases mode.newVersion reply b <;> simp [hq]
  · rw [if_neg hq]
    simp [hq]

theorem qualifies_of_isSome {mode : Mode} {reply : Coordinates → Reply} {b : ModuleBlock}
    (h : (mode.replacement? reply b).isSome) : mode.qualifies b := by
  obtain ⟨ls, hls⟩ := Option.isSome_iff_exists.mp h
  exact (replacement?_eq_some_iff.mp hls).1

theorem isSome_replacement? {mode : Mode} {reply : Coordinates → Reply} {b : ModuleBlock}
    (hq : mode.qualifies b) (h : ∃ version, mode.newVersion reply b = .ok version) :
    (mode.replacement? reply b).isSome := by
  obtain ⟨version, hversion⟩ := h
  rw [replacement?_eq_some_iff.mpr ⟨hq, version, hversion, rfl⟩]
  rfl

theorem line_of_unresolved? {mode : Mode} {reply : Coordinates → Reply} {b : ModuleBlock}
    {entry : Unresolved} (h : mode.unresolved? reply b = some entry) :
      entry.line = b.startLine := by
  rw [unresolved?] at h
  split at h
  · cases hv : mode.newVersion reply b with
    | ok version => rw [hv] at h; cases h
    | error e =>
      rw [hv] at h
      obtain rfl := Option.some.inj h
      rfl
  · cases h

end Mode

section Edits

variable {σ : Type} {ask : Lookup σ} {reply : Coordinates → Reply}

theorem Plan.run_fst (h : ask.IsConstant reply) (b : ModuleBlock) (s : σ) (p : Plan) :
    (p.run ask b s).1 = (p.run (.constant reply) b ()).1 := by
  cases p with
  | keep | rewrite | reject => rfl
  | pin source c events =>
    change ((settle b source c (ask c s).1).1, events ++ (settle b source c (ask c s).1).2) = _
    rw [h]
    rfl

/-- The edit of a declaration when the registry's replies depend on the coordinates only. -/
def Edit.of (mode : Mode) (reply : Coordinates → Reply) (lines : List Text) (b : ModuleBlock) :
    Edit :=
  let decided := ((mode.plan b).run (.constant reply) b ()).1
  ⟨b, b.slice lines, decided.1, decided.2⟩

theorem Edit.plan_eq_map (h : ask.IsConstant reply) (mode : Mode) (lines : List Text)
    (bs : List ModuleBlock) (s : σ) :
    (Edit.plan ask mode lines bs s).1 = bs.map (Edit.of mode reply lines) := by
  induction bs generalizing s with
  | nil => rfl
  | cons b bs ih =>
    change ⟨b, _, ((mode.plan b).run ask b s).1.1, ((mode.plan b).run ask b s).1.2⟩ ::
      (Edit.plan ask mode lines bs ((mode.plan b).run ask b s).2).1 = _
    rw [ih, Plan.run_fst h]
    rfl

namespace Edit

variable (mode : Mode) (reply : Coordinates → Reply) (lines : List Text) (b : ModuleBlock)

theorem verdict_of : (Edit.of mode reply lines b).verdict = mode.verdict reply b :=
  Mode.run_plan (Lookup.isConstant_constant reply) mode b ()

theorem lines_of : (Edit.of mode reply lines b).lines
    = (mode.replacement? reply b).getD (b.slice lines) := by
  rw [Edit.lines, verdict_of, Mode.replacement?, Mode.verdict]
  by_cases hq : mode.qualifies b
  · rw [if_pos hq, if_pos hq]
    cases mode.newVersion reply b <;> rfl
  · rw [if_neg hq, if_neg hq]
    rfl

theorem unresolved?_of :
    (Edit.of mode reply lines b).unresolved? = mode.unresolved? reply b := by
  rw [Edit.unresolved?, verdict_of, Mode.unresolved?, Mode.verdict]
  by_cases hq : mode.qualifies b
  · rw [if_pos hq, if_pos hq]
    cases mode.newVersion reply b <;> rfl
  · rw [if_neg hq, if_neg hq]

end Edit

theorem Plan.run_logged (ask : Lookup σ) (b : ModuleBlock) (calls : List Call) (s : σ) (p : Plan) :
    ∃ new, p.run ask.logged b (calls, s) = ((p.run ask b s).1, (calls ++ new, (p.run ask b s).2)) ∧
      ask.Answers s new (p.run ask b s).2 := by
  cases p with
  | keep | rewrite | reject =>
    refine ⟨[], ?_, .nil⟩
    rw [List.append_nil]
    rfl
  | pin source c events => exact ⟨[⟨c, (ask c s).1⟩], rfl, .cons .nil⟩

/-- Recording the calls does not change what comes of them. -/
theorem Edit.plan_logged (ask : Lookup σ) (mode : Mode) (lines : List Text) (bs : List ModuleBlock)
    (calls : List Call) (s : σ) : ∃ new, Edit.plan ask.logged mode lines bs (calls, s)
        = ((Edit.plan ask mode lines bs s).1, (calls ++ new, (Edit.plan ask mode lines bs s).2)) ∧
      ask.Answers s new (Edit.plan ask mode lines bs s).2 := by
  induction bs generalizing calls s with
  | nil =>
    refine ⟨[], ?_, .nil⟩
    rw [List.append_nil]
    rfl
  | cons b bs ih =>
    obtain ⟨first, hfirst, hanswers⟩ := Plan.run_logged ask b calls s (mode.plan b)
    obtain ⟨rest, hrest, hanswers'⟩ := ih (calls ++ first) ((mode.plan b).run ask b s).2
    refine ⟨first ++ rest, ?_, hanswers.append hanswers'⟩
    simp only [plan, hfirst, hrest, List.append_assoc]

/-- Each declaration gets a reply of its own, and the calls are those of the declarations that ask,
in their order. -/
theorem Edit.exists_plan_logged (ask : Lookup σ) (mode : Mode) (lines : List Text)
    {bs : List ModuleBlock} (hbs : bs.Nodup) (calls : List Call) (s : σ) :
    ∃ replies : ModuleBlock → Reply,
      (Edit.plan ask.logged mode lines bs (calls, s)).1
        = bs.map (fun b => Edit.of mode (fun _ => replies b) lines b) ∧
      (Edit.plan ask.logged mode lines bs (calls, s)).2.1
        = calls ++ bs.filterMap fun b => (mode.asks? b).map (⟨·, replies b⟩) := by
  induction bs generalizing calls s with
  | nil => exact ⟨fun _ => ⟨.error (.notFound []), []⟩, rfl, (List.append_nil _).symm⟩
  | cons b bs ih =>
    obtain ⟨hb, hbs⟩ := List.nodup_cons.mp hbs
    obtain ⟨reply, hverdict, hcall⟩ := Mode.exists_run_plan_logged ask mode b calls s
    obtain ⟨replies, hedits, hcalls⟩ := ih hbs ((mode.plan b).run ask.logged b (calls, s)).2.1
      ((mode.plan b).run ask.logged b (calls, s)).2.2
    let replies' := Function.update replies b reply
    have hself : replies' b = reply := Function.update_self b reply replies
    have hrest : ∀ b' ∈ bs, replies' b' = replies b' := by
      intro b' hb'
      apply Function.update_of_ne
      rintro rfl
      exact hb hb'
    refine ⟨replies', ?_, ?_⟩
    · have hmap : bs.map (fun b' => Edit.of mode (fun _ => replies' b') lines b')
          = bs.map (fun b' => Edit.of mode (fun _ => replies b') lines b') :=
        List.map_congr_left fun b' hb' => by rw [hrest b' hb']
      rw [List.map_cons, hmap, ← hedits, hself]
      simp only [Edit.plan, hverdict]
      rfl
    · have hmap : bs.filterMap (fun b' => (mode.asks? b').map (⟨·, replies' b'⟩ : _ → Call))
          = bs.filterMap (fun b' => (mode.asks? b').map (⟨·, replies b'⟩ : _ → Call)) :=
        List.filterMap_congr fun b' hb' => by rw [hrest b' hb']
      rw [List.filterMap_cons, hmap, hself]
      change (Edit.plan _ mode lines bs ((mode.plan b).run ask.logged b (calls, s)).2).2.1 = _
      rw [hcalls, hcall, List.append_assoc]
      cases mode.asks? b <;> rfl

end Edits

namespace Piece

def replaced (new : ModuleBlock → Option (List Text)) (number : Nat) : List Piece → List Text
  | [] => []
  | line l :: ps => l :: replaced new (number + 1) ps
  | block s :: ps =>
    (new (s.block number)).getD s.lines ++ replaced new (number + s.lines.length) ps

variable (new : ModuleBlock → Option (List Text)) (number : Nat)

theorem replaced_map_line (lines : List Text) : replaced new number (lines.map .line) = lines := by
  induction lines generalizing number with
  | nil => rfl
  | cons l lines ih => exact congrArg (l :: ·) (ih _)

theorem replaced_none (ps : List Piece) :
    replaced (fun _ => none) number ps = ps.flatMap lines := by
  induction ps generalizing number with
  | nil => rfl
  | cons p ps ih =>
    cases p with
    | line l => exact congrArg (l :: ·) (ih _)
    | block s => exact congrArg (s.lines ++ ·) (ih _)

theorem replaced_append (ps ps' : List Piece) : replaced new number (ps ++ ps')
    = replaced new number ps ++ replaced new (number + (ps.flatMap lines).length) ps' := by
  induction ps generalizing number with
  | nil => rfl
  | cons p ps ih =>
    rw [List.flatMap_cons, List.length_append, ← Nat.add_assoc]
    cases p with
    | line l => exact congrArg (l :: ·) (ih _)
    | block s =>
      rw [List.cons_append, replaced, replaced, ih, List.append_assoc]
      rfl

theorem replaced_of_length_le_one {ps : List Piece} (h : (ps.flatMap lines).length ≤ 1) :
    replaced new number ps = ps.flatMap lines := by
  induction ps generalizing number with
  | nil => rfl
  | cons p ps ih =>
    rw [List.flatMap_cons, List.length_append] at h
    cases p with
    | line l => exact congrArg (l :: ·) (ih _ (Nat.le_of_add_left_le h))
    | block s =>
      rw [lines, Span.length_lines] at h
      omega

end Piece

section Splicing

variable {new : ModuleBlock → Option (List Text)} {lines v pending : List Text}

theorem splice_span {e : Edit} (es : List Edit) {s : Span} {rest : List Text}
    (hlines : lines = v ++ pending ++ s.lines ++ rest)
    (hblock : e.block = s.block (1 + (v ++ pending).length))
    (he : e.lines = (new e.block).getD (e.block.slice lines)) :
    Edit.splice v.length (pending ++ s.lines ++ rest) (e :: es)
      = pending ++ ((new (s.block (1 + (v ++ pending).length))).getD s.lines
        ++ Edit.splice (v ++ pending ++ s.lines).length rest es) := by
  have hfirst : (s.block (1 + (v ++ pending).length)).firstIndex - v.length = pending.length := by
    simp [ModuleBlock.firstIndex]
  have hend : (s.block (1 + (v ++ pending).length)).endLine
      = (v ++ pending ++ s.lines).length := by
    simp
    omega
  have hskip : (v ++ pending ++ s.lines).length - v.length = (pending ++ s.lines).length := by
    rw [List.append_assoc, List.length_append, Nat.add_sub_cancel_left]
  have hslice : (s.block (1 + (v ++ pending).length)).slice lines = s.lines := by
    rw [hlines]
    exact s.slice_block _ _
  rw [Edit.splice, he, hblock, hslice, hfirst, hend, hskip, List.drop_left, List.append_assoc,
    List.append_assoc, List.take_left]

theorem splice_edits {ps : List Piece} {es : List Edit}
    (hlines : lines = v ++ pending ++ ps.flatMap Piece.lines)
    (hblocks : es.map (·.block) = Piece.blocks (1 + (v ++ pending).length) ps)
    (hes : ∀ e ∈ es, e.lines = (new e.block).getD (e.block.slice lines)) :
    Edit.splice v.length (pending ++ ps.flatMap Piece.lines) es
      = pending ++ Piece.replaced new (1 + (v ++ pending).length) ps := by
  -- Single lines do not move the cursor, so they are pending until a span is reached.
  induction ps generalizing v pending es with
  | nil =>
    obtain rfl := List.map_eq_nil_iff.mp hblocks
    rfl
  | cons p ps ih =>
    cases p with
    | line l =>
      have hlines' : lines = v ++ (pending ++ [l]) ++ ps.flatMap Piece.lines := by
        rw [hlines]
        simp [Piece.lines]
      have hnumber : 1 + (v ++ (pending ++ [l])).length = 1 + (v ++ pending).length + 1 := by
        simp [Nat.add_assoc]
      have h := ih hlines' (by rw [hnumber]; exact hblocks) hes
      rw [hnumber] at h
      simpa [Piece.lines, Piece.replaced] using h
    | block s =>
      obtain ⟨e, es, rfl, hblock, hrest⟩ := List.map_eq_cons_iff.mp hblocks
      rw [List.flatMap_cons, Piece.lines, ← List.append_assoc] at hlines
      have hnumber : 1 + (v ++ pending ++ s.lines ++ []).length
          = 1 + (v ++ pending).length + s.lines.length := by
        simp [Nat.add_assoc]
      have hnext : lines = v ++ pending ++ s.lines ++ [] ++ ps.flatMap Piece.lines := by
        rw [List.append_nil]
        exact hlines
      have h := ih hnext (by rw [hnumber]; exact hrest) fun e he =>
          hes e (List.mem_cons_of_mem _ he)
      rw [hnumber, List.nil_append, List.nil_append] at h
      rw [List.flatMap_cons, Piece.lines, ← List.append_assoc,
        splice_span es hlines hblock (hes e List.mem_cons_self), h, Piece.replaced]

end Splicing

end SourceSwitch
