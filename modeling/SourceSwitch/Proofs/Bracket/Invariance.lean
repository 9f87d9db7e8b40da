import SourceSwitch.Proofs.Bracket.Tally

namespace SourceSwitch.Bracket

open Text

variable {ms : List (Nat × Mark)} {line v v' w w' : Text} {d : Int} {i k : Nat} {carry : Carry}

namespace Tally

/-- The second tally is the first with its offsets moved. -/
structure IsMoved (t t' : Tally) (distance : Int) : Prop where
  opens : t'.opens = t.opens
  closes : t'.closes = t.closes
  leadingClose : t'.leadingClose = t.leadingClose
  verbatim : t'.verbatim = t.verbatim
  commentAt : t'.commentAt.map Int.ofNat = t.commentAt.map fun k => Int.ofNat k + distance
  closedAt : t'.closedAt.map Int.ofNat = t.closedAt.map fun k => Int.ofNat k + distance

/-- Of the marks, the one with this index is the first closing bracket that brings the depth to
zero, and it stands at this offset. -/
structure IsFirstClose (ms : List (Nat × Mark)) (d : Int) (i k : Nat) : Prop where
  getElem? : ms[i]? = some (k, .closing)
  depth_eq : d + balance (ms.take (i + 1)) = 0
  before : ∀ j < i, ∀ o, ms[j]? = some (o, .closing) → d + balance (ms.take (j + 1)) ≠ 0

theorem closing?_map_offset (f : Nat → Nat) (d : Int) (ms : List (Nat × Mark)) :
    closing? d (ms.map fun m => (f m.1, m.2)) = (closing? d ms).map f := by
  induction ms generalizing d with
  | nil => rfl
  | cons m ms ih =>
    obtain ⟨o, mark⟩ := m
    cases mark with
    | opening | code | comment => exact ih _
    | closing =>
      rw [List.map_cons, closing?, closing?]
      split_ifs
      · rfl
      · exact ih _

theorem isMoved_ofMarks (verbatim : Bool) (depth : Option Int) (ms : List (Nat × Mark))
    (n n' : Nat) :
    IsMoved (ofMarks verbatim depth (ms.map fun m => (n + m.1, m.2)))
      (ofMarks verbatim depth (ms.map fun m => (n' + m.1, m.2))) (Int.ofNat n' - Int.ofNat n) := by
  -- Both tallies have the offsets of the marks themselves, each moved by its own distance.
  have hoffset (o : Option Nat) : (o.map (n' + ·)).map Int.ofNat
      = (o.map (n + ·)).map fun k => Int.ofNat k + (Int.ofNat n' - Int.ofNat n) := by
    cases o with
    | none => rfl
    | some k =>
      simp only [Option.map_some, Option.some_inj, Int.ofNat_eq_natCast, Int.natCast_add]
      omega
  have hcomment (n : Nat) : (ofMarks verbatim depth (ms.map fun m => (n + m.1, m.2))).commentAt
      = (ofMarks verbatim depth ms).commentAt.map (n + ·) := by
    simp [ofMarks, List.find?_map, Function.comp_def]
  have hclosed (n : Nat) : (ofMarks verbatim depth (ms.map fun m => (n + m.1, m.2))).closedAt
      = (ofMarks verbatim depth ms).closedAt.map (n + ·) := by
    cases depth with
    | none => rfl
    | some d => exact closing?_map_offset (n + ·) d ms
  constructor
  · simp only [ofMarks, List.countP_map, Function.comp_def]
  · simp only [ofMarks, List.countP_map, Function.comp_def]
  · rw [leadingClose_map_offset (n' + ·) verbatim depth depth,
      leadingClose_map_offset (n + ·) verbatim depth depth]
  · rfl
  · rw [hcomment, hcomment, hoffset]
  · rw [hclosed, hclosed, hoffset]

theorem exists_isFirstClose_cons_iff {m : Nat × Mark}
    (hm : m.2 = .closing → d + balance [m] ≠ 0) :
    (∃ i, IsFirstClose (m :: ms) d i k) ↔ ∃ i, IsFirstClose ms (d + balance [m]) i k := by
  have htake (n : Nat) : d + balance ((m :: ms).take (n + 1))
      = d + balance [m] + balance (ms.take n) := by
    rw [List.take_succ_cons, ← List.singleton_append, balance_append, Int.add_assoc]
  constructor
  · rintro ⟨i, hget, hdepth, hbefore⟩
    cases i with
    | zero =>
      obtain rfl : m = (k, .closing) := Option.some.inj hget
      exact absurd hdepth (hm rfl)
    | succ i =>
      rw [htake] at hdepth
      refine ⟨i, hget, hdepth, ?_⟩
      intro j hj o ho
      have hne := hbefore (j + 1) (by omega) o ho
      rwa [htake] at hne
  · rintro ⟨i, hget, hdepth, hbefore⟩
    refine ⟨i + 1, hget, by rwa [htake], ?_⟩
    intro j hj o ho
    cases j with
    | zero =>
      obtain rfl : m = (o, .closing) := Option.some.inj ho
      exact hm rfl
    | succ j =>
      rw [htake]
      exact hbefore j (by omega) o ho

theorem closing?_eq_some_iff : closing? d ms = some k ↔ ∃ i, IsFirstClose ms d i k := by
  induction ms generalizing d with
  | nil =>
    constructor
    · intro h
      cases h
    · rintro ⟨i, hget, -, -⟩
      cases hget
  | cons m ms ih =>
    obtain ⟨o, mark⟩ := m
    cases mark with
    | opening =>
      rw [closing?, ih, exists_isFirstClose_cons_iff (by simp)]
      rfl
    | code | comment =>
      rw [closing?, ih, exists_isFirstClose_cons_iff (by simp)]
      simp
    | closing =>
      rw [closing?]
      split_ifs with hd
      · subst hd
        constructor
        · intro h
          obtain rfl := Option.some.inj h
          exact ⟨0, rfl, rfl, fun j hj => absurd hj (Nat.not_lt_zero j)⟩
        · rintro ⟨i, hget, -, hbefore⟩
          cases i with
          | zero => exact congrArg (Option.map Prod.fst) hget
          | succ i => exact absurd rfl (hbefore 0 (by omega) o rfl)
      · have hskip : d + balance [(o, .closing)] ≠ 0 := by
          rw [balance_cons_closing, balance_nil]
          omega
        rw [ih, exists_isFirstClose_cons_iff fun _ => hskip]
        rfl

end Tally

namespace Carry

/-- What the scan of a line counts: its marks, which a line of a here-document has none of. -/
def counted (carry : Carry) (line : Text) : List (Nat × Mark) :=
  if carry.IsHeredoc then [] else carry.marksOf line

theorem step_eq (carry : Carry) (depth : Option Int) (line : Text) : carry.step depth line
    = (.ofMarks (carry ≠ .code) depth (carry.counted line), carry.next line) := by
  cases carry with
  | code | comment => rfl
  | heredoc marker => cases depth <;> rfl

theorem bracket_of_counted {mark : Mark} (hmark : mark = .opening ∨ mark = .closing)
    (h : (k, mark) ∈ carry.counted line) :
    ∃ p c q, line = p ++ c :: q ∧ codeMark? c = some mark ∧ byteLength p = k := by
  rw [counted] at h
  split_ifs at h
  · cases h
  · obtain ⟨before, behind, hmarks⟩ := List.mem_iff_append.mp h
    obtain ⟨p, c, q, hline, hc, -, hk⟩ := exists_eq_append_bracket hmark hmarks
    exact ⟨p, c, q, hline, hc, by rw [hk, Nat.zero_add]⟩

theorem pairwise_counted (carry : Carry) (line : Text) :
    (carry.counted line).Pairwise fun m m' => m.1 < m'.1 := by
  rw [counted]
  split_ifs
  · exact .nil
  · exact (pairwise_marks carry.region 0 line).2

theorem counted_append_blanks (hv : isBlankText v) (line : Text) (hw : isBlankText w) :
    carry.counted (v ++ line ++ w)
      = (carry.counted line).map fun m => (byteLength v + m.1, m.2) := by
  have hregion : carry.region = .code ∨ carry.region = .comment := by
    cases carry with
    | comment => exact .inr rfl
    | code | heredoc => exact .inl rfl
  rw [counted, counted]
  split_ifs
  · rfl
  · rw [marksOf, marks_append_blanks hregion hv line hw]
    rfl

theorem next_append_blanks (hv : isBlankText v) (line : Text) (hw : isBlankText w) :
    carry.next (v ++ line ++ w) = carry.next line := by
  cases carry with
  | code => exact next_code_append_blanks hv line hw
  | comment =>
    change (marks .comment 0 (v ++ line ++ w)).2 = (marks .comment 0 line).2
    rw [marks_append_blanks (.inr rfl) hv line hw]
  | heredoc marker =>
    change (if trim (v ++ line ++ w) = marker then Carry.code else .heredoc marker) = _
    rw [trim_append_blanks hv line hw]
    rfl

theorem isMoved_step (carry : Carry) (depth : Option Int) (line : Text) (hv : isBlankText v)
    (hw : isBlankText w) (hv' : isBlankText v') (hw' : isBlankText w') :
    Tally.IsMoved (carry.step depth (v ++ line ++ w)).1 (carry.step depth (v' ++ line ++ w')).1
      (Int.ofNat (byteLength v') - Int.ofNat (byteLength v)) := by
  rw [step_eq, step_eq, counted_append_blanks hv line hw, counted_append_blanks hv' line hw']
  exact Tally.isMoved_ofMarks _ depth _ _ _

theorem closedAt_eq_some_iff : (carry.scanAtDepth d line).1.closedAt = some k ↔
    ∃ i, Tally.IsFirstClose (carry.counted line) d i k := by
  rw [scanAtDepth, step_eq]
  exact Tally.closing?_eq_some_iff

/-- How the scan of a line at a depth goes with the scan of the line. -/
structure TracksDepth (carry : Carry) (line : Text) (d : Int) : Prop where
  scanAtDepth_eq : carry.scanAtDepth d line = ({ (carry.scan line).1 with
    closedAt := (carry.scanAtDepth d line).1.closedAt }, (carry.scan line).2)
  opens_eq : (carry.scan line).1.opens = (carry.counted line).countP (·.2 = .opening)
  closes_eq : (carry.scan line).1.closes = (carry.counted line).countP (·.2 = .closing)
  increasing : (carry.counted line).Pairwise fun m m' => m.1 < m'.1
  exists_isOpening : ∀ k, (k, .opening) ∈ carry.counted line →
    ∃ p c q, line = p ++ c :: q ∧ isOpening c ∧ byteLength p = k
  exists_isClosing : ∀ k, (k, .closing) ∈ carry.counted line →
    ∃ p c q, line = p ++ c :: q ∧ isClosing c ∧ byteLength p = k
  closedAt_iff : ∀ k, (carry.scanAtDepth d line).1.closedAt = some k ↔
    ∃ i, Tally.IsFirstClose (carry.counted line) d i k
  exists_closedAt : 1 ≤ d → d + (carry.scan line).1.net ≤ 0 →
    ∃ k, (carry.scanAtDepth d line).1.closedAt = some k

theorem tracksDepth (carry : Carry) (line : Text) (d : Int) : carry.TracksDepth line d where
  scanAtDepth_eq := by simp only [scanAtDepth, scan, step_eq, Tally.ofMarks]
  opens_eq := by rw [scan, step_eq]; rfl
  closes_eq := by rw [scan, step_eq]; rfl
  increasing := pairwise_counted carry line
  exists_isOpening k h := by
    obtain ⟨p, c, q, hline, hc, hk⟩ := bracket_of_counted (.inl rfl) h
    exact ⟨p, c, q, hline, by rw [isOpening_eq_decide, hc]; rfl, hk⟩
  exists_isClosing k h := by
    obtain ⟨p, c, q, hline, hc, hk⟩ := bracket_of_counted (.inr rfl) h
    exact ⟨p, c, q, hline, isClosing_of_codeMark? hc, hk⟩
  closedAt_iff _ := closedAt_eq_some_iff
  exists_closedAt hd hnet := Option.isSome_iff_exists.mp (closedAt_isSome hd hnet)

/-- Other blanks around a line move its offsets by what they are longer in front, and a depth adds
the offset of the bracket that uses it up. -/
theorem scan_isInvariant (carry : Carry) (line : Text) (hv : isBlankText v) (hw : isBlankText w)
    (hv' : isBlankText v') (hw' : isBlankText w') :
    (∀ depth,
      Tally.IsMoved (carry.step depth (v ++ line ++ w)).1 (carry.step depth (v' ++ line ++ w')).1
        (Int.ofNat (byteLength v') - Int.ofNat (byteLength v)) ∧
      (carry.step depth (v ++ line ++ w)).2 = (carry.step depth (v' ++ line ++ w')).2) ∧
    ∀ d, carry.TracksDepth line d := by
  refine ⟨?_, tracksDepth carry line⟩
  intro depth
  refine ⟨isMoved_step carry depth line hv hw hv' hw', ?_⟩
  rw [step_eq, step_eq, next_append_blanks hv line hw, next_append_blanks hv' line hw']

theorem scan_isInvariant_commentEnd :
    let line : Text := "*/ []) # end"
    isBlankText "\u3000" ∧ isBlankText " \t" ∧ isBlankText "" ∧
    Tally.IsMoved (Carry.comment.scanAtDepth 1 ("\u3000" ++ line ++ "")).1
      (Carry.comment.scanAtDepth 1 ("" ++ line ++ " \t")).1 (-3) ∧
    (Carry.comment.scanAtDepth 1 line).1.closedAt = some 5 ∧
    ∃ i, Tally.IsFirstClose (Carry.comment.counted line) 1 i 5 := by
  intro line
  have hwide : isBlankText "\u3000" := by decide
  have hempty : isBlankText "" := by decide
  have hbehind : isBlankText " \t" := by decide
  have hclosed : (Carry.comment.scanAtDepth 1 line).1.closedAt = some 5 := by decide
  obtain ⟨hmoved, htracks⟩ := scan_isInvariant .comment line hwide hempty hempty hbehind
  exact ⟨hwide, hbehind, hempty, (hmoved (some 1)).1, hclosed,
    ((htracks 1).closedAt_iff 5).mp hclosed⟩

end Carry

end SourceSwitch.Bracket
