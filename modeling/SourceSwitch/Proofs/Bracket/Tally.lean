import SourceSwitch.Bracket.Tally
import SourceSwitch.Proofs.Bracket.Marks

namespace SourceSwitch.Bracket

open Text

variable {ms ms' : List (Nat × Mark)} {line p q v w : Text} {d : Int} {k : Nat} {carry : Carry}

def balance (ms : List (Nat × Mark)) : Int :=
  ms.countP (·.2 = .opening) - ms.countP (·.2 = .closing)

@[simp] theorem balance_nil : balance [] = 0 := rfl

@[simp] theorem balance_append (ms ms' : List (Nat × Mark)) :
    balance (ms ++ ms') = balance ms + balance ms' := by
  simp only [balance, List.countP_append]
  omega

@[simp] theorem balance_cons_opening (k : Nat) (ms : List (Nat × Mark)) :
    balance ((k, .opening) :: ms) = 1 + balance ms := by
  simp [balance]
  omega

@[simp] theorem balance_cons_closing (k : Nat) (ms : List (Nat × Mark)) :
    balance ((k, .closing) :: ms) = balance ms - 1 := by
  simp [balance]
  omega

@[simp] theorem balance_cons_code (k : Nat) (ms : List (Nat × Mark)) :
    balance ((k, .code) :: ms) = balance ms := by
  simp [balance]

@[simp] theorem balance_cons_comment (k : Nat) (ms : List (Nat × Mark)) :
    balance ((k, .comment) :: ms) = balance ms := by
  simp [balance]

theorem balance_map_offset (f : Nat → Nat) (ms : List (Nat × Mark)) :
    balance (ms.map fun m => (f m.1, m.2)) = balance ms := by
  simp only [balance, List.countP_map, Function.comp_def]

theorem balance_marks (r : Region) (o : Nat) (t : Text) :
    balance (marks r o t).1 = balance (marks r 0 t).1 := by
  rw [marks_offset, balance_map_offset]

namespace Tally

theorem exists_of_closing?_eq_some (h : closing? d ms = some k) :
    ∃ ms₁ ms₂, ms = ms₁ ++ (k, .closing) :: ms₂ ∧ d + balance ms₁ = 1 := by
  induction ms generalizing d with
  | nil => cases h
  | cons m ms ih =>
    obtain ⟨o, mark⟩ := m
    cases mark with
    | opening =>
      obtain ⟨ms₁, ms₂, rfl, hd⟩ := ih h
      exact ⟨(o, .opening) :: ms₁, ms₂, rfl, by rw [balance_cons_opening]; omega⟩
    | closing =>
      by_cases hd : d = 1
      · obtain rfl : o = k := by simpa [closing?, hd] using h
        exact ⟨[], ms, rfl, by simpa using hd⟩
      · obtain ⟨ms₁, ms₂, rfl, hd'⟩ := ih (by simpa [closing?, hd] using h)
        exact ⟨(o, .closing) :: ms₁, ms₂, rfl, by rw [balance_cons_closing]; omega⟩
    | code =>
      obtain ⟨ms₁, ms₂, rfl, hd⟩ := ih h
      exact ⟨(o, .code) :: ms₁, ms₂, rfl, by rwa [balance_cons_code]⟩
    | comment =>
      obtain ⟨ms₁, ms₂, rfl, hd⟩ := ih h
      exact ⟨(o, .comment) :: ms₁, ms₂, rfl, by rwa [balance_cons_comment]⟩

/-- Brackets change the depth by one each, so it does not fall past zero unseen. -/
theorem closing?_isSome (hd : 1 ≤ d) (h : d + balance ms ≤ 0) : (closing? d ms).isSome := by
  induction ms generalizing d with
  | nil =>
    rw [balance_nil] at h
    omega
  | cons m ms ih =>
    obtain ⟨o, mark⟩ := m
    cases mark with
    | opening =>
      rw [balance_cons_opening] at h
      exact ih (d := d + 1) (by omega) (by omega)
    | closing =>
      rw [balance_cons_closing] at h
      by_cases hd₁ : d = 1
      · simp [closing?, hd₁]
      · rw [closing?, if_neg hd₁]
        exact ih (by omega) (by omega)
    | code =>
      rw [balance_cons_code] at h
      exact ih hd h
    | comment =>
      rw [balance_cons_comment] at h
      exact ih hd h

theorem leadingClose_map_offset (f : Nat → Nat) (verbatim : Bool) (d d' : Option Int)
    (ms : List (Nat × Mark)) :
    (ofMarks verbatim d (ms.map fun m => (f m.1, m.2))).leadingClose
      = (ofMarks verbatim d' ms).leadingClose := by
  simp [ofMarks, List.find?_map, Option.any_map, Function.comp_def]

end Tally

namespace Carry

def next (carry : Carry) (line : Text) : Carry := (carry.scan line).2

def net (carry : Carry) (line : Text) : Int := (carry.scan line).1.net

@[simp] theorem scanAtDepth_snd (carry : Carry) (d : Int) (line : Text) :
    (carry.scanAtDepth d line).2 = carry.next line := by
  cases carry <;> rfl

@[simp] theorem net_scanAtDepth (carry : Carry) (d : Int) (line : Text) :
    (carry.scanAtDepth d line).1.net = carry.net line := by
  cases carry <;> rfl

@[simp] theorem verbatim_scanAtDepth (carry : Carry) (d : Int) (line : Text) :
    (carry.scanAtDepth d line).1.verbatim = decide (carry ≠ .code) := by
  cases carry <;> rfl

@[simp] theorem verbatim_scan (carry : Carry) (line : Text) :
    (carry.scan line).1.verbatim = decide (carry ≠ .code) := by
  cases carry <;> rfl

@[simp] theorem commentAt_scanAtDepth (carry : Carry) (d : Int) (line : Text) :
    (carry.scanAtDepth d line).1.commentAt = (carry.scan line).1.commentAt := by
  cases carry <;> rfl

theorem net_code (line : Text) : Carry.code.net line = balance (marks .code 0 line).1 := rfl

theorem next_code (line : Text) : Carry.code.next line = (marks .code 0 line).2 := rfl

@[simp] theorem net_heredoc (marker line : Text) : (Carry.heredoc marker).net line = 0 := rfl

theorem next_code_append_blanks (hv : isBlankText v) (t : Text) (hw : isBlankText w) :
    Carry.code.next (v ++ t ++ w) = Carry.code.next t := by
  rw [next_code, marks_append_blanks (.inl rfl) hv t hw]
  rfl

theorem net_code_append_blanks (hv : isBlankText v) (t : Text) (hw : isBlankText w) :
    Carry.code.net (v ++ t ++ w) = Carry.code.net t := by
  rw [net_code, marks_append_blanks (.inl rfl) hv t hw, balance_map_offset]
  rfl

theorem leadingClose_code_append_blanks (hv : isBlankText v) (t : Text) (hw : isBlankText w) :
    (Carry.code.scan (v ++ t ++ w)).1.leadingClose = (Carry.code.scan t).1.leadingClose := by
  change (Tally.ofMarks false none (marks .code 0 (v ++ t ++ w)).1).leadingClose = _
  rw [marks_append_blanks (.inl rfl) hv t hw]
  exact Tally.leadingClose_map_offset _ _ _ _ _

theorem next_code_trim (t : Text) : Carry.code.next (trim t) = Carry.code.next t := by
  obtain ⟨v, w, hv, hw, he⟩ := exists_eq_append_trim t
  conv_rhs => rw [he]
  exact (next_code_append_blanks hv _ hw).symm

theorem net_code_trim (t : Text) : Carry.code.net (trim t) = Carry.code.net t := by
  obtain ⟨v, w, hv, hw, he⟩ := exists_eq_append_trim t
  conv_rhs => rw [he]
  exact (net_code_append_blanks hv _ hw).symm

theorem leadingClose_code_trim (t : Text) :
    (Carry.code.scan (trim t)).1.leadingClose = (Carry.code.scan t).1.leadingClose := by
  obtain ⟨v, w, hv, hw, he⟩ := exists_eq_append_trim t
  conv_rhs => rw [he]
  exact (leadingClose_code_append_blanks hv _ hw).symm

theorem net_code_of_blank (hl : isBlankText line) : Carry.code.net line = 0 := by
  rw [← net_code_trim, trim_eq_nil_of_blank hl]
  rfl

theorem next_code_of_blank (hl : isBlankText line) : Carry.code.next line = .code := by
  rw [← next_code_trim, trim_eq_nil_of_blank hl]
  rfl

theorem leadingClose_code_of_blank (hl : isBlankText line) :
    (Carry.code.scan line).1.leadingClose = false := by
  rw [← leadingClose_code_trim, trim_eq_nil_of_blank hl]
  rfl

def region : Carry → Region
  | .comment => .comment
  | _ => .code

def marksOf (carry : Carry) (line : Text) : List (Nat × Mark) := (marks carry.region 0 line).1

def IsHeredoc : Carry → Prop
  | .heredoc _ => True
  | _ => False

instance : DecidablePred IsHeredoc := fun carry =>
  match carry with
  | .heredoc _ => .isTrue trivial
  | .code | .comment => .isFalse id

theorem net_eq_balance (h : ¬ carry.IsHeredoc) (line : Text) :
    carry.net line = balance (carry.marksOf line) := by
  cases carry with
  | heredoc => exact absurd trivial h
  | code | comment => rfl

theorem next_eq_marks (h : ¬ carry.IsHeredoc) (line : Text) :
    carry.next line = (marks carry.region 0 line).2 := by
  cases carry with
  | heredoc => exact absurd trivial h
  | code | comment => rfl

theorem commentAt_eq (h : ¬ carry.IsHeredoc) (line : Text) :
    (carry.scan line).1.commentAt
      = ((carry.marksOf line).find? (·.2 = .comment)).map (·.1) := by
  cases carry with
  | heredoc => exact absurd trivial h
  | code | comment => rfl

theorem closedAt_eq (h : ¬ carry.IsHeredoc) (d : Int) (line : Text) :
    (carry.scanAtDepth d line).1.closedAt = Tally.closing? d (carry.marksOf line) := by
  cases carry with
  | heredoc => exact absurd trivial h
  | code | comment => rfl

theorem scan_append_blank (h : ¬ carry.IsHeredoc) (t : Text) (hw : isBlankText w) :
    carry.net (t ++ w) = carry.net t ∧ carry.next (t ++ w) = carry.next t := by
  rw [net_eq_balance h, net_eq_balance h, next_eq_marks h, next_eq_marks h, marksOf, marksOf,
    marks_append_blank _ _ _ hw]
  exact ⟨rfl, rfl⟩

theorem scan_trimEnd (h : ¬ carry.IsHeredoc) (t : Text) :
    carry.net (trimEnd t) = carry.net t ∧ carry.next (trimEnd t) = carry.next t := by
  obtain ⟨w, hw, he⟩ := exists_eq_trimEnd_append t
  obtain ⟨hnet, hnext⟩ := scan_append_blank h (trimEnd t) hw
  rw [← he] at hnet hnext
  exact ⟨hnet.symm, hnext.symm⟩

theorem closedAt_isSome (hd : 1 ≤ d) (h : d + carry.net line ≤ 0) :
    (carry.scanAtDepth d line).1.closedAt.isSome := by
  by_cases hh : carry.IsHeredoc
  · cases carry with
    | heredoc marker =>
      rw [net_heredoc] at h
      omega
    | code | comment => cases hh
  · rw [net_eq_balance hh] at h
    rw [closedAt_eq hh]
    exact Tally.closing?_isSome hd h

/-- A line at the bracket that brings the depth at entry to zero. -/
structure Cut (carry : Carry) (d : Int) (line p : Text) (c : Char) (q : Text)
    (ms : List (Nat × Mark)) : Prop where
  not_heredoc : ¬ carry.IsHeredoc
  line_eq : line = p ++ c :: q
  isClosing : isClosing c
  passes : Passes (c :: q) carry.region 0 p ms .code
  depth_eq : d + balance ms = 1

theorem exists_cut (h : (carry.scanAtDepth d line).1.closedAt = some k) :
    ∃ p c q ms, carry.Cut d line p c q ms ∧ byteLength p = k := by
  have hh : ¬ carry.IsHeredoc := by
    intro hh
    cases carry with
    | heredoc marker => cases h
    | code | comment => cases hh
  rw [closedAt_eq hh] at h
  obtain ⟨ms₁, ms₂, hms, hd⟩ := Tally.exists_of_closing?_eq_some h
  obtain ⟨p, c, q, rfl, hc, hp, hk⟩ := exists_eq_append_closing hms
  exact ⟨p, c, q, ms₁, ⟨hh, rfl, hc, hp, hd⟩, by rw [hk, Nat.zero_add]⟩

namespace Cut

variable {c : Char}

theorem marks_eq (h : carry.Cut d line p c q ms) :
    marks carry.region 0 line = (ms ++ (byteLength p, .closing) ::
      (marks .code (byteLength p + c.utf8Size) q).1,
      (marks .code (byteLength p + c.utf8Size) q).2) := by
  rw [h.line_eq, h.passes.marks_append, marks_cons_of_go (read_code_of_isClosing h.isClosing q)]
  simp

theorem net_eq (h : carry.Cut d line p c q ms) :
    carry.net line = Carry.code.net q - d := by
  have hb := h.depth_eq
  rw [net_eq_balance h.not_heredoc, marksOf, h.marks_eq, net_code]
  simp only [balance_append, balance_cons_closing, balance_marks .code (byteLength p + c.utf8Size)]
  omega

theorem next_eq (h : carry.Cut d line p c q ms) : carry.next line = Carry.code.next q := by
  rw [next_eq_marks h.not_heredoc, h.marks_eq, marks_offset]
  rfl

/-- The part in front of the bracket, read alone, has the marks that it has in place, unless a
here-document then opens at its end. -/
theorem marks_alone (h : carry.Cut d line p c q ms) (hp : ¬ (carry.next p).IsHeredoc) :
    marks carry.region 0 p = (ms, .code) := by
  rcases h.passes.truncate (not_isSpecial_of_isClosing h.isClosing) with he | ⟨name, he⟩
  · exact he
  · rw [next_eq_marks h.not_heredoc, he] at hp
    exact absurd trivial hp

theorem net_alone (h : carry.Cut d line p c q ms) (hp : ¬ (carry.next p).IsHeredoc) :
    d + carry.net p = 1 := by
  rw [net_eq_balance h.not_heredoc, marksOf, h.marks_alone hp]
  exact h.depth_eq

theorem next_alone (h : carry.Cut d line p c q ms) (hp : ¬ (carry.next p).IsHeredoc) :
    carry.next p = .code := by
  rw [next_eq_marks h.not_heredoc, h.marks_alone hp]

theorem of_blank (h : carry.Cut d line p c q ms) (hp : isBlankText p) : carry = .code ∧ d = 1 := by
  have hmarks : marks carry.region 0 p = ([], carry.region.carry) := marks_of_blank _ _ hp
  have hnext : ¬ (carry.next p).IsHeredoc := by
    rw [next_eq_marks h.not_heredoc, hmarks]
    cases carry.region <;> exact id
  have halone := h.marks_alone hnext
  rw [hmarks] at halone
  obtain ⟨rfl, hcarry⟩ := Prod.mk.inj halone
  have hd := h.depth_eq
  rw [balance_nil, Int.add_zero] at hd
  refine ⟨?_, hd⟩
  have hh := h.not_heredoc
  cases carry with
  | code => rfl
  | comment => cases hcarry
  | heredoc marker => exact absurd trivial hh

end Cut

end Carry

end SourceSwitch.Bracket
