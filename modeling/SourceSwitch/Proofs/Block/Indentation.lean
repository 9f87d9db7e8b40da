import Mathlib.Data.List.Forall2
import Mathlib.Data.List.Infix
import SourceSwitch.Proofs.Block.Layout

namespace SourceSwitch

open Text
open SourceSwitch.Bracket (Carry Mark Tally balance)

namespace Bracket

theorem balance_of_comments {ms : List (Nat × Mark)} (h : ∀ m ∈ ms, m.2 = .comment) :
    balance ms = 0 := by
  induction ms with
  | nil => rfl
  | cons m ms ih =>
    obtain ⟨o, mark⟩ := m
    obtain rfl : mark = .comment := h _ List.mem_cons_self
    rw [balance_cons_comment]
    exact ih fun m hm => h m (List.mem_cons_of_mem _ hm)

theorem Tally.exists_of_leadingClose {ms : List (Nat × Mark)} {verbatim : Bool} {d : Option Int}
    (h : (ofMarks verbatim d ms).leadingClose) :
    ∃ ms₁ k ms₂, ms = ms₁ ++ (k, .closing) :: ms₂ ∧ balance ms₁ = 0 := by
  simp only [ofMarks, Option.any_eq_true] at h
  obtain ⟨⟨k, mark⟩, hfind, hclosing⟩ := h
  obtain rfl : mark = .closing := of_decide_eq_true hclosing
  obtain ⟨-, ms₁, ms₂, rfl, hcomments⟩ := List.find?_eq_some_iff_append.mp hfind
  refine ⟨ms₁, k, ms₂, rfl, balance_of_comments fun m hm => ?_⟩
  simpa using hcomments m hm

end Bracket

namespace Entry

/-- A line of code with something on it. -/
def IsLaid (e : Entry) : Prop := e.carry = .code ∧ ¬ isBlankText e.line

instance : DecidablePred IsLaid := fun e =>
  inferInstanceAs (Decidable (e.carry = .code ∧ ¬ isBlankText e.line))

/-- The line laid out at a level. One that starts in a comment or a here-document is kept. -/
def laidOut (base : Text) (level : Nat) (e : Entry) : Text :=
  if e.carry ≠ .code then e.line
  else if isBlankText e.line then []
  else base ++ List.replicate (2 * level) ' ' ++ trim e.line

def marks (e : Entry) : List (Nat × Mark) :=
  if e.carry.IsHeredoc then [] else e.carry.marksOf e.line

/-- The depth is not below zero anywhere from the line's start to its end. -/
def StaysAbove (e : Entry) : Prop := ∀ ms ∈ e.marks.inits, 0 ≤ e.depth + balance ms

instance : DecidablePred StaysAbove := fun e =>
  inferInstanceAs (Decidable (∀ ms ∈ e.marks.inits, 0 ≤ e.depth + balance ms))

def leadsClosing (e : Entry) : Bool := (e.carry.scan e.line).1.leadingClose

/-- The depth at the line's start, less the bracket that leads it. -/
def level (e : Entry) : Int := e.depth - if e.leadsClosing then 1 else 0

def IsAt (e : Entry) (k : Nat) : Prop := e.IsLaid → (k : Int) = e.level

variable {e : Entry}

theorem net_eq_balance (e : Entry) : e.carry.net e.line = balance e.marks := by
  obtain ⟨d, carry, line⟩ := e
  cases carry with
  | heredoc marker => rfl
  | code => exact Carry.net_eq_balance id line
  | comment => exact Carry.net_eq_balance id line

namespace StaysAbove

theorem add_net_nonneg (h : e.StaysAbove) : 0 ≤ e.depth + e.carry.net e.line := by
  rw [net_eq_balance]
  exact h _ ((List.mem_inits _ _).mpr List.prefix_rfl)

theorem depth_pos (h : e.StaysAbove) (hcode : e.carry = .code) (hlead : e.leadsClosing) :
    1 ≤ e.depth := by
  obtain ⟨d, carry, line⟩ := e
  obtain rfl : carry = .code := hcode
  obtain ⟨ms₁, k, ms₂, hms, hzero⟩ := Tally.exists_of_leadingClose hlead
  have hprefix : ms₁ ++ [(k, .closing)] <+: (Bracket.marks .code 0 line).1 := by
    rw [hms]
    exact ⟨ms₂, List.append_assoc ..⟩
  have hdepth := h _ ((List.mem_inits _ _).mpr hprefix)
  rw [Bracket.balance_append, Bracket.balance_cons_closing, Bracket.balance_nil, hzero] at hdepth
  omega

end StaysAbove

end Entry

namespace Layout

variable {base : Text} {carry : Carry} {depth : Nat} {lines : List Text}

theorem indentation_eq (level : Nat) : indentation level = List.replicate (2 * level) ' ' := by
  induction level with
  | zero => rfl
  | succ level ih =>
    rw [indentation, List.replicate_succ, List.flatten_cons, ← indentation, ih, Nat.mul_succ,
      Nat.add_comm]
    exact List.replicate_append_replicate (n := 2)

def position (carry : Carry) (depth : Nat) (line : Text) : Nat × Nat :=
  if carry = .code then levels carry depth line else (depth, shift depth (carry.net line))

def levelsFrom (carry : Carry) (depth : Nat) : List Text → List Nat
  | [] => []
  | line :: rest =>
    (position carry depth line).1
      :: levelsFrom (carry.next line) (position carry depth line).2 rest

theorem length_levelsFrom (carry : Carry) (depth : Nat) (d : Int) (lines : List Text) :
    (levelsFrom carry depth lines).length = (Entry.ofLines d carry lines).length := by
  induction lines generalizing carry depth d with
  | nil => rfl
  | cons l lines ih => exact congrArg (· + 1) (ih _ _ _)

theorem position_of_blank {l : Text} (hl : isBlankText l) (depth : Nat) :
    position .code depth l = (depth, depth) := by
  simp [position, levels, Carry.leadingClose_code_of_blank hl, Carry.net_code_of_blank hl, shift]

theorem reindentFrom_cons (base : Text) (carry : Carry) (depth : Nat) (d : Int) (l : Text)
    (ls : List Text) : reindentFrom base carry depth (l :: ls)
      = Entry.laidOut base (position carry depth l).1 ⟨d, carry, l⟩
        :: reindentFrom base (carry.next l) (position carry depth l).2 ls := by
  by_cases hc : carry = .code
  · subst hc
    by_cases hl : isBlankText l
    · rw [reindentFrom_blank hl, Carry.next_code_of_blank hl, position_of_blank hl]
      simp [Entry.laidOut, hl]
    · rw [reindentFrom_code hl, indentation_eq]
      simp [Entry.laidOut, hl, position]
  · rw [reindentFrom_verbatim hc]
    simp [Entry.laidOut, hc, position]

/-- Lines are laid out one by one, each at a level of its own. The depth that is counted on the way
does not matter here. -/
theorem reindentFrom_eq (base : Text) (carry : Carry) (depth : Nat) (d : Int) (lines : List Text) :
    reindentFrom base carry depth lines
      = List.zipWith (Entry.laidOut base) (levelsFrom carry depth lines)
          (Entry.ofLines d carry lines) := by
  induction lines generalizing carry depth d with
  | nil => rfl
  | cons l lines ih =>
    rw [reindentFrom_cons base carry depth d, ih _ _ (d + carry.net l)]
    rfl

theorem position_eq {l : Text} (h : (⟨depth, carry, l⟩ : Entry).StaysAbove) :
    ((position carry depth l).2 : Int) = depth + carry.net l ∧
      ((⟨depth, carry, l⟩ : Entry).IsLaid →
        ((position carry depth l).1 : Int) = (⟨depth, carry, l⟩ : Entry).level) := by
  have hleft := h.add_net_nonneg
  by_cases hc : carry = .code
  · subst hc
    by_cases hlead : (Carry.code.scan l).1.leadingClose
    · have hpos := h.depth_pos rfl hlead
      simp only [position, levels, Entry.level, Entry.leadsClosing, hlead, shift,
        if_true] at hpos hleft ⊢
      omega
    · simp only [position, levels, Entry.level, Entry.leadsClosing, hlead, shift,
        if_true] at hleft ⊢
      simp
      omega
  · refine ⟨?_, fun hlaid => absurd hlaid.1 hc⟩
    rw [position, if_neg hc]
    exact Int.toNat_of_nonneg hleft

theorem levelsFrom_eq (h : ∀ e ∈ Entry.ofLines depth carry lines, e.StaysAbove) :
    List.Forall₂ Entry.IsAt (Entry.ofLines depth carry lines) (levelsFrom carry depth lines) := by
  induction lines generalizing carry depth with
  | nil => exact .nil
  | cons l lines ih =>
    obtain ⟨hleft, hlevel⟩ := position_eq (h _ List.mem_cons_self)
    refine .cons hlevel ?_
    rw [← hleft]
    apply ih
    rw [hleft]
    exact fun e he => h e (List.mem_cons_of_mem _ he)

def entries (body : List Text) : List Entry := Entry.ofLines 0 .code (body.dropWhile isBlankText)

/-- The laid out form of a body: every line is kept, empty, or indented at a level, which is that of
the brackets as long as no bracket closes more than was opened. -/
structure IsLayout (base : Text) (levels : List Nat) (body laid : List Text) : Prop where
  length_eq : levels.length = (entries body).length
  lines_eq : laid = List.zipWith (Entry.laidOut base) levels (entries body)
  isAt : (∀ e ∈ entries body, e.StaysAbove) → List.Forall₂ Entry.IsAt (entries body) levels

theorem reindent_isLayout (hbase : isBlankText base) (body : List Text) :
    (∃ levels, IsLayout base levels body (reindent base body)) ∧
      reindent base (reindent base body) = reindent base body := by
  refine ⟨⟨levelsFrom .code 0 (body.dropWhile isBlankText), ?_, ?_, levelsFrom_eq⟩,
    reindent_reindent hbase body⟩
  · exact length_levelsFrom .code 0 0 _
  · exact reindentFrom_eq base .code 0 0 _

def policyBody : List Text :=
  ["", " ", r"tags = merge({", r"# }", "", r#"env = "(""#, r"}, var.tags)", "policy = <<EOF", " [",
    "EOF", "/* was: [", " 1 ] */ zones = [", "/* one */ ]"]

theorem reindent_isLayout_policyBody :
    isBlankText "  " ∧ (∀ e ∈ entries policyBody, e.StaysAbove) ∧
      reindent "  " policyBody = [r"  tags = merge({", r"      # }", "", r#"      env = "(""#,
        r"    }, var.tags)", "  policy = <<EOF", " [", "EOF", "  /* was: [", " 1 ] */ zones = [",
        "  /* one */ ]"] ∧
      (∃ levels, IsLayout "  " levels policyBody (reindent "  " policyBody)) ∧
      reindent "  " (reindent "  " policyBody) = reindent "  " policyBody :=
  ⟨by decide, by decide +kernel, by decide +kernel, reindent_isLayout (by decide) policyBody⟩

end Layout

end SourceSwitch
