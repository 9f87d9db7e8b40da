import Mathlib.Data.List.Infix
import SourceSwitch.Proofs.Bracket.Tally

namespace SourceSwitch.Bracket

open Text

/-- A fragment of code in front of the rest of its line. Nothing else opens in it, not even together
with what stands behind it. -/
structure IsCode (t rest : Text) : Prop where
  quote : '"' ∉ t
  hash : '#' ∉ t
  opener : ∀ v, v ≠ [] → v <:+ t →
    ¬ "//".toList <+: v ++ rest ∧ ¬ "/*".toList <+: v ++ rest ∧ ∀ name, ¬ IsOpener name (v ++ rest)

inductive IsQuoted : Text → Prop where
  | nil : IsQuoted []
  | plain {c : Char} {t : Text} : c ≠ '"' → c ≠ '\\' → IsQuoted t → IsQuoted (c :: t)
  | pair {c : Char} {t : Text} : IsQuoted t → IsQuoted ('\\' :: c :: t)

def literal (t : Text) : Text := '"' :: (t ++ ['"'])

def IsCommented (t : Text) : Prop := ¬ "*/".toList <:+: t

instance (t : Text) : Decidable (IsCommented t) := inferInstanceAs (Decidable (¬ _ <:+: t))

def remark (t : Text) : Text := "/*" ++ (t ++ "*/")

/-- What of a line is entered in code. The last three forms go on to its end. -/
inductive Segments where
  | done
  | code (t : Text) (rest : Segments)
  | string (t : Text) (rest : Segments)
  | comment (t : Text) (rest : Segments)
  | lineComment (opener t : Text)
  | opening (t : Text)
  | heredoc (marker t : Text)

namespace Segments

def text : Segments → Text
  | .done => []
  | .code t rest => t ++ rest.text
  | .string t rest => literal t ++ rest.text
  | .comment t rest => remark t ++ rest.text
  | .lineComment opener t => opener ++ t
  | .opening t => "/*" ++ t
  | .heredoc _ t => t

def codeText : Segments → Text
  | .code t rest => t ++ rest.codeText
  | .string _ rest | .comment _ rest => rest.codeText
  | .done | .lineComment _ _ | .opening _ | .heredoc _ _ => []

def visibleText : Segments → Text
  | .code t rest => t ++ rest.visibleText
  | .string t rest => literal t ++ rest.visibleText
  | .comment _ rest => rest.visibleText
  | .done | .lineComment _ _ | .opening _ | .heredoc _ _ => []

def commentAt? (o : Nat) : Segments → Option Nat
  | .code t rest => rest.commentAt? (o + byteLength t)
  | .string t rest => rest.commentAt? (o + byteLength (literal t))
  | .comment _ _ | .lineComment _ _ | .opening _ => some o
  | .done | .heredoc _ _ => none

def carry : Segments → Carry
  | .code _ rest | .string _ rest | .comment _ rest => rest.carry
  | .done | .lineComment _ _ => .code
  | .opening _ => .comment
  | .heredoc marker _ => .heredoc marker

def Fits : Segments → Prop
  | .done => True
  | .code t rest => IsCode t rest.text ∧ rest.Fits
  | .string t rest => IsQuoted t ∧ rest.Fits
  | .comment t rest => IsCommented t ∧ rest.Fits
  | .lineComment opener _ => opener = "#" ∨ opener = "//"
  | .opening t => IsCommented t
  | .heredoc marker t => IsOpener marker t

/-- The tally of a line whose segments start at byte `o`. -/
def tally (verbatim : Bool) (o : Nat) (s : Segments) : Tally where
  opens := s.codeText.countP isOpening
  closes := s.codeText.countP isClosing
  leadingClose := (s.visibleText.find? (! isBlank ·)).any isClosing
  verbatim := verbatim
  commentAt := s.commentAt? o
  closedAt := none

end Segments

inductive Row where
  | code (s : Segments)
  | closing (t : Text) (s : Segments)
  /-- Nothing but a comment or a here-document, its last line included. -/
  | inner (t : Text)

namespace Row

def text : Row → Text
  | .code s => s.text
  | .closing t s => t ++ "*/" ++ s.text
  | .inner t => t

def tally : Row → Tally
  | .code s => s.tally false 0
  | .closing t s => s.tally true (byteLength (t ++ "*/"))
  | .inner _ => ⟨0, 0, false, true, none, none⟩

/-- The row may stand where this is carried over, and it carries that on. -/
inductive Leads : Carry → Row → Carry → Prop where
  | code {s : Segments} : s.Fits → Leads .code (.code s) s.carry
  | comment {t : Text} : IsCommented t → Leads .comment (.inner t) .comment
  | closing {t : Text} {s : Segments} : IsCommented t → s.Fits →
      Leads .comment (.closing t s) s.carry
  | heredoc {marker t : Text} : trim t ≠ marker →
      Leads (.heredoc marker) (.inner t) (.heredoc marker)
  | terminator {marker t : Text} : trim t = marker → Leads (.heredoc marker) (.inner t) .code

end Row

/-- Rows that follow each other. -/
inductive Script : Carry → List Row → Carry → Prop where
  | nil {carry : Carry} : Script carry [] carry
  | cons {carry next last : Carry} {row : Row} {rows : List Row} : Row.Leads carry row next →
      Script next rows last → Script carry (row :: rows) last

def Carry.scanAll (carry : Carry) : List Text → List Tally × Carry
  | [] => ([], carry)
  | line :: lines =>
    let (tally, next) := carry.scan line
    let (tallies, last) := next.scanAll lines
    (tally :: tallies, last)

variable {p t rest name : Text} {o : Nat} {c : Char} {ms ms' : List (Nat × Mark)}
  {code code' visible visible' : Text} {comment comment' : Option Nat}

theorem isCode_iff : IsCode t rest ↔ '"' ∉ t ∧ '#' ∉ t ∧ ∀ v ∈ t.tails, v ≠ [] →
    ¬ "//".toList <+: v ++ rest ∧ ¬ "/*".toList <+: v ++ rest ∧ marker? (v ++ rest) = none := by
  simp only [Option.eq_none_iff_forall_ne_some, ne_eq, marker?_eq_some_iff, List.mem_tails]
  constructor
  · intro h
    exact ⟨h.quote, h.hash, fun v hsuffix hv => h.opener v hv hsuffix⟩
  · rintro ⟨hquote, hhash, hopener⟩
    exact ⟨hquote, hhash, fun v hv hsuffix => hopener v hsuffix hv⟩

instance (t rest : Text) : Decidable (IsCode t rest) := decidable_of_iff _ isCode_iff.symm

theorem isQuoted_singleton_iff : IsQuoted [c] ↔ c ≠ '"' ∧ c ≠ '\\' := by
  constructor
  · rintro (_ | ⟨hquote, hescape, _⟩)
    exact ⟨hquote, hescape⟩
  · rintro ⟨hquote, hescape⟩
    exact .plain hquote hescape .nil

theorem isQuoted_cons_cons_iff {d : Char} : IsQuoted (c :: d :: t) ↔
    c = '\\' ∧ IsQuoted t ∨ c ≠ '"' ∧ c ≠ '\\' ∧ IsQuoted (d :: t) := by
  constructor
  · rintro (_ | ⟨hquote, hescape, h⟩ | h)
    · exact .inr ⟨hquote, hescape, h⟩
    · exact .inl ⟨rfl, h⟩
  · rintro (⟨rfl, h⟩ | ⟨hquote, hescape, h⟩)
    · exact .pair h
    · exact .plain hquote hescape h

instance decidableIsQuoted : (t : Text) → Decidable (IsQuoted t)
  | [] => .isTrue .nil
  | [_] => decidable_of_iff _ isQuoted_singleton_iff.symm
  | _ :: d :: t =>
    have := decidableIsQuoted t
    have := decidableIsQuoted (d :: t)
    decidable_of_iff _ isQuoted_cons_cons_iff.symm

instance Segments.decidableFits : (s : Segments) → Decidable s.Fits
  | .done => .isTrue trivial
  | .code t rest =>
    have := rest.decidableFits
    inferInstanceAs (Decidable (IsCode t rest.text ∧ rest.Fits))
  | .string t rest =>
    have := rest.decidableFits
    inferInstanceAs (Decidable (IsQuoted t ∧ rest.Fits))
  | .comment t rest =>
    have := rest.decidableFits
    inferInstanceAs (Decidable (IsCommented t ∧ rest.Fits))
  | .lineComment opener _ => inferInstanceAs (Decidable (opener = "#" ∨ opener = "//"))
  | .opening t => inferInstanceAs (Decidable (IsCommented t))
  | .heredoc marker t => inferInstanceAs (Decidable (IsOpener marker t))

/-- The marks tell of this code, of these visible characters and of a comment that starts here. -/
structure Amounts (ms : List (Nat × Mark)) (code visible : Text) (comment : Option Nat) : Prop where
  opens : ms.countP (·.2 = .opening) = code.countP isOpening
  closes : ms.countP (·.2 = .closing) = code.countP isClosing
  leading : (ms.find? (·.2 ≠ .comment)).map (fun m => decide (m.2 = .closing)) =
    (visible.find? (! isBlank ·)).map isClosing
  comment : (ms.find? (·.2 = .comment)).map (·.1) = comment

namespace Amounts

theorem nil : Amounts [] [] [] none := ⟨rfl, rfl, rfl, rfl⟩

theorem append (h : Amounts ms code visible comment) (h' : Amounts ms' code' visible' comment') :
    Amounts (ms ++ ms') (code ++ code') (visible ++ visible') (comment.or comment') where
  opens := by rw [List.countP_append, List.countP_append, h.opens, h'.opens]
  closes := by rw [List.countP_append, List.countP_append, h.closes, h'.closes]
  leading := by
    rw [List.find?_append, List.find?_append, Option.map_or, Option.map_or, h.leading, h'.leading]
  comment := by rw [List.find?_append, Option.map_or, h.comment, h'.comment]

theorem of_codeMark? (c : Char) (o : Nat) :
    Amounts ((codeMark? c).toList.map (o, ·)) [c] [c] none := by
  have hopening := isOpening_eq_decide c
  have hclosing := isClosing_eq_decide c
  have hblank := isBlank_eq_decide c
  have hcomment := codeMark?_ne_comment c
  generalize codeMark? c = mark at *
  cases mark with
  | none => constructor <;> simp [hopening, hclosing, hblank]
  | some m =>
    cases m with
    | opening | closing | code => constructor <;> simp [hopening, hclosing, hblank]
    | comment => exact absurd rfl hcomment

theorem ofMarks_eq (h : Amounts ms code visible comment) (verbatim : Bool) :
    Tally.ofMarks verbatim none ms = {
      opens := code.countP isOpening
      closes := code.countP isClosing
      leadingClose := (visible.find? (! isBlank ·)).any isClosing
      verbatim := verbatim
      commentAt := comment
      closedAt := none } := by
  have hleading : (ms.find? (·.2 ≠ .comment)).any (·.2 = .closing) =
      (visible.find? (! isBlank ·)).any isClosing := by
    have hany := congrArg (Option.any id) h.leading
    rwa [Option.any_map, Option.any_map] at hany
  rw [Tally.ofMarks, h.opens, h.closes, h.comment, hleading]
  rfl

end Amounts

theorem pair_prefix_cons_iff {a b : Char} : [a, b] <+: c :: t ↔ c = a ∧ t.head? = some b := by
  rw [List.cons_prefix_cons, eq_comm]
  refine and_congr_right fun _ => ?_
  cases t with
  | nil => simp
  | cons d t => simp [eq_comm]

theorem IsCode.of_cons (h : IsCode (c :: t) rest) : IsCode t rest where
  quote hq := h.quote (List.mem_cons_of_mem c hq)
  hash hq := h.hash (List.mem_cons_of_mem c hq)
  opener v hv hsuffix := h.opener v hv (hsuffix.trans (List.suffix_cons c t))

theorem IsCode.read_eq (h : IsCode (c :: t) rest) :
    read .code c (t ++ rest) = .go (codeMark? c) .code := by
  obtain ⟨hline, hblock, hmarker⟩ := h.opener (c :: t) (List.cons_ne_nil c t) List.suffix_rfl
  have hhash : c ≠ '#' := fun he => h.hash (he ▸ List.mem_cons_self)
  have hquote : c ≠ '"' := fun he => h.quote (he ▸ List.mem_cons_self)
  have hnone : marker? (c :: (t ++ rest)) = none := by
    rw [Option.eq_none_iff_forall_ne_some]
    intro name hname
    exact hmarker name (marker?_eq_some_iff.mp hname)
  have hline' : ¬ (c = '/' ∧ (t ++ rest).head? = some '/') := mt pair_prefix_cons_iff.mpr hline
  have hblock' : ¬ (c = '/' ∧ (t ++ rest).head? = some '*') := mt pair_prefix_cons_iff.mpr hblock
  rw [read, readCode, if_neg (not_or.mpr ⟨hhash, hline'⟩), if_neg hblock', if_neg hquote, hnone]

theorem IsCode.exists_passes (h : IsCode t rest) (o : Nat) :
    ∃ ms, Passes rest .code o t ms .code ∧ Amounts ms t t none := by
  induction t generalizing o with
  | nil => exact ⟨[], .nil, .nil⟩
  | cons c t ih =>
    obtain ⟨ms, hpass, hms⟩ := ih h.of_cons (o + c.utf8Size)
    exact ⟨_, .cons h.read_eq hpass, (Amounts.of_codeMark? c o).append hms⟩

theorem IsQuoted.passes (h : IsQuoted t) (o : Nat) (rest : Text) :
    Passes rest .quoted o (t ++ ['"']) [] .code := by
  induction h generalizing o with
  | nil => exact .skip rfl .nil
  | @plain c t hquote hescape _ ih =>
    have hread (s : Text) : read .quoted c s = .go none .quoted := by
      rw [read, if_neg hescape, if_neg hquote]
    exact .skip (hread _) (ih _)
  | pair _ ih => exact .skip rfl (.skip rfl (ih _))

theorem IsQuoted.passes_literal (h : IsQuoted t) (o : Nat) (rest : Text) :
    Passes rest .code o (literal t) [(o, .code)] .code := by
  have hread (s : Text) : read .code '"' s = .go (some .code) .quoted := rfl
  exact .cons (hread _) (h.passes _ rest)

theorem amounts_literal (o : Nat) (t : Text) : Amounts [(o, .code)] [] (literal t) none :=
  ⟨rfl, rfl, rfl, rfl⟩

theorem amounts_comment (o : Nat) : Amounts [(o, .comment)] [] [] (some o) := by
  constructor <;> simp

theorem IsCommented.of_cons (h : IsCommented (c :: t)) : IsCommented t :=
  mt List.infix_cons h

theorem IsCommented.passes (h : IsCommented t) (hrest : rest.head? ≠ some '/') (o : Nat) :
    Passes rest .comment o t [] .comment := by
  induction t generalizing o with
  | nil => exact .nil
  | cons c t ih =>
    have hopen : ¬ (c = '*' ∧ (t ++ rest).head? = some '/') := by
      rintro ⟨rfl, hhead⟩
      cases t with
      | nil => exact hrest hhead
      | cons d t =>
        obtain rfl := Option.some.inj hhead
        exact h (List.prefix_append _ t).isInfix
    have hread : read .comment c (t ++ rest) = .go none .comment := by
      rw [read, if_neg hopen]
    exact .skip hread (ih h.of_cons _)

theorem Passes.comment_opener (o : Nat) (rest : Text) :
    Passes rest .code o "/*" [(o, .comment)] .comment := by
  have hread (s : Text) : read .code '/' ('*' :: s) = .go (some .comment) .opener := rfl
  exact .cons (hread rest) (.skip rfl .nil)

theorem IsCommented.passes_end (h : IsCommented t) (o : Nat) (rest : Text) :
    Passes rest .comment o (t ++ "*/") [] .code := by
  have hstar : ("*/" ++ rest).head? ≠ some '/' := by
    change some '*' ≠ some '/'
    decide
  have hbody : Passes ("*/" ++ rest) .comment o t [] .comment := h.passes hstar o
  have hend (o : Nat) : Passes rest .comment o "*/" [] .code := .skip rfl (.skip rfl .nil)
  exact hbody.append (hend _)

theorem IsCommented.passes_remark (h : IsCommented t) (o : Nat) (rest : Text) :
    Passes rest .code o (remark t) [(o, .comment)] .code :=
  (Passes.comment_opener o _).append (h.passes_end _ rest)

theorem IsCommented.marks_eq (h : IsCommented t) (o : Nat) :
    marks .comment o t = ([], .comment) := by
  have hpass : Passes [] .comment o t [] .comment := h.passes (by simp) o
  have hmarks := hpass.marks_append
  rwa [List.append_nil] at hmarks

def Reads (r : Region) (o : Nat) (t code visible : Text) (comment : Option Nat) (carry : Carry) :
    Prop :=
  ∃ ms, marks r o t = (ms, carry) ∧ Amounts ms code visible comment

theorem Reads.append {r : Region} {carry : Carry} (hpass : Passes rest r o p ms .code)
    (hms : Amounts ms code visible comment)
    (h : Reads .code (o + byteLength p) rest code' visible' comment' carry) :
    Reads r o (p ++ rest) (code ++ code') (visible ++ visible') (comment.or comment') carry := by
  obtain ⟨ms', hmarks, hms'⟩ := h
  refine ⟨ms ++ ms', ?_, hms.append hms'⟩
  rw [hpass.marks_append, hmarks]

namespace Segments

theorem reads_lineComment {opener : Text} (h : opener = "#" ∨ opener = "//") (o : Nat) (t : Text) :
    Reads .code o (opener ++ t) [] [] (some o) .code := by
  refine ⟨[(o, .comment)], ?_, amounts_comment o⟩
  rcases h with rfl | rfl
  · have hread : read .code '#' t = .stop (some .comment) .code := rfl
    exact marks_cons_of_stop hread
  · have hread : read .code '/' ('/' :: t) = .stop (some .comment) .code := rfl
    exact marks_cons_of_stop hread

theorem reads_opening (h : IsCommented t) (o : Nat) :
    Reads .code o ("/*" ++ t) [] [] (some o) .comment := by
  refine ⟨[(o, .comment)], ?_, amounts_comment o⟩
  rw [(Passes.comment_opener o t).marks_append, h.marks_eq]
  rfl

theorem reads_heredoc (h : IsOpener name t) (o : Nat) :
    Reads .code o t [] [] none (.heredoc name) := by
  refine ⟨[], ?_, .nil⟩
  obtain ⟨dash, w, -, -, rfl⟩ := h.exists_eq
  have hread (s : Text) (hs : marker? ('<' :: s) = some name) :
      read .code '<' s = .stop none (.heredoc name) := by
    rw [read, readCode, hs]
    simp
  exact marks_cons_of_stop (hread _ (marker?_eq_some_iff.mpr h))

theorem reads {s : Segments} (h : s.Fits) (o : Nat) :
    Reads .code o s.text s.codeText s.visibleText (s.commentAt? o) s.carry := by
  induction s generalizing o with
  | done => exact ⟨[], rfl, .nil⟩
  | code t rest ih =>
    obtain ⟨ms, hpass, hms⟩ := h.1.exists_passes o
    exact .append hpass hms (ih h.2 _)
  | string t rest ih => exact .append (h.1.passes_literal o _) (amounts_literal o t) (ih h.2 _)
  | comment t rest ih => exact .append (h.1.passes_remark o _) (amounts_comment o) (ih h.2 _)
  | lineComment opener t => exact reads_lineComment h o t
  | opening t => exact reads_opening h o
  | heredoc marker t => exact reads_heredoc h o

end Segments

theorem Row.Leads.scan_eq {carry next : Carry} {row : Row} (h : row.Leads carry next) :
    carry.scan row.text = (row.tally, next) := by
  cases h with
  | code hs =>
    obtain ⟨ms, hmarks, hms⟩ := Segments.reads hs 0
    rw [Row.text, Carry.scan, Carry.step, hmarks]
    exact Prod.ext (hms.ofMarks_eq false) rfl
  | comment ht =>
    rw [Row.text, Carry.scan, Carry.step, ht.marks_eq]
    exact Prod.ext (Amounts.nil.ofMarks_eq true) rfl
  | closing ht hs =>
    obtain ⟨ms, hmarks, hms⟩ := Reads.append (ht.passes_end 0 _) .nil (Segments.reads hs _)
    rw [Row.text, Carry.scan, Carry.step, hmarks]
    rw [Nat.zero_add] at hms
    exact Prod.ext (hms.ofMarks_eq true) rfl
  | heredoc ht =>
    rw [Row.text, Carry.scan, Carry.step, if_neg ht]
    exact Prod.ext (Amounts.nil.ofMarks_eq true) rfl
  | terminator ht =>
    rw [Row.text, Carry.scan, Carry.step, if_pos ht]
    exact Prod.ext (Amounts.nil.ofMarks_eq true) rfl

theorem Script.scanAll_eq {carry last : Carry} {rows : List Row} (h : Script carry rows last) :
    carry.scanAll (rows.map Row.text) = (rows.map Row.tally, last) := by
  induction h with
  | nil => rfl
  | cons hrow _ ih =>
    rw [List.map_cons, List.map_cons, Carry.scanAll, hrow.scan_eq]
    simp only [ih]

/-- Whatever the lines of a script hold, the scanner counts the brackets of their code, tells where
each line is entered and turns, and is back in code behind them. -/
theorem Script.scanAll_code {rows : List Row} (h : Script .code rows .code) :
    Carry.code.scanAll (rows.map Row.text) = (rows.map Row.tally, .code) :=
  h.scanAll_eq

def interleaved : List Row :=
  [.code (.code "a = [1 / (2" (.string "\\\"[" (.comment " ( " (.code " << " (.opening " ( ["))))),
    .inner "# ) still",
    .closing "* " (.code ") <<EOT " (.lineComment "//" " ]")),
    .code (.code " ] <" (.heredoc "EOT" "<<-EOT ")),
    .inner "  ) [",
    .inner "\tEOT"]

theorem Script.scanAll_code_interleaved : Script .code interleaved .code ∧
    Carry.code.scanAll (interleaved.map Row.text) = (interleaved.map Row.tally, .code) ∧
    interleaved.map (fun row => row.tally.net) = [2, 0, -1, -1, 0, 0] := by
  have hscript : Script .code interleaved .code := by
    refine .cons (.code (by decide)) ?_
    refine .cons (.comment (by decide)) ?_
    refine .cons (.closing (by decide) (by decide)) ?_
    refine .cons (.code (by decide)) ?_
    refine .cons (.heredoc (by decide)) ?_
    exact .cons (.terminator (by decide)) .nil
  exact ⟨hscript, Script.scanAll_code hscript, by decide⟩

end SourceSwitch.Bracket
