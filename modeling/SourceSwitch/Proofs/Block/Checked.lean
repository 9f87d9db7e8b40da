import Mathlib.Data.Nat.PSub
import SourceSwitch.Block.Layout
import SourceSwitch.Proofs.Block.Intake
import SourceSwitch.Proofs.Text.Offset

namespace SourceSwitch

open Text SourceSwitch.Bracket

namespace Text

def cutTo? (offset : Nat) (t : Text) : Option Text := (splitAt? offset t).map Prod.fst

def cutFrom? (offset : Nat) (t : Text) : Option Text := (splitAt? offset t).map Prod.snd

theorem cutTo?_append (s t : Text) : cutTo? (byteLength s) (s ++ t) = some s := by
  rw [cutTo?, splitAt?_append]
  rfl

theorem cutFrom?_append (s t : Text) : cutFrom? (byteLength s) (s ++ t) = some t := by
  rw [cutFrom?, splitAt?_append]
  rfl

end Text

def slice? {α : Type} (first past : Nat) (l : List α) : Option (List α) :=
  if first ≤ past ∧ past ≤ l.length then some ((l.drop first).take (past - first)) else none

/-- The offsets of a tally are on borders of characters, in front of the ones that they are said to
be of. -/
structure Bracket.Tally.IsWithin (line : Text) (tally : Tally) : Prop where
  commentAt : ∀ k, tally.commentAt = some k →
    ∃ p c q, splitAt? k line = some (p, c :: q) ∧ (c = '#' ∨ c = '/')
  closedAt : ∀ k, tally.closedAt = some k →
    ∃ p c q, splitAt? k line = some (p, c :: q) ∧ isClosing c ∧ c.utf8Size = 1

namespace Bracket

theorem utf8Size_of_isClosing {c : Char} (h : isClosing c) : c.utf8Size = 1 := by
  simp only [isClosing, Bool.or_eq_true, decide_eq_true_eq] at h
  rcases h with (rfl | rfl) | rfl <;> rfl

theorem isWithin_ofMarks (verbatim : Bool) (depth : Option Int) (r : Region) (line : Text) :
    (Tally.ofMarks verbatim depth (marks r 0 line).1).IsWithin line := by
  constructor
  · intro k hk
    obtain ⟨m, hm, rfl⟩ := Option.map_eq_some_iff.mp hk
    have hcomment : m.2 = .comment := by simpa using List.find?_some hm
    obtain ⟨ms, ms', hms⟩ := List.append_of_mem (List.mem_of_find?_eq_some hm)
    rw [← Prod.eta m, hcomment] at hms
    obtain ⟨p, c, q, rfl, hc, -, hoffset⟩ := exists_eq_append_comment hms
    rw [Nat.zero_add] at hoffset
    exact ⟨p, c, q, by rw [hoffset, splitAt?_append], hc⟩
  · intro k hk
    obtain ⟨d, -, hd⟩ := Option.bind_eq_some_iff.mp hk
    obtain ⟨ms, ms', hms, -⟩ := Tally.exists_of_closing?_eq_some hd
    obtain ⟨p, c, q, rfl, hc, -, hoffset⟩ := exists_eq_append_closing hms
    rw [Nat.zero_add] at hoffset
    exact ⟨p, c, q, by rw [hoffset, splitAt?_append], hc, utf8Size_of_isClosing hc⟩

theorem Carry.isWithin_step (carry : Carry) (depth : Option Int) (line : Text) :
    (carry.step depth line).1.IsWithin line := by
  cases carry with
  | code => exact isWithin_ofMarks false depth .code line
  | comment => exact isWithin_ofMarks true depth .comment line
  | heredoc marker =>
    constructor
    · intro k hk
      cases hk
    · intro k hk
      cases hk

end Bracket

namespace Checked

/-- Reads a character of code that does not start with `<<`. -/
def readOther (c : Char) (rest : Text) : Move :=
  if c = '#' ∨ c = '/' ∧ rest.head? = some '/' then .stop (some .comment) .code
  else if c = '/' ∧ rest.head? = some '*' then .go (some .comment) .opener
  else if c = '"' then .go (some .code) .quoted
  else .go (codeMark? c) .code

/-- Reads a character at an offset of its line. The name of a here-document is looked for in what
stands from there on. -/
def read? (line : Text) (offset : Nat) (r : Region) (c : Char) (rest : Text) : Option Move :=
  match r with
  | .code =>
    if c = '<' ∧ rest.head? = some '<' then
      (cutFrom? offset line).map fun tail =>
        match marker? tail with
        | some name => .stop none (.heredoc name)
        | none => .go (codeMark? c) .code
    else some (readOther c rest)
  | r => some (Bracket.read r c rest)

def marks? (line : Text) (r : Region) (offset : Nat) : Text → Option (List (Nat × Mark) × Carry)
  | [] => some ([], r.carry)
  | c :: rest =>
    (read? line offset r c rest).bind fun
      | .stop mark carry => some (mark.toList.map (offset, ·), carry)
      | .go mark next =>
        (marks? line next (offset + c.utf8Size) rest).map fun (found, carry) =>
          (mark.toList.map (offset, ·) ++ found, carry)

def scan? (depth : Option Int) (line : Text) : Carry → Option (Tally × Carry)
  | .heredoc marker => some (Carry.step depth line (.heredoc marker))
  | .comment =>
    (marks? line .comment 0 line).map fun (ms, carry) => (.ofMarks true depth ms, carry)
  | .code => (marks? line .code 0 line).map fun (ms, carry) => (.ofMarks false depth ms, carry)

theorem marker?_eq_none {c : Char} {rest : Text} (h : ¬ (c = '<' ∧ rest.head? = some '<')) :
    marker? (c :: rest) = none := by
  by_cases hc : c = '<'
  · subst hc
    have hrest : ∀ t, rest ≠ '<' :: t := by
      rintro t rfl
      exact h ⟨rfl, rfl⟩
    have hafter : after? "<<" ('<' :: rest) = none := by
      rw [Option.eq_none_iff_forall_ne_some]
      intro t ht
      exact hrest t (List.cons.inj (after?_eq_some_iff.mp ht)).2
    rw [marker?, hafter]
    rfl
  · exact marker?_cons_of_ne hc rest

theorem read?_eq (p : Text) (r : Region) (c : Char) (rest : Text) :
    read? (p ++ c :: rest) (byteLength p) r c rest = some (Bracket.read r c rest) := by
  cases r with
  | quoted | comment | escape | opener | closer => rfl
  | code =>
    by_cases hangle : c = '<' ∧ rest.head? = some '<'
    · obtain ⟨rfl, hrest⟩ := hangle
      simp only [read?, hrest, cutFrom?_append, Bracket.read, readCode]
      rfl
    · simp only [read?, if_neg hangle, Bracket.read, readCode, readOther, marker?_eq_none hangle]

theorem marks?_eq (p t : Text) (r : Region) :
    marks? (p ++ t) r (byteLength p) t = some (marks r (byteLength p) t) := by
  induction t generalizing p r with
  | nil => rfl
  | cons c rest ih =>
    rw [marks?, read?_eq, marks, Option.bind_some]
    cases Bracket.read r c rest with
    | stop mark carry => rfl
    | go mark next =>
      have hrest := ih (p ++ [c]) next
      have hlength : byteLength (p ++ [c]) = byteLength p + c.utf8Size := by
        rw [byteLength_append]
        rfl
      rw [List.append_assoc, List.singleton_append, hlength] at hrest
      simp only [hrest, Option.map_some]

theorem scan?_eq (depth : Option Int) (line : Text) (carry : Carry) :
    scan? depth line carry = some (carry.step depth line) := by
  have hmarks (r : Region) : marks? line r 0 line = some (marks r 0 line) := marks?_eq [] line r
  cases carry with
  | heredoc marker => rfl
  | comment | code =>
    simp only [scan?, hmarks, Option.map_some]
    rfl

def comment? (line : Text) : Option Nat → Option (Option Text)
  | none => some none
  | some offset =>
    if offset < byteLength line then
      (cutFrom? offset line).map fun tail => nonempty? (trim tail)
    else some none

def keepComment? (line : Text) (commentAt : Option Nat) (b : ModuleBlock) : Option ModuleBlock :=
  (comment? line commentAt).map fun
    | some tail => b.keep tail
    | none => b

def absorb? (line : Text) (commentAt : Option Nat) (b : ModuleBlock) : Option ModuleBlock :=
  match Attribute.ofLine? line with
  | some (.source value) => keepComment? line commentAt { b with source := some value }
  | some (.version value) => keepComment? line commentAt { b with version := some value }
  | some (.commentedSource value) => some { b with commentedSource := some value }
  | some .commentedVersion => some b
  | none => some (b.keep line)

def take? (depth : Int) (tally : Tally) (line : Text) (b : ModuleBlock) : Option ModuleBlock :=
  if depth = 1 ∧ ¬ tally.verbatim then absorb? line tally.commentAt b else some (b.keep line)

/-- The parts of a line around its closing bracket, which is taken to be one byte. -/
def cut? (tally : Tally) (line : Text) : Option (Text × Text) :=
  match tally.closedAt with
  | none => some ([], [])
  | some offset => do
    let code ← cutTo? offset line
    let trailer ← cutFrom? (offset + 1) line
    return (code, trailer)

def close? (number : Nat) (depth : Int) (tally : Tally) (line : Text) (b : ModuleBlock) :
    Option ModuleBlock := do
  let (code, trailer) ← cut? tally line
  let b ← if isBlankText code then some b else take? depth tally (trimEnd code) b
  return { b with endLine := number, trailer := nonempty? (trim trailer) }

def step? (number : Nat) (line : Text) (s : Reader.State) :
    Option (Reader.State × Option ModuleBlock) :=
  match s.pending with
  | none => do
    let (tally, carry) ← scan? none line s.carry
    match if tally.verbatim then none else Header.ofLine? line with
    | some h => return (⟨carry, some (tally.net, .ofHeader number line h)⟩, none)
    | none => return (⟨carry, none⟩, none)
  | some (depth, b) => do
    let (tally, carry) ← scan? (some depth) line s.carry
    if depth + tally.net ≤ 0 then
      let b ← close? number depth tally line b
      return (⟨carry, none⟩, some b)
    else
      let b ← take? depth tally line b
      return (⟨carry, some (depth + tally.net, b)⟩, none)

def run? (number : Nat) (s : Reader.State) : List Text → Option (List ModuleBlock × Reader.State)
  | [] => some ([], s)
  | line :: rest => do
    let (s, found) ← step? number line s
    let (blocks, s) ← run? (number + 1) s rest
    return (found.toList ++ blocks, s)

variable {tally : Tally} {line rest : Text}

theorem modelComment?_eq (offset : Nat) (line : Text) : ModuleBlock.comment? line (some offset)
    = (splitAt? offset line).bind fun parts => nonempty? (trim parts.2) := rfl

/-- A comment's offset may be used on the front of the line that it was found in. -/
theorem comment?_eq (h : tally.IsWithin (line ++ rest)) :
    comment? line tally.commentAt = some (ModuleBlock.comment? line tally.commentAt) := by
  cases hat : tally.commentAt with
  | none => rfl
  | some k =>
    rw [comment?, modelComment?_eq]
    by_cases hk : k < byteLength line
    · obtain ⟨p, c, q, hsplit, -⟩ := h.commentAt k hat
      obtain ⟨hline, rfl⟩ := eq_append_of_splitAt? hsplit
      obtain ⟨gap, rfl⟩ := exists_append_of_byteLength_le hline.symm (by omega)
      rw [if_pos hk, cutFrom?_append, splitAt?_append]
      rfl
    · rw [if_neg hk]
      cases hsplit : splitAt? k line with
      | none => rfl
      | some parts =>
        obtain ⟨a, b⟩ := parts
        obtain ⟨rfl, rfl⟩ := eq_append_of_splitAt? hsplit
        rw [byteLength_append] at hk
        obtain rfl : b = [] := byteLength_eq_zero_iff.mp (by omega)
        rfl

theorem keepComment?_eq (h : tally.IsWithin (line ++ rest)) (b : ModuleBlock) :
    keepComment? line tally.commentAt b = some (b.keepComment line tally.commentAt) := by
  cases hc : ModuleBlock.comment? line tally.commentAt with
  | none => simp only [keepComment?, comment?_eq h, hc, Option.map_some, ModuleBlock.keepComment]
  | some => simp only [keepComment?, comment?_eq h, hc, Option.map_some, ModuleBlock.keepComment]

theorem absorb?_eq (h : tally.IsWithin (line ++ rest)) (b : ModuleBlock) :
    absorb? line tally.commentAt b = some (b.absorb line tally.commentAt) := by
  unfold absorb? ModuleBlock.absorb
  cases Attribute.ofLine? line with
  | none => rfl
  | some a =>
    cases a with
    | source | version => exact keepComment?_eq h _
    | commentedSource | commentedVersion => rfl

theorem take?_eq (h : tally.IsWithin (line ++ rest)) (depth : Int) (b : ModuleBlock) :
    take? depth tally line b = some (b.take depth tally line) := by
  unfold take? ModuleBlock.take
  split
  · exact absorb?_eq h b
  · rfl

theorem cut?_eq (h : tally.IsWithin line) :
    cut? tally line = some (ModuleBlock.cut tally line) := by
  unfold cut? ModuleBlock.cut
  cases hat : tally.closedAt with
  | none => rfl
  | some k =>
    obtain ⟨p, c, q, hsplit, -, hsize⟩ := h.closedAt k hat
    obtain ⟨rfl, rfl⟩ := eq_append_of_splitAt? hsplit
    have hpast : byteLength (p ++ [c]) = byteLength p + 1 := by
      rw [byteLength_append, ← hsize]
      rfl
    have htrailer : cutFrom? (byteLength p + 1) (p ++ c :: q) = some q := by
      have hcut := cutFrom?_append (p ++ [c]) q
      rwa [hpast, List.append_assoc] at hcut
    simp only [cutTo?_append, htrailer, Option.bind_some, splitAt?_append]
    rfl

theorem exists_cut_append (h : tally.IsWithin line) :
    ∃ rest, (ModuleBlock.cut tally line).1 ++ rest = line := by
  unfold ModuleBlock.cut
  cases hat : tally.closedAt with
  | none => exact ⟨line, rfl⟩
  | some k =>
    obtain ⟨p, c, q, hsplit, -⟩ := h.closedAt k hat
    rw [Option.bind_some, hsplit]
    exact ⟨c :: q, (eq_append_of_splitAt? hsplit).1.symm⟩

theorem close?_eq (h : tally.IsWithin line) (number : Nat) (depth : Int) (b : ModuleBlock) :
    close? number depth tally line b = some (b.close number depth tally line) := by
  obtain ⟨rest, hrest⟩ := exists_cut_append h
  obtain ⟨w, -, hw⟩ := exists_eq_trimEnd_append (ModuleBlock.cut tally line).1
  have hwithin : tally.IsWithin (trimEnd (ModuleBlock.cut tally line).1 ++ (w ++ rest)) := by
    rw [← List.append_assoc, ← hw, hrest]
    exact h
  rw [close?, cut?_eq h, ModuleBlock.close_eq, ModuleBlock.closed]
  simp only [Option.bind_eq_bind, Option.bind_some, take?_eq hwithin]
  split <;> rfl

theorem step?_eq (number : Nat) (line : Text) (s : Reader.State) :
    step? number line s = some (Reader.step number line s) := by
  obtain ⟨carry, pending⟩ := s
  cases pending with
  | none =>
    unfold step? Reader.step Carry.scan
    simp only [scan?_eq, Option.bind_eq_bind, Option.bind_some]
    generalize carry.step none line = scanned
    obtain ⟨tally, next⟩ := scanned
    cases (if tally.verbatim then none else Header.ofLine? line) <;> rfl
  | some p =>
    obtain ⟨depth, b⟩ := p
    have hwithin := carry.isWithin_step (some depth) line
    unfold step? Reader.step Carry.scanAtDepth
    simp only [scan?_eq, Option.bind_eq_bind, Option.bind_some]
    generalize carry.step (some depth) line = scanned at hwithin
    obtain ⟨tally, next⟩ := scanned
    have htake : tally.IsWithin (line ++ []) := by
      rw [List.append_nil]
      exact hwithin
    simp only [close?_eq hwithin, take?_eq htake, Option.bind_some]
    split <;> rfl

theorem run?_eq (number : Nat) (s : Reader.State) (lines : List Text) :
    run? number s lines = some (Reader.run number s lines) := by
  induction lines generalizing number s with
  | nil => rfl
  | cons line lines ih =>
    simp only [run?, step?_eq, Option.bind_eq_bind, Option.bind_some, ih]
    rfl

def reindentFrom? (base : Text) (carry : Carry) (depth : Nat) : List Text → Option (List Text)
  | [] => some []
  | line :: rest => do
    let (tally, next) ← scan? none line carry
    if tally.verbatim then
      let below ← reindentFrom? base next (Layout.shift depth tally.net) rest
      return line :: below
    else if isBlankText line then
      let below ← reindentFrom? base next depth rest
      return [] :: below
    else
      let own := if tally.leadingClose then depth - 1 else depth
      let net := if tally.leadingClose then tally.net + 1 else tally.net
      let below ← reindentFrom? base next (Layout.shift own net) rest
      return (base ++ Layout.indentation own ++ trim line) :: below

def reindent? (base : Text) (body : List Text) : Option (List Text) := do
  let first := body.findIdx fun line => ¬ isBlankText line
  let _ ← Nat.psub body.length first
  let kept ← slice? first body.length body
  reindentFrom? base .code 0 kept

def render? (source : Text) (version : Option Text) (b : ModuleBlock) : Option (List Text) := do
  let inner := b.indent ++ Layout.unit
  let body ← reindent? inner b.body
  return [b.header, inner ++ Layout.assignment "source " source]
    ++ (version.map fun v => inner ++ Layout.assignment "version" v).toList
    ++ (if body = [] then [] else [] :: body) ++ [b.footer]

theorem slice?_from {α : Type} {first : Nat} {l : List α} (h : first ≤ l.length) :
    slice? first l.length l = some (l.drop first) := by
  rw [slice?, if_pos ⟨h, Nat.le_refl _⟩, ← List.length_drop, List.take_length]

theorem drop_findIdx {α : Type} (p : α → Bool) (l : List α) :
    l.drop (l.findIdx fun x => ¬ p x) = l.dropWhile p := by
  induction l with
  | nil => rfl
  | cons x l ih =>
    rw [List.findIdx_cons, List.dropWhile_cons]
    cases p x with
    | true => exact ih
    | false => rfl

theorem reindentFrom?_eq (base : Text) (carry : Carry) (depth : Nat) (lines : List Text) :
    reindentFrom? base carry depth lines = some (Layout.reindentFrom base carry depth lines) := by
  induction lines generalizing carry depth with
  | nil => rfl
  | cons line lines ih =>
    rw [reindentFrom?, Layout.reindentFrom, Carry.scan]
    simp only [scan?_eq, Option.bind_eq_bind, Option.bind_some, ih]
    generalize carry.step none line = scanned
    obtain ⟨tally, next⟩ := scanned
    by_cases hverbatim : tally.verbatim
    · simp only [if_pos hverbatim]
      rfl
    · by_cases hblank : isBlankText line
      · simp only [if_neg hverbatim, if_pos hblank]
        rfl
      · simp only [if_neg hverbatim, if_neg hblank]
        rfl

theorem reindent?_eq (base : Text) (body : List Text) :
    reindent? base body = some (Layout.reindent base body) := by
  have hfirst : body.findIdx (fun line => ¬ isBlankText line) ≤ body.length :=
    List.findIdx_le_length
  simp only [reindent?, Nat.psub_eq_sub hfirst, slice?_from hfirst, Option.bind_eq_bind,
    Option.bind_some, reindentFrom?_eq, drop_findIdx]
  rfl

theorem render?_eq (source : Text) (version : Option Text) (b : ModuleBlock) :
    render? source version b = some (b.render source version) := by
  simp only [render?, reindent?_eq, Option.bind_eq_bind, Option.bind_some]
  rw [ModuleBlock.render, ModuleBlock.paragraph]
  cases Layout.reindent (b.indent ++ Layout.unit) b.body <;> rfl

end Checked

end SourceSwitch
