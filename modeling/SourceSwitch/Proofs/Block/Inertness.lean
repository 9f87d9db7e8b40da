import Mathlib.Data.List.Infix
import SourceSwitch.Proofs.Block.Intake
import SourceSwitch.Proofs.Text.Offset

namespace SourceSwitch

open Text SourceSwitch.Bracket

namespace Bracket

variable {r r' : Region} {o : Nat} {p q q' t : Text} {ms : List (Nat × Mark)} {c : Char}

def IsLineOpener (c : Char) : Prop := c = '#' ∨ c = '/'

theorem marker?_append_opener (hc : IsLineOpener c) (p t : Text) :
    marker? (p ++ c :: t) = none := by
  have hmem : c ∈ p ++ c :: t := List.mem_append_right p List.mem_cons_self
  rcases hc with rfl | rfl <;> exact marker?_eq_none_of_mem (by decide) (by decide) (by decide) hmem

theorem read_append_opener (hc : IsLineOpener c) (r : Region) (d : Char) (p t t' : Text) :
    read r d (p ++ c :: t) = read r d (p ++ c :: t') := by
  have hhead : (p ++ c :: t).head? = (p ++ c :: t').head? := by
    cases p <;> rfl
  have hmarker : marker? (d :: (p ++ c :: t)) = marker? (d :: (p ++ c :: t')) := by
    rw [← List.cons_append, marker?_append_opener hc, ← List.cons_append,
      marker?_append_opener hc]
  cases r with
  | code => simp only [read, readCode, hhead, hmarker]
  | comment => simp only [read, hhead]
  | quoted | escape | opener | closer => rfl

theorem Passes.replace (hc : IsLineOpener c) (t' : Text) (h : Passes (c :: t) r o p ms r') :
    Passes (c :: t') r o p ms r' := by
  induction h with
  | nil => exact .nil
  | cons hread _ ih =>
    rw [read_append_opener hc _ _ _ t t'] at hread
    exact .cons hread ih

theorem Passes.offset_lt (h : Passes q r o p ms r') : ∀ m ∈ ms, m.1 < o + byteLength p := by
  induction h with
  | nil =>
    intro m hm
    cases hm
  | @cons r r' r'' o c p mark ms _ _ ih =>
    have hsize := c.utf8Size_pos
    intro m hm
    rw [byteLength]
    rcases List.mem_append.mp hm with hm | hm
    · obtain ⟨k, -, rfl⟩ := List.mem_map.mp hm
      simp only
      omega
    · have hlt := ih m hm
      omega

theorem marks_of_infix_not (o : Nat) (ht : ¬ "*/".toList <:+: t) :
    marks .comment o t = ([], .comment) := by
  induction t generalizing o with
  | nil => rfl
  | cons c t ih =>
    have hclose : ¬ (c = '*' ∧ t.head? = some '/') := by
      rintro ⟨rfl, hslash⟩
      obtain ⟨t, rfl⟩ := List.head?_eq_some_iff.mp hslash
      exact ht ⟨[], t, rfl⟩
    have hread : read .comment c t = .go none .comment := by
      simp only [read, if_neg hclose]
    have hrest : ¬ "*/".toList <:+: t := by
      intro h
      exact ht (h.trans (List.suffix_cons c t).isInfix)
    rw [marks_cons_of_go hread, ih _ hrest]
    rfl

theorem exists_opener {opener : Text} (h : opener = "#" ∨ opener = "//") (q : Text) :
    ∃ c t, opener ++ q = c :: t ∧ read .code c t = .stop (some .comment) .code := by
  rcases h with rfl | rfl
  · exact ⟨'#', q, rfl, rfl⟩
  · exact ⟨'/', '/' :: q, rfl, rfl⟩

theorem Passes.replace_behind {opener : Text} (hopener : opener = "#" ∨ opener = "//") (q' : Text)
    (h : Passes (opener ++ q) r o p ms r') : Passes (opener ++ q') r o p ms r' := by
  rcases hopener with rfl | rfl
  · exact h.replace (.inl rfl) q'
  · exact h.replace (.inr rfl) ('/' :: q')

theorem Passes.marks_of_opener {opener : Text} (hopener : opener = "#" ∨ opener = "//")
    (h : Passes (opener ++ q) r 0 p ms .code) :
    marks r 0 (p ++ opener ++ q) = (ms ++ [(byteLength p, .comment)], .code) := by
  obtain ⟨c, t, hq, hread⟩ := exists_opener hopener q
  rw [List.append_assoc, h.marks_append, hq, marks_cons_of_stop hread, Nat.zero_add]
  rfl

namespace Carry

variable {carry : Carry} {d : Option Int} {l l' : Text}

/-- A line is entered with a carry, and its two forms differ only in text that the scanner skips. -/
inductive Retouched : Carry → Text → Text → Prop
  | same {carry : Carry} {l : Text} : Retouched carry l l
  | comment {carry : Carry} {p opener q : Text} (q' : Text) :
      ¬ carry.IsHeredoc → opener = "#" ∨ opener = "//" →
      (byteLength p, .comment) ∈ carry.marksOf (p ++ opener ++ q) →
      Retouched carry (p ++ opener ++ q) (p ++ opener ++ q')
  | heredoc {marker l l' : Text} : trim l ≠ marker → trim l' ≠ marker →
      Retouched (.heredoc marker) l l'
  | block {l l' : Text} : ¬ "*/".toList <:+: l → ¬ "*/".toList <:+: l' → Retouched .comment l l'

inductive RetouchedAll : Carry → List Text → List Text → Prop
  | nil {carry : Carry} : RetouchedAll carry [] []
  | cons {carry : Carry} {l l' : Text} {lines lines' : List Text} : Retouched carry l l' →
      RetouchedAll (carry.next l) lines lines' → RetouchedAll carry (l :: lines) (l' :: lines')

theorem exists_passes_of_comment {p t : Text}
    (h : (byteLength p, .comment) ∈ carry.marksOf (p ++ t)) :
    ∃ ms, Passes t carry.region 0 p ms .code := by
  obtain ⟨ms, ms', hms⟩ := List.append_of_mem h
  obtain ⟨p', c, q, hline, -, hpass, hoffset⟩ := exists_eq_append_comment hms
  obtain rfl : p = p' := eq_of_append_eq hline (by rw [hoffset, Nat.zero_add])
  rw [← List.append_cancel_left hline] at hpass
  exact ⟨ms, hpass⟩

theorem step_congr (hcarry : ¬ carry.IsHeredoc)
    (h : marks carry.region 0 l = marks carry.region 0 l') : carry.step d l = carry.step d l' := by
  cases carry with
  | heredoc => exact absurd trivial hcarry
  | code =>
    have hcode : marks .code 0 l = marks .code 0 l' := h
    simp only [step, hcode]
  | comment =>
    have hcomment : marks .comment 0 l = marks .comment 0 l' := h
    simp only [step, hcomment]

theorem Retouched.step_eq (h : carry.Retouched l l') (d : Option Int) :
    carry.step d l = carry.step d l' := by
  cases h with
  | same => rfl
  | comment q' hcarry hopener hmark =>
    rw [List.append_assoc] at hmark
    obtain ⟨ms, hpass⟩ := exists_passes_of_comment hmark
    apply step_congr hcarry
    rw [hpass.marks_of_opener hopener, (hpass.replace_behind hopener q').marks_of_opener hopener]
  | heredoc hl hl' => simp only [step, if_neg hl, if_neg hl']
  | block hl hl' =>
    apply step_congr id
    rw [region, marks_of_infix_not 0 hl, marks_of_infix_not 0 hl']

end Carry

end Bracket

namespace Attribute

variable {key val p opener q : Text} {ms : List (Nat × Mark)}

theorem value?_of_opener (hne : key ≠ []) (hkey : IsKey key)
    (hopener : opener = "#" ∨ opener = "//") (hpass : Passes (opener ++ q) .code 0 p ms .code)
    (q' : Text) (h : value? key (p ++ opener ++ q) = some val) :
    value? key (p ++ opener ++ q') = some val := by
  obtain ⟨pattern, rest, -, hpattern, hline⟩ := exists_pattern h
  -- The comment stands behind the pattern, so the pattern ends in front of the opener.
  have hlength : byteLength pattern ≤ byteLength p := by
    have hmarks : (Carry.code.marksOf (p ++ opener ++ q)) = ms ++ [(byteLength p, .comment)] :=
      congrArg Prod.fst (hpass.marks_of_opener hopener)
    cases hat : (Carry.code.scan (p ++ opener ++ q)).1.commentAt with
    | none =>
      rw [Carry.commentAt_eq id, hmarks, Option.map_eq_none_iff, List.find?_eq_none] at hat
      have hcomment := hat _ (List.mem_append_right ms List.mem_cons_self)
      exact absurd (decide_eq_true rfl) hcomment
    | some k =>
      have hle : byteLength pattern ≤ k := by
        rw [hline] at hat
        exact byteLength_le_of_commentAt hkey hpattern hat
      rw [Carry.commentAt_eq id, hmarks] at hat
      obtain ⟨m, hm, rfl⟩ := Option.map_eq_some_iff.mp hat
      rcases List.mem_append.mp (List.mem_of_find?_eq_some hm) with hm | hm
      · have hlt := hpass.offset_lt m hm
        omega
      · rw [List.mem_singleton.mp hm] at hle
        exact hle
  rw [List.append_assoc] at hline
  obtain ⟨gap, hgap⟩ := exists_append_of_byteLength_le hline.symm hlength
  rw [hgap, List.append_assoc, List.append_assoc]
  exact value?_of_pattern hne hkey hpattern _

end Attribute

theorem Header.ofLine?_eq_none_of_comment {line : Text} {ms : List (Nat × Mark)} {k : Nat}
    {carry : Carry} (h : marks .code 0 line = (ms ++ [(k, .comment)], carry)) :
    ofLine? line = none := by
  rw [Option.eq_none_iff_forall_ne_some]
  intro hd hhd
  obtain ⟨ms', hquiet, ⟨k', hmarks⟩ | ⟨hmarks, -⟩⟩ := marks_eq hhd
  · rw [h] at hmarks
    have hlast := congrArg List.getLast? (Prod.mk.inj hmarks).1
    simp at hlast
  · rw [h] at hmarks
    have hmem : (k, Mark.comment) ∈ ms' := by
      rw [← (Prod.mk.inj hmarks).1]
      exact List.mem_append_right ms List.mem_cons_self
    cases hquiet _ hmem

namespace Bracket.Carry.Retouched

variable {carry : Carry} {l l' : Text}

theorem eq_or_ofLine?_eq_none (h : Carry.code.Retouched l l') :
    l = l' ∨ Header.ofLine? l = none ∧ Header.ofLine? l' = none := by
  cases h with
  | same => exact .inl rfl
  | comment q' _ hopener hmark =>
    rw [List.append_assoc] at hmark
    obtain ⟨ms, hpass⟩ := exists_passes_of_comment hmark
    have hpass' := hpass.replace_behind hopener q'
    refine .inr ⟨?_, ?_⟩
    · exact Header.ofLine?_eq_none_of_comment (hpass.marks_of_opener hopener)
    · exact Header.ofLine?_eq_none_of_comment (hpass'.marks_of_opener hopener)

theorem value?_eq {key : Text} (hne : key ≠ []) (hkey : Attribute.IsKey key)
    (h : Carry.code.Retouched l l') : Attribute.value? key l = Attribute.value? key l' := by
  cases h with
  | same => rfl
  | @comment _ p opener q q' _ hopener hmark =>
    rw [List.append_assoc] at hmark
    obtain ⟨ms, hpass⟩ := exists_passes_of_comment hmark
    apply Option.ext
    intro value
    constructor
    · exact Attribute.value?_of_opener hne hkey hopener hpass q'
    · exact Attribute.value?_of_opener hne hkey hopener (hpass.replace_behind hopener q') q

/-- Up to a closing bracket the two are the same: neither form has the bracket in the text that is
skipped. -/
theorem eq_of_cut {d : Int} {a r a' r' : Text} {c c' : Char} {ms₁ ms₂ : List (Nat × Mark)}
    (h : carry.Retouched l l') (hcut : carry.Cut d l a c r ms₁)
    (hcut' : carry.Cut d l' a' c' r' ms₂)
    (hlength : byteLength a = byteLength a') : a = a' := by
  have hoffset : (byteLength a, Mark.closing) ∈ (marks carry.region 0 l).1 := by
    rw [hcut.marks_eq]
    exact List.mem_append_right ms₁ List.mem_cons_self
  have hline := hcut.line_eq.symm
  have hline' := hcut'.line_eq.symm
  cases h with
  | same => exact eq_of_append_eq (hline.trans hline'.symm) hlength
  | heredoc => exact absurd trivial hcut.not_heredoc
  | block hl hl' =>
    rw [region, marks_of_infix_not 0 hl] at hoffset
    cases hoffset
  | @comment _ p opener q q' _ hopener hmark =>
    rw [List.append_assoc] at hmark hline hline'
    obtain ⟨ms, hpass⟩ := exists_passes_of_comment hmark
    rw [hpass.marks_of_opener hopener] at hoffset
    have hlt : byteLength a < byteLength p := by
      rcases List.mem_append.mp hoffset with hm | hm
      · have hlt := hpass.offset_lt _ hm
        omega
      · have hmark := congrArg Prod.snd (List.mem_singleton.mp hm)
        cases hmark
    obtain ⟨u, hu⟩ := exists_append_of_byteLength_le hline (by omega)
    obtain ⟨u', hu'⟩ := exists_append_of_byteLength_le hline' (by omega)
    exact eq_of_append_eq (hu.symm.trans hu') hlength

theorem cut_eq (h : carry.Retouched l l') (d : Int) :
    (ModuleBlock.cut (carry.scanAtDepth d l).1 l).1
      = (ModuleBlock.cut (carry.scanAtDepth d l').1 l').1 := by
  have htally : Entry.tally ⟨d, carry, l'⟩ = Entry.tally ⟨d, carry, l⟩ :=
    congrArg Prod.fst (h.step_eq (some d)).symm
  change Entry.code ⟨d, carry, l⟩ = Entry.code ⟨d, carry, l'⟩
  by_cases hat : (Entry.tally ⟨d, carry, l⟩).closedAt.isSome
  · obtain ⟨a, c, r, ms₁, hcut, hk, hcode⟩ := Entry.exists_cut hat
    obtain ⟨a', c', r', ms₂, hcut', hk', hcode'⟩ :=
      Entry.exists_cut (e := ⟨d, carry, l'⟩) (by rwa [htally])
    rw [htally, hk] at hk'
    rw [Entry.code, Entry.code, hcode, hcode']
    exact h.eq_of_cut hcut hcut' (Option.some.inj hk')
  · rw [Option.not_isSome_iff_eq_none] at hat
    rw [Entry.code_of_closedAt_eq_none hat, Entry.code_of_closedAt_eq_none (htally ▸ hat)]

end Bracket.Carry.Retouched

/-- What a declaration says, apart from its body. -/
structure Outline where
  name : Text
  startLine : Nat
  endLine : Nat
  header : Text
  source : Option Text
  version : Option Text
deriving DecidableEq, Repr

namespace ModuleBlock

variable {b b' : ModuleBlock} {carry : Carry} {l l' : Text}

def outline (b : ModuleBlock) : Outline :=
  ⟨b.name, b.startLine, b.endLine, b.header, b.source, b.version⟩

theorem outline_keepComment (line : Text) (at? : Option Nat) (b : ModuleBlock) :
    (b.keepComment line at?).outline = b.outline := by
  unfold keepComment
  split <;> rfl

theorem outline_absorb (line : Text) (at? : Option Nat) (b : ModuleBlock) :
    (b.absorb line at?).outline = { b.outline with
      source := (Attribute.value? "source" line).or b.source
      version := (Attribute.value? "version" line).or b.version } := by
  cases hs : Attribute.value? "source" line with
  | some value =>
    have hv : Attribute.value? "version" line = none := by
      rw [Option.eq_none_iff_forall_ne_some]
      intro value' hv
      have hline := Attribute.ofLine?_of_source hs
      rw [Attribute.ofLine?_of_version hv] at hline
      cases hline
    rw [absorb, Attribute.ofLine?_of_source hs, hv]
    exact outline_keepComment _ _ _
  | none =>
    cases hv : Attribute.value? "version" line with
    | some value =>
      rw [absorb, Attribute.ofLine?_of_version hv]
      exact outline_keepComment _ _ _
    | none =>
      unfold absorb
      cases ha : Attribute.ofLine? line with
      | none => rfl
      | some a =>
        cases a with
        | source value =>
          rw [Attribute.value?_of_source ha] at hs
          cases hs
        | version value =>
          rw [Attribute.value?_of_version ha] at hv
          cases hv
        | commentedSource | commentedVersion => rfl

theorem outline_take (d : Int) (tally : Tally) (line : Text) (b : ModuleBlock) :
    (b.take d tally line).outline =
      if d = 1 ∧ ¬ tally.verbatim then { b.outline with
        source := (Attribute.value? "source" line).or b.source
        version := (Attribute.value? "version" line).or b.version }
      else b.outline := by
  unfold take
  split
  · exact outline_absorb line tally.commentAt b
  · rfl

theorem outline_take_congr (hb : b.outline = b'.outline) (d : Int) (tally : Tally) (line : Text) :
    (b.take d tally line).outline = (b'.take d tally line).outline := by
  have hsource : b.source = b'.source := congrArg Outline.source hb
  have hversion : b.version = b'.version := congrArg Outline.version hb
  rw [outline_take, outline_take, hb, hsource, hversion]

theorem outline_take_of_retouched (h : carry.Retouched l l') (d : Int) (b : ModuleBlock) :
    (b.take d (carry.scanAtDepth d l).1 l).outline
      = (b.take d (carry.scanAtDepth d l').1 l').outline := by
  rw [outline_take, outline_take, Carry.verbatim_scanAtDepth, Carry.verbatim_scanAtDepth]
  by_cases hcode : carry = .code
  · subst hcode
    rw [h.value?_eq (by decide) Attribute.isKey_source,
      h.value?_eq (by decide) Attribute.isKey_version]
  · simp [hcode]

theorem outline_close_of_retouched (h : carry.Retouched l l') (hb : b.outline = b'.outline)
    (number : Nat) (d : Int) : (b.close number d (carry.scanAtDepth d l).1 l).outline
      = (b'.close number d (carry.scanAtDepth d l').1 l').outline := by
  have hclosed : (b.closed d (carry.scanAtDepth d l).1 l).outline
      = (b'.closed d (carry.scanAtDepth d l').1 l').outline := by
    have htally : (carry.scanAtDepth d l).1 = (carry.scanAtDepth d l').1 :=
      congrArg Prod.fst (h.step_eq (some d))
    rw [closed, closed, h.cut_eq d, htally]
    split
    · exact hb
    · exact outline_take_congr hb _ _ _
  have hend := congrArg (fun o : Outline => { o with endLine := number }) hclosed
  rw [close_eq, close_eq]
  exact hend

end ModuleBlock

namespace Reader

variable {s s' : State} {l l' : Text} {lines lines' : List Text}

/-- What of a state the lines behind it depend on, bodies apart. -/
def State.sketch (s : State) : Carry × Option (Int × Outline) :=
  (s.carry, s.pending.map fun p => (p.1, p.2.outline))

theorem sketch_step (hs : s.sketch = s'.sketch) (h : s.carry.Retouched l l') (number : Nat) :
    (step number l s).1.sketch = (step number l' s').1.sketch ∧
      (step number l s).2.map ModuleBlock.outline
        = (step number l' s').2.map ModuleBlock.outline := by
  obtain ⟨carry, pending⟩ := s
  obtain ⟨carry', pending'⟩ := s'
  obtain ⟨rfl, hpending⟩ := Prod.mk.inj hs
  have hnext : carry.next l = carry.next l' := congrArg Prod.snd (h.step_eq none)
  have hnet : carry.net l = carry.net l' := congrArg (fun r => r.1.net) (h.step_eq none)
  cases pending with
  | none =>
    obtain rfl := Option.map_eq_none_iff.mp hpending.symm
    by_cases hcode : carry = .code
    · subst hcode
      rcases h.eq_or_ofLine?_eq_none with rfl | ⟨hl, hl'⟩
      · exact ⟨rfl, rfl⟩
      · rw [step_of_no_header fun _ => hl, step_of_no_header fun _ => hl', hnext]
        exact ⟨rfl, rfl⟩
    · rw [step_of_no_header (absurd · hcode), step_of_no_header (absurd · hcode), hnext]
      exact ⟨rfl, rfl⟩
  | some p =>
    obtain ⟨d, b⟩ := p
    obtain ⟨⟨d', b'⟩, rfl, hp⟩ := Option.map_eq_some_iff.mp hpending.symm
    obtain ⟨rfl, hb⟩ := Prod.mk.inj hp
    by_cases hopen : 0 < d' + carry.net l
    · have hopen' : 0 < d' + carry.net l' := by rwa [← hnet]
      have htake := (ModuleBlock.outline_take_of_retouched h d' b).trans
        (ModuleBlock.outline_take_congr hb.symm d' _ l')
      rw [step_of_open hopen, step_of_open hopen', hnext, hnet]
      refine ⟨?_, rfl⟩
      simp only [State.sketch, Option.map_some, htake]
    · have hclose : d' + carry.net l ≤ 0 := by omega
      have hclose' : d' + carry.net l' ≤ 0 := by rwa [← hnet]
      rw [step_of_close hclose, step_of_close hclose', hnext]
      refine ⟨rfl, ?_⟩
      exact congrArg some (ModuleBlock.outline_close_of_retouched h hb.symm number d')

theorem carry_step (number : Nat) (l : Text) (s : State) :
    (step number l s).1.carry = s.carry.next l := by
  obtain ⟨carry, pending⟩ := s
  cases pending with
  | none =>
    simp only [step]
    split <;> rfl
  | some p =>
    simp only [step]
    split <;> exact Carry.scanAtDepth_snd carry p.1 l

theorem outline_run (h : s.carry.RetouchedAll lines lines') (hs : s.sketch = s'.sketch)
    (number : Nat) : (run number s lines).1.map ModuleBlock.outline
      = (run number s' lines').1.map ModuleBlock.outline := by
  generalize hcarry : s.carry = carry at h
  induction h generalizing s s' number with
  | nil => rfl
  | @cons _ l l' _ _ hline _ ih =>
    subst hcarry
    obtain ⟨hstep, hfound⟩ := sketch_step hs hline number
    have hrest := ih hstep (number + 1) (carry_step number l s)
    simp only [run_cons, List.map_append, ← Option.toList_map, hfound, hrest]

end Reader

/-- Comments and here-documents are inert: lines that differ only in the text of these are read as
the same declarations. -/
theorem outline_readBlocks_of_retouched {lines lines' : List Text}
    (h : Carry.code.RetouchedAll lines lines') :
    (readBlocks lines').map ModuleBlock.outline = (readBlocks lines).map ModuleBlock.outline :=
  (Reader.outline_run h rfl 1).symm

def annotatedLines : List Text :=
  [r#"module "vnet" {"#, r#"  source = "../../" # as released"#, "  /* was", "  1.0", "  */",
    "  note = <<EOT", "  2.0", "EOT", r"}"]

def reannotatedLines : List Text :=
  [r#"module "vnet" {"#, r#"  source = "../../" # }"#, "  /* was", r#"  version = "1.0""#,
    "  */", "  note = <<EOT", r#"  source = "acme/vnet/azure" }"#, "EOT", r"}"]

theorem outline_readBlocks_of_retouched_annotatedLines :
    Carry.code.RetouchedAll annotatedLines reannotatedLines ∧
      (readBlocks reannotatedLines).map ModuleBlock.outline
        = (readBlocks annotatedLines).map ModuleBlock.outline := by
  have h : Carry.code.RetouchedAll annotatedLines reannotatedLines := by
    have hcomment : Carry.code.Retouched r#"  source = "../../" # as released"#
        r#"  source = "../../" # }"# :=
      .comment (p := r#"  source = "../../" "#.toList) (q := " as released".toList) r" }".toList id
        (.inl rfl) (by decide)
    have hblock : Carry.comment.Retouched "  1.0" r#"  version = "1.0""# :=
      .block (by decide) (by decide)
    have hheredoc : (Carry.heredoc "EOT").Retouched "  2.0" r#"  source = "acme/vnet/azure" }"# :=
      .heredoc (by decide) (by decide)
    exact .cons .same (.cons hcomment (.cons .same (.cons hblock (.cons .same (.cons .same
      (.cons hheredoc (.cons .same (.cons .same .nil))))))))
  exact ⟨h, outline_readBlocks_of_retouched h⟩

end SourceSwitch
