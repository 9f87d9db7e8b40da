import Mathlib.Algebra.Ring.Int.Defs
import Mathlib.Data.List.Forall2
import SourceSwitch.Proofs.Block.Inertness
import SourceSwitch.Proofs.Block.RoundTrip
import SourceSwitch.Proofs.Bracket.Template

namespace SourceSwitch

open Text SourceSwitch.Bracket

theorem Bracket.Shifts.of_plain {p q : Text} (hp : Attribute.IsPlain p) :
    Shifts q .code 0 p .code := by
  intro o
  obtain ⟨ms, hms, hpass⟩ := Attribute.exists_passes_plain hp o q
  exact ⟨ms, hms.balance_eq, hpass⟩

/-- Lines that stay inside a declaration as the scanner counts, and leave it at its own level. -/
structure Bracket.IsLevel (lines : List Text) : Prop where
  staysOpen : Carry.code.StaysOpen 1 lines
  netAll_eq : Carry.code.netAll lines = 0
  nextAll_eq : Carry.code.nextAll lines = .code

def Bracket.Adds (line : Text) (n : Int) : Prop :=
  Carry.code.net line = n ∧ Carry.code.next line = .code

namespace Bracket.Adds

variable {lines : List Text} {ns : List Int} {d : Int}

theorem netAll_eq (h : List.Forall₂ Adds lines ns) :
    Carry.code.netAll lines = ns.sum ∧ Carry.code.nextAll lines = .code := by
  induction h with
  | nil => exact ⟨rfl, rfl⟩
  | @cons line n lines ns hline _ ih =>
    rw [Carry.netAll, Carry.nextAll, hline.1, hline.2, ih.1, List.sum_cons]
    exact ⟨rfl, ih.2⟩

theorem staysOpen_iff (h : List.Forall₂ Adds lines ns) (hd : 0 ≤ d) :
    Carry.code.StaysOpen (d + 1) lines ↔ ∀ k, 0 ≤ d + (ns.take k).sum := by
  induction h generalizing d with
  | nil => simpa [Carry.StaysOpen] using hd
  | @cons line n lines ns hline _ ih =>
    rw [Carry.StaysOpen, hline.1, hline.2, Int.add_right_comm]
    constructor
    · rintro ⟨hpos, hrest⟩ k
      cases k with
      | zero => simpa using hd
      | succ k =>
        have hk := (ih (by omega)).mp hrest k
        rw [List.take_succ_cons, List.sum_cons]
        omega
    · intro hall
      have hpos : 0 ≤ d + n := by simpa using hall 1
      refine ⟨by omega, (ih hpos).mpr fun k => ?_⟩
      have hk := hall (k + 1)
      rw [List.take_succ_cons, List.sum_cons] at hk
      omega

theorem isLevel_iff (h : List.Forall₂ Adds lines ns) :
    IsLevel lines ↔ (∀ k, 0 ≤ (ns.take k).sum) ∧ ns.sum = 0 := by
  obtain ⟨hnet, hnext⟩ := netAll_eq h
  have hopen := staysOpen_iff h (d := 0) (by decide)
  simp only [Int.zero_add] at hopen
  constructor
  · intro hlevel
    exact ⟨hopen.mp hlevel.staysOpen, hnet.symm.trans hlevel.netAll_eq⟩
  · rintro ⟨hall, hsum⟩
    exact ⟨hopen.mpr hall, hnet.trans hsum, hnext⟩

end Bracket.Adds

namespace Attribute

variable {key name u v t x : Text}

structure IsName (name : Text) : Prop where
  ne_nil : name ≠ []
  isKey : IsKey name
  equals_not_mem : '=' ∉ name

theorem isName_source : IsName "source" := ⟨by decide, isKey_source, by decide⟩

theorem isName_version : IsName "version" := ⟨by decide, isKey_version, by decide⟩

def endsName (c : Char) : Bool := isBlank c || c = '='

theorem IsName.takeWhile_eq (h : IsName name) (hv : isBlankText v) (t : Text) :
    (name ++ (v ++ '=' :: t)).takeWhile (fun c => ¬ endsName c) = name := by
  have hname : ∀ c ∈ name, decide (¬ endsName c) = true := by
    intro c hc
    have hne : c ≠ '=' := by
      rintro rfl
      exact h.equals_not_mem hc
    simp [endsName, (h.isKey c hc).1, hne]
  have hbehind : (v ++ '=' :: t).takeWhile (fun c => ¬ endsName c) = [] := by
    cases v with
    | nil => rfl
    | cons c v =>
      have hc := ((isBlankText_cons c v).mp hv).1
      simp [endsName, hc]
  rw [List.takeWhile_append_of_pos hname, hbehind, List.append_nil]

theorem IsName.trimStart_eq (h : IsName name) (hu : isBlankText u) (t : Text) :
    trimStart (u ++ (name ++ t)) = name ++ t := by
  rw [trimStart_append_blank hu]
  obtain ⟨c, name, rfl⟩ := List.exists_cons_of_ne_nil h.ne_nil
  exact trimStart_eq_self fun d hd => Option.some.inj hd ▸ (h.isKey c List.mem_cons_self).1

theorem IsName.eq_of_assigned? (hkey : IsName key) (h : IsName name) (hu : isBlankText u)
    (hv : isBlankText v) (ha : assigned? key (u ++ (name ++ (v ++ '=' :: t))) = some x) :
    name = key := by
  obtain ⟨t₁, h₁, ha⟩ := Option.bind_eq_some_iff.mp ha
  obtain ⟨t₂, h₂, -⟩ := Option.bind_eq_some_iff.mp ha
  obtain ⟨w, hw, rfl⟩ := exists_of_after?_trimStart h₂
  rw [h.trimStart_eq hu, after?_eq_some_iff] at h₁
  have hword := congrArg (List.takeWhile fun c => ¬ endsName c) h₁
  rw [h.takeWhile_eq hv] at hword
  simp only [List.append_assoc] at hword
  exact hword.trans (hkey.takeWhile_eq hw t₂)

theorem IsName.uncommented?_eq_none (h : IsName name) (hu : isBlankText u) (t : Text) :
    uncommented? (u ++ (name ++ t)) = none := by
  rw [uncommented?, h.trimStart_eq hu]
  obtain ⟨c, name, rfl⟩ := List.exists_cons_of_ne_nil h.ne_nil
  have hc := (h.isKey c List.mem_cons_self).2.1
  simp only [IsSpecial, not_or] at hc
  have hhash : "#".toList = ['#'] := by decide
  have hslash : "//".toList = ['/', '/'] := by decide
  rw [hhash, hslash]
  simp [after?, Ne.symm hc.1, Ne.symm hc.2.1]

end Attribute

/-- A line `name = "…"` with a template between the quotes. -/
structure TemplateLine where
  before : Text
  name : Text
  between : Text
  after : Text
  content : Text
  behind : Text
  isName : Attribute.IsName name
  isContent : Template.IsContent content
  isBlank : ∀ t ∈ [before, between, after, behind], isBlankText t

namespace TemplateLine

variable (l : TemplateLine)

def value : Text := '"' :: l.content ++ ['"']

def text : Text := l.before ++ (l.name ++ (l.between ++ '=' :: (l.after ++ (l.value ++ l.behind))))

theorem isBlank_before : isBlankText l.before := l.isBlank _ (by simp)

theorem isBlank_between : isBlankText l.between := l.isBlank _ (by simp)

theorem isBlank_after : isBlankText l.after := l.isBlank _ (by simp)

theorem isBlank_behind : isBlankText l.behind := l.isBlank _ (by simp)

variable {l : TemplateLine}

theorem scan_text {n : Int} (h : Template.HasExcess l.content n) : Adds l.text n := by
  have hbefore : Attribute.IsPlain (l.before ++ (l.name ++ (l.between ++ '=' :: l.after))) := by
    have hequals : Attribute.IsPlain ['='] := by
      unfold Attribute.IsPlain
      decide
    have hbehind := hequals.append (Attribute.isPlain_of_blank l.isBlank_after)
    exact (Attribute.isPlain_of_blank l.isBlank_before).append (l.isName.isKey.isPlain.append
      ((Attribute.isPlain_of_blank l.isBlank_between).append hbehind))
  have hbehind : Shifts [] .code 0 l.behind .code :=
    .of_plain (Attribute.isPlain_of_blank l.isBlank_behind)
  have hcontent : Shifts ('"' :: l.behind ++ []) .quoted n l.content .quoted :=
    h.shifts (.of_quote _)
  have hvalue : Shifts [] .code (n + 0) ('"' :: l.content ++ '"' :: l.behind) .code :=
    Template.shifts_template (e := true) hcontent hbehind
  have hline := (Shifts.of_plain hbefore).append hvalue
  have htext : l.text = l.before ++ (l.name ++ (l.between ++ '=' :: l.after))
      ++ ('"' :: l.content ++ '"' :: l.behind) := by
    simp [text, value]
  rw [Int.zero_add, Int.add_zero, ← htext] at hline
  exact hline.scan

end TemplateLine

namespace TemplateLine

variable {l : TemplateLine} {key val : Text}

theorem exists_isPattern (hquote : '"' ∉ l.content) :
    ∃ p, Attribute.IsPattern l.name l.content p ∧ l.text = p ++ l.behind := by
  refine ⟨_, ⟨hquote, l.before, l.between, l.after, l.isBlank_before, l.isBlank_between,
    l.isBlank_after, rfl⟩, ?_⟩
  simp [text, value]

theorem value?_text (hquote : '"' ∉ l.content) :
    Attribute.value? l.name l.text = some l.content := by
  obtain ⟨p, hp, htext⟩ := l.exists_isPattern hquote
  rw [htext]
  exact Attribute.value?_of_pattern l.isName.ne_nil l.isName.isKey hp l.behind

theorem name_eq_of_value? (hkey : Attribute.IsName key)
    (h : Attribute.value? key l.text = some val) : l.name = key := by
  obtain ⟨t, ht, -⟩ := Option.bind_eq_some_iff.mp h
  exact hkey.eq_of_assigned? l.isName l.isBlank_before l.isBlank_between ht

theorem ofLine?_text (hsource : l.name ≠ "source".toList) (hversion : l.name ≠ "version".toList) :
    Attribute.ofLine? l.text = none := by
  have hnone {key : Text} (hkey : Attribute.IsName key) (hne : l.name ≠ key) :
      Attribute.value? key l.text = none := by
    rw [Option.eq_none_iff_forall_ne_some]
    intro val h
    exact hne (name_eq_of_value? hkey h)
  have huncommented : Attribute.uncommented? l.text = none :=
    l.isName.uncommented?_eq_none l.isBlank_before _
  rw [Attribute.ofLine?, hnone Attribute.isName_source hsource, huncommented,
    hnone Attribute.isName_version hversion]
  rfl

theorem commentAt_text (hquote : '"' ∉ l.content) :
    (Carry.code.scan l.text).1.commentAt = none := by
  obtain ⟨p, hp, htext⟩ := l.exists_isPattern hquote
  have hmarks : Carry.code.marksOf l.text = Carry.code.marksOf p := by
    rw [htext, Carry.marksOf, Carry.marksOf, marks_append_blank _ _ _ l.isBlank_behind]
  rw [Carry.commentAt_eq id, hmarks, ← Carry.commentAt_eq id]
  exact (Attribute.scan_pattern l.isName.isKey hp).2.2

end TemplateLine

namespace Intake

variable {is : List Intake} {i : Intake}

def value? (key : Text) (i : Intake) : Option Text :=
  if i.IsDirect then Attribute.value? key i.line else none

theorem outline_into (b : ModuleBlock) (i : Intake) : (into b i).outline = { b.outline with
    source := (i.value? "source").or b.source
    version := (i.value? "version").or b.version } := by
  rw [into, ModuleBlock.outline_take, value?, value?]
  by_cases hd : i.IsDirect
  · have hdirect : i.depth = 1 ∧ ¬ i.tally.verbatim := hd
    rw [if_pos hdirect, if_pos hd, if_pos hd]
  · have hother : ¬ (i.depth = 1 ∧ ¬ i.tally.verbatim) := hd
    rw [if_neg hother, if_neg hd, if_neg hd]
    rfl

theorem foldl_into_eq_of_agree {f : ModuleBlock → Option Text} {value? : Intake → Option Text}
    {val : Text} (hinto : ∀ b i, f (into b i) = (value? i).or (f b))
    (hagree : ∀ i ∈ is, ∀ val', value? i = some val' → val' = val) (hi : i ∈ is)
    (hval : value? i = some val) (b : ModuleBlock) : f (is.foldl into b) = some val := by
  have hkeep (is : List Intake) (hagree : ∀ i ∈ is, ∀ val', value? i = some val' → val' = val)
      (b : ModuleBlock) (hb : f b = some val) : f (is.foldl into b) = some val := by
    induction is generalizing b with
    | nil => exact hb
    | cons i is ih =>
      refine ih (fun j hj => hagree j (List.mem_cons_of_mem i hj)) _ ?_
      rw [hinto, hb]
      cases h : value? i with
      | none => rfl
      | some val' => exact congrArg some (hagree i List.mem_cons_self val' h)
  obtain ⟨before, behind, rfl⟩ := List.append_of_mem hi
  rw [List.foldl_append, List.foldl_cons]
  refine hkeep behind (fun j hj => hagree j (by simp [hj])) _ ?_
  rw [hinto, hval, Option.some_or]

end Intake

namespace TemplateLine

/-- How lines are kept in a declaration with a body: each of them as a line, whole and in its place,
or as the declaration's source or version. -/
inductive Kept (b : ModuleBlock) : List TemplateLine → List Text → Prop where
  | nil : Kept b [] []
  | line {l : TemplateLine} {ls : List TemplateLine} {body : List Text} : Kept b ls body →
      Kept b (l :: ls) (l.text :: body)
  | source {l : TemplateLine} {ls : List TemplateLine} {body : List Text} :
      l.name = "source".toList → b.source = some l.content → Kept b ls body → Kept b (l :: ls) body
  | version {l : TemplateLine} {ls : List TemplateLine} {body : List Text} :
      l.name = "version".toList → b.version = some l.content → Kept b ls body →
      Kept b (l :: ls) body

def IsAttribute (l : TemplateLine) : Prop := l.name = "source".toList ∨ l.name = "version".toList

/-- The sources and versions among lines are plain quotations, and those of one name are equal. -/
def Agree (ls : List TemplateLine) : Prop := ∀ l ∈ ls, l.IsAttribute → '"' ∉ l.content ∧
  ∀ l' ∈ ls, l'.name = l.name → l'.content = l.content

variable {l : TemplateLine} {ls : List TemplateLine} {e : Entry} {b : ModuleBlock}

theorem attribute?_intake (hd : e.intake.IsDirect) (hline : e.line = l.text)
    (ha : l.IsAttribute) (hquote : '"' ∉ l.content) :
    e.intake.attribute? = some (.source l.content) ∨
      e.intake.attribute? = some (.version l.content) := by
  have hattribute : e.intake.attribute? = Attribute.ofLine? l.text := by
    rw [← hline]
    exact if_pos hd
  have hvalue := value?_text hquote
  rcases ha with hname | hname <;> rw [hname] at hvalue
  · exact .inl (hattribute.trans (Attribute.ofLine?_of_source hvalue))
  · exact .inr (hattribute.trans (Attribute.ofLine?_of_version hvalue))

theorem share_intake (hline : e.line = l.text) (hquote : l.IsAttribute → '"' ∉ l.content) :
    e.intake.share = [l.text] ∨ e.intake.share = [] ∧ l.IsAttribute ∧
      e.intake.value? l.name = some l.content := by
  have hkept (hplain : e.intake.attribute? = none) : e.intake.share = [l.text] := by
    rw [Intake.share_of_plain hplain]
    exact congrArg ([·]) hline
  by_cases hd : e.intake.IsDirect
  · by_cases ha : l.IsAttribute
    · have hcode : e.carry = .code := (Entry.isDirect_intake_iff.mp hd).2
      have hcomment : ModuleBlock.comment? e.intake.line e.intake.tally.commentAt = none := by
        have hat : e.intake.tally.commentAt = none := by
          change (e.carry.scanAtDepth e.depth e.line).1.commentAt = none
          rw [Carry.commentAt_scanAtDepth, hcode, hline, commentAt_text (hquote ha)]
        rw [hat]
        rfl
      have hvalue : e.intake.value? l.name = some l.content := by
        rw [Intake.value?, if_pos hd]
        change Attribute.value? l.name e.line = _
        rw [hline, value?_text (hquote ha)]
      refine .inr ⟨?_, ha, hvalue⟩
      rcases attribute?_intake hd hline ha (hquote ha) with h | h <;>
        simp only [Intake.share, h, hcomment, Option.toList_none]
    · refine .inl (hkept ?_)
      rw [← ofLine?_text (fun h => ha (.inl h)) fun h => ha (.inr h), ← hline]
      exact if_pos hd
  · exact .inl (hkept (if_neg hd))

theorem kept_of_share {d : Int} {carry : Carry} (hquote : ∀ l ∈ ls, l.IsAttribute → '"' ∉ l.content)
    (hsource : ∀ i ∈ (Entry.ofLines d carry (ls.map text)).map Entry.intake, ∀ val,
      i.value? "source" = some val → b.source = some val)
    (hversion : ∀ i ∈ (Entry.ofLines d carry (ls.map text)).map Entry.intake, ∀ val,
      i.value? "version" = some val → b.version = some val) :
    Kept b ls (((Entry.ofLines d carry (ls.map text)).map Entry.intake).flatMap Intake.share) := by
  induction ls generalizing d carry with
  | nil => exact .nil
  | cons l ls ih =>
    rw [List.map_cons, Entry.ofLines, List.map_cons] at hsource hversion ⊢
    have hrest := ih (fun l hl => hquote l (List.mem_cons_of_mem _ hl))
      (fun i hi => hsource i (List.mem_cons_of_mem _ hi))
      (fun i hi => hversion i (List.mem_cons_of_mem _ hi))
    have hshare := share_intake (e := ⟨d, carry, l.text⟩) rfl (hquote l List.mem_cons_self)
    rw [List.flatMap_cons]
    rcases hshare with hshare | ⟨hshare, hname | hname, hval⟩
    · rw [hshare]
      exact .line hrest
    · rw [hshare]
      rw [hname] at hval
      exact .source hname (hsource _ List.mem_cons_self _ hval) hrest
    · rw [hshare]
      rw [hname] at hval
      exact .version hname (hversion _ List.mem_cons_self _ hval) hrest

end TemplateLine

def IsClosingLine (line : Text) : Prop := trim line = r"}".toList

instance : DecidablePred IsClosingLine := fun line =>
  inferInstanceAs (Decidable (trim line = r"}".toList))

/-- A declaration is all that is read in the lines, and it ends with the last of them. -/
def IsWhole (lines : List Text) (b : ModuleBlock) : Prop :=
  readBlocks lines = [b] ∧ b.endLine = lines.length

section

variable {header last : Text} {inner : List Text} {carry : Carry}

theorem IsClosingLine.exists_eq (h : IsClosingLine last) :
    ∃ v w, isBlankText v ∧ isBlankText w ∧ last = v ++ '}' :: w := by
  obtain ⟨v, w, hv, hw, hlast⟩ := exists_eq_append_trim last
  have hbrace : trim last = ['}'] := Eq.trans h (by decide)
  rw [hbrace, List.append_assoc] at hlast
  exact ⟨v, w, hv, hw, hlast⟩

theorem IsClosingLine.net_code (h : IsClosingLine last) : Carry.code.net last = -1 := by
  obtain ⟨v, w, hv, hw, rfl⟩ := h.exists_eq
  rw [(ModuleBlock.cut_brace hv w).net_eq, Carry.net_code_of_blank hw]
  rfl

theorem IsClosingLine.net_of_ne_code (h : IsClosingLine last) (hcarry : carry ≠ .code) :
    carry.net last = 0 := by
  cases carry with
  | code => exact absurd rfl hcarry
  | heredoc marker => rfl
  | comment =>
    have hstar : ¬ "*/".toList <:+: last := by
      intro hinfix
      have hmem : '*' ∈ last := hinfix.subset (by decide)
      obtain ⟨v, w, hv, hw, rfl⟩ := h.exists_eq
      rcases List.mem_append.mp hmem with hmem | hmem
      · exact ne_star_of_isBlank (isBlankText_iff.mp hv _ hmem) rfl
      · rcases List.mem_cons.mp hmem with hmem | hmem
        · exact absurd hmem (by decide)
        · exact ne_star_of_isBlank (isBlankText_iff.mp hw _ hmem) rfl
    rw [Carry.net_eq_balance id, Carry.marksOf, Carry.region, marks_of_infix_not 0 hstar]
    rfl

theorem Span.isComplete_iff (hheader : (Header.ofLine? header).isSome)
    (hnet : Carry.code.net header = 1) (hlast : IsClosingLine last) :
    Span.IsComplete ⟨header, inner, last⟩ ↔ IsLevel inner := by
  constructor
  · intro h
    have hopen : Carry.code.StaysOpen 1 inner := by
      have hopen := h.staysOpen
      rwa [Span.depth, hnet] at hopen
    have hpos := hopen.pos (by decide)
    have hcloses : 1 + Carry.code.netAll inner + (Carry.code.nextAll inner).net last ≤ 0 := by
      have hcloses := h.closes
      rwa [Span.closing, Span.depth, hnet] at hcloses
    have hcode : Carry.code.nextAll inner = .code := by
      by_contra hcarry
      rw [hlast.net_of_ne_code hcarry] at hcloses
      omega
    rw [hcode, hlast.net_code] at hcloses
    exact ⟨hopen, by omega, hcode⟩
  · intro h
    refine ⟨hheader, ?_, ?_⟩
    · rw [Span.depth, hnet]
      exact h.staysOpen
    · rw [Span.closing, Span.depth, hnet, h.netAll_eq, h.nextAll_eq, hlast.net_code]
      exact Int.le_refl 0

theorem Span.isWhole_block {s : Span} (hs : s.IsComplete) : IsWhole s.lines (s.block 1) := by
  refine ⟨ModuleBlock.readBlocks_lines hs, ?_⟩
  rw [Span.endLine_block, Span.length_lines]
  omega

/-- A declaration that ends with the last line has no line left over, so it has all of them. -/
theorem isComplete_of_isWhole {b : ModuleBlock} (hheader : (Header.ofLine? header).isSome)
    (h : IsWhole (header :: inner ++ [last]) b) : Span.IsComplete ⟨header, inner, last⟩ := by
  obtain ⟨hread, hend⟩ := h
  obtain ⟨hd, hhd⟩ := Option.isSome_iff_exists.mp hheader
  by_cases hopen : Carry.code.StaysOpen (Carry.code.net header) (inner ++ [last])
  · have hnone := (Reader.run_unclosed hhd hopen 1).1
    have hsome : (Reader.run 1 ⟨.code, none⟩ (header :: (inner ++ [last]))).1 = [b] := hread
    rw [hnone] at hsome
    cases hsome
  · obtain ⟨inner', last', rest, hlines, hopen', hcloses⟩ := Carry.exists_of_not_staysOpen hopen
    let s : Span := ⟨header, inner', last'⟩
    have hs : s.IsComplete := ⟨hheader, hopen', hcloses⟩
    have hlines' : header :: inner ++ [last] = s.lines ++ rest := by
      rw [List.cons_append, hlines]
      simp [s, Span.lines]
    have hrun := congrArg Prod.fst (Reader.run_span hs 1 rest)
    rw [← hlines'] at hrun
    have hb : s.block 1 = b := (List.cons.inj (hrun.symm.trans hread)).1
    rw [← hb, Span.endLine_block] at hend
    have hlength := congrArg List.length hlines
    simp only [s, List.length_append, List.length_cons, List.length_nil] at hend hlength
    obtain ⟨hinner, hlast⟩ := List.append_inj hlines (by omega)
    rw [hinner, (List.cons.inj hlast).1]
    exact hs

theorem Span.intakes_of_isLevel (hnet : Carry.code.net header = 1) (hlast : IsClosingLine last)
    (h : IsLevel inner) : Span.intakes ⟨header, inner, last⟩
      = (Entry.ofLines 1 .code inner).map Entry.intake := by
  obtain ⟨v, w, hv, -, rfl⟩ := hlast.exists_eq
  have hclosing : Span.closing ⟨header, inner, v ++ '}' :: w⟩ = ⟨1, .code, v ++ '}' :: w⟩ := by
    rw [Span.closing, Span.depth, hnet, h.netAll_eq, h.nextAll_eq]
    rfl
  have hcode : Entry.code ⟨1, .code, v ++ '}' :: w⟩ = v :=
    congrArg Prod.fst (ModuleBlock.cut_tally_brace hv w)
  rw [Span.intakes, hclosing, Entry.codeIntakes, hcode, if_pos hv, List.append_nil, Span.entries,
    Span.depth, hnet]

end

namespace TemplateLine

variable {header last : Text} {ls : List TemplateLine}

theorem isLevel_iff {ns : List Int}
    (h : List.Forall₂ (fun l n => Template.HasExcess l.content n) ls ns) :
    IsLevel (ls.map text) ↔ (∀ k, 0 ≤ (ns.take k).sum) ∧ ns.sum = 0 := by
  have hscan : List.Forall₂ Adds (ls.map text) ns :=
    List.forall₂_map_left_iff.mpr (h.imp fun _ _ => scan_text)
  exact Adds.isLevel_iff hscan

/-- The values that lines of one name give agree, so the last of them is as good as any. -/
theorem eq_of_value? {key val val' : Text} {is : List Intake} (hkey : Attribute.IsName key)
    (hattribute : key = "source".toList ∨ key = "version".toList) (hagree : Agree ls)
    (his : ∀ i ∈ is, i.line ∈ ls.map text) {i i' : Intake} (hi : i ∈ is) (hi' : i' ∈ is)
    (h : i.value? key = some val) (h' : i'.value? key = some val') : val' = val := by
  have hattr {l : TemplateLine} (hname : l.name = key) : l.IsAttribute := by
    rw [IsAttribute, hname]
    exact hattribute
  have hline {i : Intake} {val : Text} (hi : i ∈ is) (h : i.value? key = some val) :
      ∃ l ∈ ls, l.name = key ∧ l.content = val := by
    obtain ⟨l, hl, htext⟩ := List.mem_map.mp (his i hi)
    have hval := (Option.ite_none_right_eq_some.mp h).2
    rw [← htext] at hval
    have hname := name_eq_of_value? hkey hval
    have hquote := (hagree l hl (hattr hname)).1
    rw [← hname, value?_text hquote] at hval
    exact ⟨l, hl, hname, Option.some.inj hval⟩
  obtain ⟨l, hl, hname, rfl⟩ := hline hi h
  obtain ⟨l', hl', hname', rfl⟩ := hline hi' h'
  exact (hagree l hl (hattr hname)).2 l' hl' (hname'.trans hname.symm)

theorem exists_excesses (h : ∀ l ∈ ls, Template.IsTame false l.content) :
    ∃ ns : List Int, List.Forall₂ (fun l n => Template.HasExcess l.content n) ls ns := by
  induction ls with
  | nil => exact ⟨[], .nil⟩
  | cons l ls ih =>
    obtain ⟨n, hn⟩ := l.isContent.exists_hasExcess (h l List.mem_cons_self)
    obtain ⟨ns, hns⟩ := ih fun l' hl' => h l' (List.mem_cons_of_mem l hl')
    exact ⟨n :: ns, .cons hn hns⟩

theorem kept_block (hnet : Carry.code.net header = 1) (hlast : IsClosingLine last)
    (hlevel : IsLevel (ls.map text)) (hagree : Agree ls) (number : Nat) :
    Kept (Span.block number ⟨header, ls.map text, last⟩) ls
      (Span.block number ⟨header, ls.map text, last⟩).body := by
  have hintakes : Span.intakes ⟨header, ls.map text, last⟩
      = (Entry.ofLines 1 .code (ls.map text)).map Entry.intake :=
    Span.intakes_of_isLevel hnet hlast hlevel
  have hlines : ∀ i ∈ (Entry.ofLines 1 .code (ls.map text)).map Entry.intake,
      i.line ∈ ls.map text := by
    intro i hi
    obtain ⟨e, he, rfl⟩ := List.mem_map.mp hi
    exact Span.line_mem_of_mem_ofLines he
  rw [Span.body_block, hintakes]
  apply kept_of_share fun l hl ha => (hagree l hl ha).1
  · intro i hi val hval
    rw [Span.block_eq, hintakes]
    exact Intake.foldl_into_eq_of_agree (f := ModuleBlock.source)
      (fun b i => congrArg Outline.source (Intake.outline_into b i))
      (fun i' hi' val' =>
        eq_of_value? Attribute.isName_source (.inl rfl) hagree hlines hi hi' hval)
      hi hval _
  · intro i hi val hval
    rw [Span.block_eq, hintakes]
    exact Intake.foldl_into_eq_of_agree (f := ModuleBlock.version)
      (fun b i => congrArg Outline.version (Intake.outline_into b i))
      (fun i' hi' val' =>
        eq_of_value? Attribute.isName_version (.inr rfl) hagree hlines hi hi' hval)
      hi hval _

end TemplateLine

/-- A declaration of templates is read whole exactly where its lines keep to their level as the
scanner counts, and every template is then kept. Where the scanner finds its way through the
templates, as it does through tame ones, it counts the brackets of the strings that it reads as
code. -/
theorem readBlocks_of_templates {header last : Text} (hheader : (Header.ofLine? header).isSome)
    (hnet : Carry.code.net header = 1) (hlast : IsClosingLine last) (ls : List TemplateLine) :
    ((∃ b, IsWhole (header :: ls.map TemplateLine.text ++ [last]) b) ↔
      IsLevel (ls.map TemplateLine.text)) ∧
    (IsLevel (ls.map TemplateLine.text) → TemplateLine.Agree ls →
      ∃ b, IsWhole (header :: ls.map TemplateLine.text ++ [last]) b ∧
        TemplateLine.Kept b ls b.body) ∧
    (∀ ns : List Int, List.Forall₂ (fun l n => Template.HasExcess l.content n) ls ns →
      (IsLevel (ls.map TemplateLine.text) ↔ (∀ k, 0 ≤ (ns.take k).sum) ∧ ns.sum = 0)) ∧
    ((∀ l ∈ ls, Template.IsTame false l.content) →
      ∃ ns : List Int, List.Forall₂ (fun l n => Template.HasExcess l.content n) ls ns) := by
  have hcomplete : Span.IsComplete ⟨header, ls.map TemplateLine.text, last⟩ ↔
      IsLevel (ls.map TemplateLine.text) := Span.isComplete_iff hheader hnet hlast
  refine ⟨⟨?_, ?_⟩, ?_, fun ns => TemplateLine.isLevel_iff, TemplateLine.exists_excesses⟩
  · rintro ⟨b, hb⟩
    exact hcomplete.mp (isComplete_of_isWhole hheader hb)
  · intro hlevel
    exact ⟨_, Span.isWhole_block (hcomplete.mpr hlevel)⟩
  · intro hlevel hagree
    exact ⟨_, Span.isWhole_block (hcomplete.mpr hlevel),
      TemplateLine.kept_block hnet hlast hlevel hagree 1⟩

def TemplateLine.setting (name content : Text) (hname : Attribute.IsName name)
    (hcontent : Template.IsContent content) : TemplateLine where
  before := "  "
  name := name
  between := " "
  after := " "
  content := content
  behind := []
  isName := hname
  isContent := hcontent
  isBlank := by decide

/-- A source, and two lines with a bracket in the string of a call, which even out. -/
def callLines : List TemplateLine :=
  [.setting "source" "../../" Attribute.isName_source
      (Template.hasExcess_of_plain (by decide) (by decide) (by decide)).isContent,
    .setting "open" (Template.call '(') ⟨by decide, by decide, by decide⟩
      (Template.hasExcess_call (by decide) (by decide) (by decide)).isContent,
    .setting "close" (Template.call ')') ⟨by decide, by decide, by decide⟩
      (Template.hasExcess_call (by decide) (by decide) (by decide)).isContent]

theorem readBlocks_of_templates_callLines :
    (Header.ofLine? r#"module "vnet" {"#).isSome ∧
      Carry.code.net r#"module "vnet" {"# = 1 ∧ IsClosingLine r"}" ∧
      TemplateLine.Agree callLines ∧
      ∃ b, IsWhole (r#"module "vnet" {"#.toList :: callLines.map TemplateLine.text
          ++ [r"}".toList]) b ∧ TemplateLine.Kept b callLines b.body := by
  have hheader : (Header.ofLine? r#"module "vnet" {"#).isSome := by decide
  have hnet : Carry.code.net r#"module "vnet" {"# = 1 := by decide
  have hlast : IsClosingLine r"}" := by decide
  have hagree : TemplateLine.Agree callLines := by
    unfold TemplateLine.Agree TemplateLine.IsAttribute
    decide
  obtain ⟨-, hkept, hlevel, -⟩ := readBlocks_of_templates hheader hnet hlast callLines
  have hexcess : List.Forall₂ (fun l n => Template.HasExcess l.content n) callLines [0, 1, -1] :=
    .cons (Template.hasExcess_of_plain (by decide) (by decide) (by decide))
      (.cons (Template.hasExcess_call (by decide) (by decide) (by decide))
        (.cons (Template.hasExcess_call (by decide) (by decide) (by decide)) .nil))
  have hsums : ∀ k, 0 ≤ (([0, 1, -1] : List Int).take k).sum := by
    intro k
    match k with
    | 0 | 1 | 2 => decide
    | k + 3 => simp
  exact ⟨hheader, hnet, hlast, hagree, hkept ((hlevel _ hexcess).mpr ⟨hsums, by decide⟩) hagree⟩

def strayLine : TemplateLine :=
  .setting "name" (Template.call '}') ⟨by decide, by decide, by decide⟩
    (Template.hasExcess_call (by decide) (by decide) (by decide)).isContent

/-- The bracket in the string ends the declaration, and cuts its template in two. -/
theorem strayLine_not_isWhole : (Header.ofLine? r#"module "vnet" {"#).isSome ∧
    IsClosingLine r"}" ∧ strayLine.text = r#"  name = "${f("}")}""#.toList ∧
    ¬ ∃ b, IsWhole [r#"module "vnet" {"#, strayLine.text, r"}"] b := by
  refine ⟨by decide, by decide, by decide, ?_⟩
  rintro ⟨b, hread, hend⟩
  have hfound : (readBlocks [r#"module "vnet" {"#, strayLine.text, r"}"]).map
      ModuleBlock.endLine = [2] := by
    decide
  rw [hread, List.map_singleton, hend] at hfound
  cases hfound

end SourceSwitch
