import SourceSwitch.Proofs.Block.Rendering

namespace SourceSwitch

open Text
open SourceSwitch.Bracket (Carry)

namespace Bracket.Carry

/-- Lines that a declaration keeps as they are and that do not close it. -/
def IsBody (depth : Int) (carry : Carry) : List Text → Prop
  | [] => True
  | line :: rest =>
    0 < depth + carry.net line ∧ (depth = 1 → carry = .code → Attribute.ofLine? line = none) ∧
      (carry.next line).IsBody (depth + carry.net line) rest

variable {d : Int} {carry : Carry} {ls ls' : List Text} {l : Text}

theorem isBody_append {v w : List Text} : carry.IsBody d (v ++ w) ↔
    carry.IsBody d v ∧ (carry.nextAll v).IsBody (d + carry.netAll v) w := by
  induction v generalizing d carry with
  | nil => simp [IsBody, nextAll, netAll]
  | cons l v ih => simp [IsBody, nextAll, netAll, ih, and_assoc, Int.add_assoc]

theorem staysOpen_append {v w : List Text} : carry.StaysOpen d (v ++ w) ↔
    carry.StaysOpen d v ∧ (carry.nextAll v).StaysOpen (d + carry.netAll v) w := by
  induction v generalizing d carry with
  | nil => simp [StaysOpen, nextAll, netAll]
  | cons l v ih => simp [StaysOpen, nextAll, netAll, ih, and_assoc, Int.add_assoc]

theorem IsBody.staysOpen (h : carry.IsBody d ls) : carry.StaysOpen d ls := by
  induction ls generalizing d carry with
  | nil => trivial
  | cons l ls ih => exact ⟨h.1, ih h.2.2⟩

theorem StaysOpen.pos (hd : 0 < d) (h : carry.StaysOpen d ls) : 0 < d + carry.netAll ls := by
  induction ls generalizing d carry with
  | nil => simpa [netAll] using hd
  | cons l ls ih =>
    have hrest := ih h.1 h.2
    rw [netAll]
    omega

theorem IsBody.attribute? (h : carry.IsBody d ls) :
    ∀ e ∈ Entry.ofLines d carry ls, e.intake.attribute? = none := by
  induction ls generalizing d carry with
  | nil => exact fun e he => absurd he List.not_mem_nil
  | cons l ls ih =>
    intro e he
    rcases List.mem_cons.mp he with rfl | he
    · rw [Intake.attribute?, ite_eq_right_iff]
      rintro ⟨hd, hv⟩
      apply h.2.1 hd
      simpa [Entry.intake, Entry.tally] using hv
    · exact ih h.2.2 e he

theorem IsBody.twins (htwins : Twins carry ls ls') (h : carry.IsBody d ls) :
    carry.IsBody d ls' := by
  induction htwins generalizing d with
  | nil => trivial
  | cons hcode hkept _ ih =>
    obtain ⟨hnext, hnet, -⟩ := Twins.scan_congr hcode hkept
    rw [IsBody, hnext, hnet]
    refine ⟨h.1, fun hd hc => ?_, ih h.2.2⟩
    rw [← Attribute.ofLine?_trim, hcode hc, Attribute.ofLine?_trim]
    exact h.2.1 hd hc

theorem dropWhile_blank (d : Int) (ls : List Text) :
    Carry.code.netAll (ls.dropWhile isBlankText) = Carry.code.netAll ls ∧
      Carry.code.nextAll (ls.dropWhile isBlankText) = Carry.code.nextAll ls ∧
      (Carry.code.IsBody d ls → Carry.code.IsBody d (ls.dropWhile isBlankText)) := by
  induction ls with
  | nil => exact ⟨rfl, rfl, id⟩
  | cons l ls ih =>
    by_cases hl : isBlankText l
    · rw [List.dropWhile_cons_of_pos hl, netAll, nextAll, net_code_of_blank hl,
        next_code_of_blank hl, Int.zero_add, IsBody, net_code_of_blank hl, next_code_of_blank hl,
        Int.add_zero]
      exact ⟨ih.1, ih.2.1, fun h => ih.2.2 h.2.2⟩
    · rw [List.dropWhile_cons_of_neg hl]
      exact ⟨rfl, rfl, id⟩

end Bracket.Carry

theorem Bracket.Carry.of_scan {ls : List Text} (d : Int) (hd : 0 < d)
    (h : ∀ l ∈ ls, Carry.code.net l = 0 ∧ Carry.code.next l = .code) :
    Carry.code.StaysOpen d ls ∧ Carry.code.netAll ls = 0 ∧ Carry.code.nextAll ls = .code ∧
      Entry.ofLines d .code ls = ls.map fun l => ⟨d, .code, l⟩ := by
  induction ls with
  | nil => exact ⟨trivial, rfl, rfl, rfl⟩
  | cons l ls ih =>
    obtain ⟨hnet, hnext⟩ := h l List.mem_cons_self
    obtain ⟨hopen, hnetAll, hnextAll, hentries⟩ := ih fun l hl => h l (List.mem_cons_of_mem _ hl)
    rw [StaysOpen, netAll, nextAll, Entry.ofLines, hnet, hnext, Int.add_zero, hnetAll, hnextAll,
      hentries]
    exact ⟨⟨hd, hopen⟩, rfl, rfl, rfl⟩

theorem Entry.map_line_ofLines (d : Int) (carry : Carry) (ls : List Text) :
    (Entry.ofLines d carry ls).map Entry.line = ls := by
  induction ls generalizing d carry with
  | nil => rfl
  | cons l ls ih => exact congrArg (l :: ·) (ih _ _)

theorem Bracket.Carry.IsBody.foldl_into {d : Int} {carry : Carry} {ls : List Text}
    (h : carry.IsBody d ls) (b : ModuleBlock) :
    ((Entry.ofLines d carry ls).map Entry.intake).foldl Intake.into b
      = { b with body := b.body ++ ls } := by
  have hplain : ∀ i ∈ (Entry.ofLines d carry ls).map Entry.intake, i.attribute? = none := by
    intro i hi
    obtain ⟨e, he, rfl⟩ := List.mem_map.mp hi
    exact h.attribute? e he
  have hlines : ((Entry.ofLines d carry ls).map Entry.intake).map Intake.line = ls := by
    rw [List.map_map]
    exact Entry.map_line_ofLines d carry ls
  rw [Intake.foldl_into_of_plain hplain, hlines]

theorem Entry.ofLines_append (d : Int) (carry : Carry) (v w : List Text) :
    Entry.ofLines d carry (v ++ w) = Entry.ofLines d carry v
      ++ Entry.ofLines (d + carry.netAll v) (carry.nextAll v) w := by
  induction v generalizing d carry with
  | nil => simp [ofLines, Carry.nextAll, Carry.netAll]
  | cons l v ih => simp [ofLines, Carry.nextAll, Carry.netAll, ih, Int.add_assoc]

def Attribute.isActive : Attribute → Bool
  | source _ | version _ => true
  | commentedSource _ | commentedVersion => false

namespace Intake

/-- What is kept of the line is scanned like the line, and is not taken for an attribute again. -/
structure IsSettled (i : Intake) : Prop where
  net_eq : Carry.code.netAll i.share = Carry.code.net i.line
  next_eq : Carry.code.nextAll i.share = Carry.code.next i.line
  plain : ∀ l ∈ i.share, Attribute.ofLine? l = none

instance : DecidablePred IsSettled := fun i =>
  decidable_of_iff (Carry.code.netAll i.share = Carry.code.net i.line ∧
      Carry.code.nextAll i.share = Carry.code.next i.line ∧
      ∀ l ∈ i.share, Attribute.ofLine? l = none)
    ⟨fun ⟨hnet, hnext, hplain⟩ => ⟨hnet, hnext, hplain⟩,
      fun h => ⟨h.net_eq, h.next_eq, h.plain⟩⟩

variable {i : Intake} {carry : Carry}

theorem isSettled_of_not_active {a : Attribute} (h : i.attribute? = some a) (ha : ¬ a.isActive) :
    i.IsSettled := by
  obtain ⟨-, hline⟩ := direct_of_attribute? h
  have hshare : i.share = [] := by
    rw [share, h]
    cases a with
    | source | version => exact absurd rfl ha
    | commentedSource | commentedVersion => rfl
  have hcomment : (Attribute.uncommented? i.line).isSome := by
    rcases Attribute.ofLine?_cases hline with ⟨v, rfl, -⟩ | ⟨v, -, h⟩ | ⟨v, rfl, -⟩ | ⟨-, h⟩
    · exact absurd rfl ha
    · exact h
    · exact absurd rfl ha
    · exact h
  obtain ⟨hnet, hnext⟩ := Attribute.scan_uncommented hcomment
  refine ⟨?_, ?_, ?_⟩
  · rw [hshare, hnet]
    rfl
  · rw [hshare, hnext]
    rfl
  · simp [hshare]

theorem share_of_attribute {a : Attribute} (h : i.attribute? = some a) :
    i.share = [] ∨ ∃ l, i.share = [l] := by
  have htoList (t : Option Text) : t.toList = [] ∨ ∃ l, t.toList = [l] := by
    cases t <;> simp
  rw [share, h]
  cases a with
  | source | version => exact htoList _
  | commentedSource | commentedVersion => exact .inl rfl

theorem isBody_share (hv : i.tally.verbatim = decide (carry ≠ .code))
    (hopen : 0 < i.depth + carry.net i.line)
    (hs : i.attribute?.any Attribute.isActive → i.IsSettled) :
    carry.IsBody i.depth i.share ∧ carry.netAll i.share = carry.net i.line ∧
      carry.nextAll i.share = carry.next i.line := by
  cases h : i.attribute? with
  | none =>
    rw [share_of_plain h]
    refine ⟨⟨hopen, fun hd hc => ?_, trivial⟩, Int.add_zero _, rfl⟩
    rw [attribute?, ite_eq_right_iff] at h
    exact h ⟨hd, by rw [hv]; simpa using hc⟩
  | some a =>
    obtain ⟨hdirect, -⟩ := direct_of_attribute? h
    have hc : carry = .code := by
      have hverbatim := hdirect.2
      rw [hv] at hverbatim
      simpa using hverbatim
    subst hc
    have hsettled : i.IsSettled := by
      by_cases ha : a.isActive
      · exact hs (by rw [h]; exact ha)
      · exact isSettled_of_not_active h ha
    refine ⟨?_, hsettled.net_eq, hsettled.next_eq⟩
    have hnet := hsettled.net_eq
    have hplain := hsettled.plain
    rcases share_of_attribute h with hshare | ⟨l, hshare⟩ <;> rw [hshare] at hnet hplain ⊢
    · trivial
    · rw [Carry.netAll, Carry.netAll, Int.add_zero] at hnet
      rw [← hnet] at hopen
      exact ⟨hopen, fun _ _ => hplain l List.mem_cons_self, trivial⟩

end Intake

theorem isBody_shares {d : Int} {carry : Carry} {ls : List Text} (hopen : carry.StaysOpen d ls)
    (hs : ∀ e ∈ Entry.ofLines d carry ls,
      e.intake.attribute?.any Attribute.isActive → e.intake.IsSettled) :
    carry.IsBody d ((Entry.ofLines d carry ls).flatMap fun e => e.intake.share) ∧
      carry.netAll ((Entry.ofLines d carry ls).flatMap fun e => e.intake.share)
        = carry.netAll ls ∧
      carry.nextAll ((Entry.ofLines d carry ls).flatMap fun e => e.intake.share)
        = carry.nextAll ls := by
  induction ls generalizing d carry with
  | nil => exact ⟨trivial, rfl, rfl⟩
  | cons l ls ih =>
    obtain ⟨hbody, hnet, hnext⟩ := ih hopen.2 fun e he => hs e (List.mem_cons_of_mem _ he)
    obtain ⟨hbody', hnet', hnext'⟩ := Intake.isBody_share (i := Entry.intake ⟨d, carry, l⟩)
      (Carry.verbatim_scanAtDepth carry d l) hopen.1 (hs _ List.mem_cons_self)
    change carry.netAll _ = carry.net l at hnet'
    change carry.nextAll _ = carry.next l at hnext'
    rw [Entry.ofLines, List.flatMap_cons, Carry.isBody_append, Carry.netAll_append,
      Carry.nextAll_append, hnet', hnext', hnet, hnext]
    exact ⟨⟨hbody', hbody⟩, rfl, rfl⟩

namespace Span

/-- Nothing that is dropped, moved or hidden matters for reading: the header's bracket counts, what
is kept of attributes is scanned like them, and what stands in front of the closing bracket opens no
here-document once it stands alone. -/
structure IsSettled (s : Span) : Prop where
  depth_eq : s.depth = 1
  attributes : ∀ i ∈ s.intakes, i.attribute?.any Attribute.isActive → i.IsSettled
  code_ends : ¬ (s.closing.carry.next s.closing.code).IsHeredoc

instance : DecidablePred IsSettled := fun s =>
  decidable_of_iff (s.depth = 1 ∧
      (∀ i ∈ s.intakes, i.attribute?.any Attribute.isActive → i.IsSettled) ∧
      ¬ (s.closing.carry.next s.closing.code).IsHeredoc)
    ⟨fun ⟨hdepth, hattributes, hcode⟩ => ⟨hdepth, hattributes, hcode⟩,
      fun h => ⟨h.depth_eq, h.attributes, h.code_ends⟩⟩

variable {s : Span}

theorem closedAt_isSome (hs : s.IsComplete) (hdepth : s.depth = 1) :
    s.closing.tally.closedAt.isSome := by
  have hpos : 0 < s.closing.depth := by
    apply hs.staysOpen.pos
    rw [hdepth]
    decide
  exact Carry.closedAt_isSome hpos hs.closes

theorem exists_closing (hs : s.IsComplete) (hdepth : s.depth = 1) : ∃ c ms,
    s.closing.carry.Cut s.closing.depth s.last s.closing.code c s.closing.rest ms := by
  obtain ⟨p, c, q, ms, hcut, -, hp⟩ := Entry.exists_cut (closedAt_isSome hs hdepth)
  rw [Entry.code, Entry.rest, hp]
  exact ⟨c, ms, hcut⟩

/-- In front of the closing bracket the declaration is at its own level and in code. -/
theorem isBody_codeShares (hs : s.IsComplete) (hsettled : s.IsSettled) :
    s.closing.carry.IsBody s.closing.depth (s.closing.codeIntakes.flatMap Intake.share) ∧
      s.closing.depth + s.closing.carry.netAll (s.closing.codeIntakes.flatMap Intake.share) = 1 ∧
      s.closing.carry.nextAll (s.closing.codeIntakes.flatMap Intake.share) = .code := by
  obtain ⟨c, ms, hcut⟩ := exists_closing hs hsettled.depth_eq
  have hintakes := fun i hi => hsettled.attributes i (List.mem_append_right _ hi)
  rw [Entry.codeIntakes] at hintakes ⊢
  by_cases hblank : isBlankText s.closing.code
  · obtain ⟨hcarry, hdepth⟩ := hcut.of_blank hblank
    rw [if_pos hblank, hcarry, hdepth]
    exact ⟨trivial, rfl, rfl⟩
  · rw [if_neg hblank] at hintakes ⊢
    obtain ⟨hnet, hnext⟩ := Carry.scan_trimEnd hcut.not_heredoc s.closing.code
    have hone := hcut.net_alone hsettled.code_ends
    obtain ⟨hbody, hnet', hnext'⟩ := Intake.isBody_share
      (i := ⟨s.closing.depth, s.closing.tally, trimEnd s.closing.code⟩)
      (Carry.verbatim_scanAtDepth _ _ _) (by rw [hnet, hone]; decide)
      (hintakes _ List.mem_cons_self)
    rw [List.flatMap_singleton]
    refine ⟨hbody, ?_, ?_⟩
    · rw [hnet', hnet, hone]
    · rw [hnext', hnext, hcut.next_alone hsettled.code_ends]

theorem isBody_body (hs : s.IsComplete) (hsettled : s.IsSettled) (number : Nat) :
    Carry.code.IsBody 1 (s.block number).body ∧ Carry.code.netAll (s.block number).body = 0 ∧
      Carry.code.nextAll (s.block number).body = .code := by
  have hentries : ∀ e ∈ s.entries,
      e.intake.attribute?.any Attribute.isActive → e.intake.IsSettled := fun e he =>
    hsettled.attributes _ (List.mem_append_left _ (List.mem_map_of_mem he))
  obtain ⟨hbody, hnet, hnext⟩ := isBody_shares hs.staysOpen hentries
  obtain ⟨hbody', hnet', hnext'⟩ := isBody_codeShares hs hsettled
  have hdepth : s.closing.depth = s.depth + Carry.code.netAll s.inner := rfl
  have hcarry : s.closing.carry = Carry.code.nextAll s.inner := rfl
  have hdepth_eq := hsettled.depth_eq
  rw [body_block, intakes, List.flatMap_append, List.flatMap_map, Carry.isBody_append,
    Carry.netAll_append, Carry.nextAll_append, entries, hnet, hnext, ← hcarry]
  rw [hdepth_eq] at hbody hdepth ⊢
  rw [← hdepth]
  exact ⟨⟨hbody, hbody'⟩, by omega, hnext'⟩

end Span

theorem Layout.isPattern_assignment (pad : Text) {base key value : Text} (hbase : isBlankText base)
    (hpad : isBlankText pad) (hvalue : '"' ∉ value) :
    Attribute.IsPattern key value (base ++ assignment (key ++ pad) value) := by
  have hequals : " = \"".toList = [' ', '=', ' ', '"'] := by decide
  have hquote : "\"".toList = ['"'] := by decide
  refine ⟨hvalue, base, pad ++ [' '], [' '], hbase, ?_, by decide, ?_⟩
  · rw [isBlankText_append]
    exact ⟨hpad, by decide⟩
  · rw [assignment, hequals, hquote]
    simp

namespace ModuleBlock

open Layout (unit assignment)

def settings (source : Text) (version : Option Text) (b : ModuleBlock) : List Text :=
  (b.indent ++ unit ++ assignment "source " source)
    :: (version.map fun v => b.indent ++ unit ++ assignment "version" v).toList

def rewritten (source : Text) (version : Option Text) (b : ModuleBlock) : Span where
  header := b.header
  inner := b.settings source version ++ paragraph (b.indent ++ unit) b.body
  last := b.footer

variable {b : ModuleBlock} {source : Text} {version : Option Text}

theorem lines_rewritten (source : Text) (version : Option Text) (b : ModuleBlock) :
    (b.rewritten source version).lines = b.render source version := rfl

theorem render_eq_cons (source : Text) (version : Option Text) (b : ModuleBlock) :
    b.render source version = b.header :: (b.settings source version
      ++ paragraph (b.indent ++ unit) b.body ++ [b.footer]) := rfl

theorem isPattern_source (hindent : isBlankText b.indent) (hsource : '"' ∉ source) :
    Attribute.IsPattern "source" source (b.indent ++ unit ++ assignment "source " source) :=
  Layout.isPattern_assignment " " (isBlankText_inner hindent) (by decide) hsource

theorem isPattern_version {v : Text} (hindent : isBlankText b.indent) (hv : '"' ∉ v) :
    Attribute.IsPattern "version" v (b.indent ++ unit ++ assignment "version" v) :=
  Layout.isPattern_assignment [] (isBlankText_inner hindent) (by decide) hv

theorem scan_of_mem_settings (hindent : isBlankText b.indent) (hsource : '"' ∉ source)
    (hversion : ∀ v ∈ version, '"' ∉ v) {l : Text} (hl : l ∈ b.settings source version) :
    Carry.code.net l = 0 ∧ Carry.code.next l = .code := by
  rcases List.mem_cons.mp hl with rfl | hl
  · obtain ⟨hnet, hnext, -⟩ :=
      Attribute.scan_pattern Attribute.isKey_source (isPattern_source hindent hsource)
    exact ⟨hnet, hnext⟩
  · obtain ⟨v, hv, rfl⟩ := Option.map_eq_some_iff.mp (Option.mem_toList.mp hl)
    obtain ⟨hnet, hnext, -⟩ :=
      Attribute.scan_pattern Attribute.isKey_version (isPattern_version hindent (hversion v hv))
    exact ⟨hnet, hnext⟩

theorem into_of_pattern {key value line : Text} (hkey : Attribute.IsKey key)
    (hp : Attribute.IsPattern key value line) (b : ModuleBlock) :
    Intake.into b (Entry.intake ⟨1, .code, line⟩) = b.absorb line none := by
  have hdirect : (Entry.intake ⟨1, .code, line⟩).IsDirect :=
    Entry.isDirect_intake_iff.mpr ⟨rfl, rfl⟩
  have hcomment : (Entry.intake ⟨1, .code, line⟩).tally.commentAt = none :=
    (Carry.commentAt_scanAtDepth _ _ _).trans (Attribute.scan_pattern hkey hp).2.2
  rw [Intake.into_of_direct hdirect, hcomment]
  rfl

theorem into_source {value line : Text} (hp : Attribute.IsPattern "source" value line)
    (b : ModuleBlock) :
    Intake.into b (Entry.intake ⟨1, .code, line⟩) = { b with source := some value } := by
  rw [into_of_pattern Attribute.isKey_source hp, absorb, Attribute.ofLine?_source hp]
  rfl

theorem into_version {value line : Text} (hp : Attribute.IsPattern "version" value line)
    (b : ModuleBlock) :
    Intake.into b (Entry.intake ⟨1, .code, line⟩) = { b with version := some value } := by
  rw [into_of_pattern Attribute.isKey_version hp, absorb, Attribute.ofLine?_version hp]
  rfl

theorem foldl_settings (hindent : isBlankText b.indent) (hsource : '"' ∉ source)
    (hversion : ∀ v ∈ version, '"' ∉ v) (start : ModuleBlock) :
    ((b.settings source version).map fun l => Entry.intake ⟨1, .code, l⟩).foldl Intake.into start
      = { start with source := some source, version := version.or start.version } := by
  rw [settings, List.map_cons, List.foldl_cons, into_source (isPattern_source hindent hsource)]
  cases version with
  | none => rfl
  | some v => exact into_version (isPattern_version hindent (hversion v rfl)) _

theorem flatMap_share_settings (hindent : isBlankText b.indent) (hsource : '"' ∉ source)
    (hversion : ∀ v ∈ version, '"' ∉ v) : ((b.settings source version).map fun l =>
      Entry.intake ⟨1, .code, l⟩).flatMap Intake.share = [] := by
  have hbody := congrArg ModuleBlock.body (foldl_settings hindent hsource hversion b)
  rw [Intake.body_foldl_into] at hbody
  exact List.append_right_eq_self.mp hbody

theorem paragraph_eq (base : Text) (body : List Text) : paragraph base body
    = if Layout.reindent base body = [] then [] else [] :: Layout.reindent base body := by
  rw [paragraph]
  cases Layout.reindent base body <;> rfl

theorem paragraph_nil (base : Text) : paragraph base [] = [] := rfl

theorem paragraph_paragraph {base : Text} (hbase : isBlankText base) (body : List Text) :
    paragraph base (paragraph base body) = paragraph base body := by
  have hagain : Layout.reindent base (paragraph base body) = Layout.reindent base body := by
    rw [paragraph_eq]
    split
    · next h => rw [h]; rfl
    · rw [Layout.reindent, List.dropWhile_cons_of_pos isBlankText_nil, ← Layout.reindent,
        Layout.reindent_reindent hbase]
  rw [paragraph_eq, hagain, ← paragraph_eq]

theorem isBody_paragraph {base : Text} {body : List Text} (hbase : isBlankText base)
    (hbody : Carry.code.IsBody 1 body) (hnet : Carry.code.netAll body = 0)
    (hnext : Carry.code.nextAll body = .code) : Carry.code.IsBody 1 (paragraph base body) ∧
      Carry.code.netAll (paragraph base body) = 0 ∧
      Carry.code.nextAll (paragraph base body) = .code := by
  have htwins := Layout.twins_reindentFrom hbase .code 0 (body.dropWhile isBlankText)
  obtain ⟨hnet', hnext', hbody'⟩ := Carry.dropWhile_blank 1 body
  have hlaid : Carry.code.IsBody 1 (Layout.reindent base body) := (hbody' hbody).twins htwins
  have hlaidNet : Carry.code.netAll (Layout.reindent base body) = 0 :=
    htwins.netAll_eq.trans (hnet'.trans hnet)
  have hlaidNext : Carry.code.nextAll (Layout.reindent base body) = .code :=
    htwins.nextAll_eq.trans (hnext'.trans hnext)
  rw [paragraph_eq]
  split
  · exact ⟨trivial, rfl, rfl⟩
  · refine ⟨⟨by decide, fun _ _ => rfl, hlaid⟩, ?_, hlaidNext⟩
    exact (Int.zero_add _).trans hlaidNet

def tail (b : ModuleBlock) : Text :=
  match b.trailer with
  | some trailer => ' ' :: trailer
  | none => []

theorem footer_eq (b : ModuleBlock) : b.footer = b.indent ++ '}' :: b.tail := by
  have hbrace : r"}".toList = ['}'] := by decide
  have hbrace' : r"} ".toList = ['}', ' '] := by decide
  rw [footer, tail]
  cases b.trailer with
  | none => rw [hbrace]
  | some trailer =>
    rw [hbrace']
    exact List.append_assoc _ _ _

theorem cut_brace {v : Text} (hv : isBlankText v) (t : Text) :
    Carry.code.Cut 1 (v ++ '}' :: t) v '}' t [] :=
  ⟨id, rfl, rfl, .code_blank hv _ _, rfl⟩

theorem cut_tally_brace {v : Text} (hv : isBlankText v) (t : Text) :
    cut (Carry.code.scanAtDepth 1 (v ++ '}' :: t)).1 (v ++ '}' :: t) = (v, t) := by
  have hclosed : (Carry.code.scanAtDepth 1 (v ++ '}' :: t)).1.closedAt = some (byteLength v) := by
    rw [Carry.closedAt_eq id, Carry.marksOf, (cut_brace hv t).marks_eq]
    rfl
  simp only [cut, hclosed, Option.bind_some]
  rw [splitAt?_append]
  rfl

theorem cut_footer (hindent : isBlankText b.indent) :
    Carry.code.Cut 1 b.footer b.indent '}' b.tail [] := by
  rw [footer_eq]
  exact cut_brace hindent b.tail

theorem cut_tally_footer (hindent : isBlankText b.indent) :
    cut (Carry.code.scanAtDepth 1 b.footer).1 b.footer = (b.indent, b.tail) := by
  rw [footer_eq]
  exact cut_tally_brace hindent b.tail

theorem scan_tail (b : ModuleBlock) : Carry.code.net b.tail = Carry.code.net (b.trailer.getD []) ∧
    Carry.code.next b.tail = Carry.code.next (b.trailer.getD []) ∧
    trim b.tail = trim (b.trailer.getD []) := by
  rw [tail]
  cases b.trailer with
  | none => exact ⟨rfl, rfl, rfl⟩
  | some trailer =>
    have hblank : isBlankText [' '] := by decide
    have hnet := Carry.net_code_append_blanks hblank trailer (w := []) rfl
    have hnext := Carry.next_code_append_blanks hblank trailer (w := []) rfl
    rw [List.append_nil] at hnet hnext
    exact ⟨hnet, hnext, trim_append_left hblank trailer⟩

/-- A declaration whose parts can be told apart again once they are written. -/
structure IsRegular (b : ModuleBlock) : Prop where
  header_eq : Header.ofLine? b.header = some ⟨b.indent, b.name⟩
  depth_eq : Carry.code.net b.header = 1
  isBody : Carry.code.IsBody 1 b.body
  netAll_eq : Carry.code.netAll b.body = 0
  nextAll_eq : Carry.code.nextAll b.body = .code
  trailer : ∀ t ∈ b.trailer, t ≠ [] ∧ trim t = t ∧ Carry.code.net t ≤ 0

/-- A regular declaration with texts that can stand between quotes. -/
structure IsWritable (source : Text) (version : Option Text) (b : ModuleBlock) : Prop where
  regular : b.IsRegular
  source : '"' ∉ source
  version : ∀ v ∈ version, '"' ∉ v

theorem IsRegular.isBlankText_indent (h : b.IsRegular) : isBlankText b.indent := by
  obtain ⟨v, w, x, hindent, -⟩ := Header.exists_eq_append h.header_eq
  exact hindent

theorem IsRegular.scan_tail (h : b.IsRegular) :
    nonempty? (trim b.tail) = b.trailer ∧ Carry.code.net b.tail ≤ 0 := by
  obtain ⟨hnet, -, htrim⟩ := b.scan_tail
  rw [hnet, htrim]
  cases ht : b.trailer with
  | none => exact ⟨rfl, Int.le_refl 0⟩
  | some t =>
    obtain ⟨hne, htrim, hnet⟩ := h.trailer t ht
    rw [Option.getD_some, htrim]
    exact ⟨nonempty?_eq_some_iff.mpr ⟨rfl, hne⟩, hnet⟩

theorem inner_rewritten (h : b.IsWritable source version) :
    Carry.code.StaysOpen 1 (b.rewritten source version).inner ∧
      Carry.code.netAll (b.rewritten source version).inner = 0 ∧
      Carry.code.nextAll (b.rewritten source version).inner = .code ∧
      (b.rewritten source version).entries
        = (b.settings source version).map (fun l => ⟨1, .code, l⟩)
          ++ Entry.ofLines 1 .code (paragraph (b.indent ++ unit) b.body) := by
  have hindent := h.regular.isBlankText_indent
  have hdepth : (b.rewritten source version).depth = 1 := h.regular.depth_eq
  obtain ⟨hbody, hnet, hnext⟩ := isBody_paragraph (isBlankText_inner hindent) h.regular.isBody
    h.regular.netAll_eq h.regular.nextAll_eq
  obtain ⟨hopen, hnetAll, hnextAll, hentries⟩ := Carry.of_scan 1 (by decide)
    fun l hl => scan_of_mem_settings hindent h.source h.version hl
  rw [Span.entries, hdepth, rewritten]
  simp only [Carry.staysOpen_append, Carry.netAll_append, Carry.nextAll_append,
    Entry.ofLines_append, hnetAll, hnextAll, hentries, Int.add_zero, Int.zero_add]
  exact ⟨⟨hopen, hbody.staysOpen⟩, hnet, hnext, trivial⟩

theorem closing_rewritten (h : b.IsWritable source version) :
    (b.rewritten source version).closing = ⟨1, .code, b.footer⟩ := by
  obtain ⟨-, hnet, hnext, -⟩ := inner_rewritten h
  have hdepth : (b.rewritten source version).depth = 1 := h.regular.depth_eq
  rw [Span.closing, hdepth, hnet, hnext]
  rfl

theorem isComplete_rewritten (h : b.IsWritable source version) :
    (b.rewritten source version).IsComplete := by
  obtain ⟨hopen, -, -, -⟩ := inner_rewritten h
  have hdepth : (b.rewritten source version).depth = 1 := h.regular.depth_eq
  refine ⟨?_, ?_, ?_⟩
  · exact Option.isSome_of_eq_some h.regular.header_eq
  · rw [hdepth]
    exact hopen
  · have hcut := cut_footer h.regular.isBlankText_indent
    have htail := h.regular.scan_tail.2
    rw [closing_rewritten h]
    change 1 + Carry.code.net b.footer ≤ 0
    rw [hcut.net_eq]
    omega

theorem carry_rewritten (h : b.IsWritable source version) :
    (b.rewritten source version).carry = Carry.code.next b.tail := by
  rw [Span.carry, closing_rewritten h]
  exact (cut_footer h.regular.isBlankText_indent).next_eq

theorem cut_rewritten (h : b.IsWritable source version) :
    (b.rewritten source version).closing.code = b.indent ∧
      (b.rewritten source version).closing.rest = b.tail := by
  have hcut := cut_tally_footer h.regular.isBlankText_indent
  rw [closing_rewritten h, Entry.code, Entry.rest]
  change (cut (Carry.code.scanAtDepth 1 b.footer).1 _).1 = _ ∧
    (cut (Carry.code.scanAtDepth 1 b.footer).1 _).2 = _
  rw [hcut]
  exact ⟨rfl, rfl⟩

theorem block_rewritten (h : b.IsWritable source version) (number : Nat) :
    (b.rewritten source version).block number = { b with
      startLine := number
      endLine := number + (b.rewritten source version).inner.length + 1
      source := some source
      commentedSource := none
      version := version
      body := paragraph (b.indent ++ unit) b.body } := by
  have hindent := h.regular.isBlankText_indent
  obtain ⟨hcode, hrest⟩ := cut_rewritten h
  obtain ⟨-, -, -, hentries⟩ := inner_rewritten h
  obtain ⟨hbody, -, -⟩ := isBody_paragraph (isBlankText_inner hindent) h.regular.isBody
    h.regular.netAll_eq h.regular.nextAll_eq
  have hintakes : (b.rewritten source version).intakes
      = (b.settings source version).map (fun l => Entry.intake ⟨1, .code, l⟩)
        ++ (Entry.ofLines 1 .code (paragraph (b.indent ++ unit) b.body)).map Entry.intake := by
    rw [Span.intakes, Entry.codeIntakes, hcode, if_pos hindent, hentries, List.append_nil,
      List.map_append, List.map_map]
    rfl
  have hstart : (b.rewritten source version).start number
      = .ofHeader number b.header ⟨b.indent, b.name⟩ := by
    rw [Span.start]
    change ofHeader number b.header ((Header.ofLine? b.header).getD _) = _
    rw [h.regular.header_eq, Option.getD_some]
  rw [Span.block_eq, hintakes, List.foldl_append, foldl_settings hindent h.source h.version,
    hbody.foldl_into, hrest, h.regular.scan_tail.1, hstart]
  simp only [ofHeader, List.nil_append, Option.or_none]

theorem render_rewritten (h : b.IsWritable source version) (number : Nat) (source' : Text)
    (version' : Option Text) :
    ((b.rewritten source version).block number).render source' version'
      = b.render source' version' := by
  have hbase := isBlankText_inner h.regular.isBlankText_indent
  rw [block_rewritten h]
  simp only [render_eq, lead, footer, paragraph_paragraph hbase]

end ModuleBlock

namespace Span

variable {s : Span}

theorem scan_trailer (number : Nat) (s : Span) :
    Carry.code.net ((s.block number).trailer.getD []) = Carry.code.net s.closing.rest ∧
      Carry.code.next ((s.block number).trailer.getD []) = Carry.code.next s.closing.rest := by
  have htrailer : (s.block number).trailer.getD [] = trim s.closing.rest := by
    rw [trailer_block]
    by_cases hnil : trim s.closing.rest = []
    · rw [hnil]
      rfl
    · rw [nonempty?_eq_some_iff.mpr ⟨rfl, hnil⟩, Option.getD_some]
  rw [htrailer]
  exact ⟨Carry.net_code_trim _, Carry.next_code_trim _⟩

theorem header_eq_block (hs : s.IsComplete) (number : Nat) :
    Header.ofLine? (s.block number).header
      = some ⟨(s.block number).indent, (s.block number).name⟩ := by
  obtain ⟨h, hh⟩ := Option.isSome_iff_exists.mp hs.header_isSome
  rw [header_block, indent_block, name_block, hh]
  rfl

theorem trailer_block_spec (hs : s.IsComplete) (hdepth : s.depth = 1) (number : Nat) :
    ∀ t ∈ (s.block number).trailer, t ≠ [] ∧ trim t = t ∧ Carry.code.net t ≤ 0 := by
  intro t ht
  obtain ⟨c, ms, hcut⟩ := exists_closing hs hdepth
  have hcloses : s.closing.depth + s.closing.carry.net s.last ≤ 0 := hs.closes
  have hrest := (scan_trailer number s).1
  rw [ht, Option.getD_some] at hrest
  rw [trailer_block] at ht
  obtain ⟨rfl, hne⟩ := nonempty?_eq_some_iff.mp ht
  rw [hcut.net_eq] at hcloses
  exact ⟨hne, trim_trim _, by omega⟩

theorem isRegular_block (hs : s.IsComplete) (hsettled : s.IsSettled) (number : Nat) :
    (s.block number).IsRegular := by
  obtain ⟨hbody, hnet, hnext⟩ := isBody_body hs hsettled number
  refine ⟨header_eq_block hs number, ?_, hbody, hnet, hnext,
    trailer_block_spec hs hsettled.depth_eq number⟩
  rw [header_block]
  exact hsettled.depth_eq

theorem carry_rewritten {source : Text} {version : Option Text} (hs : s.IsComplete)
    (hdepth : s.depth = 1) {number : Nat} (h : (s.block number).IsWritable source version) :
    ((s.block number).rewritten source version).carry = s.carry := by
  obtain ⟨c, ms, hcut⟩ := exists_closing hs hdepth
  rw [ModuleBlock.carry_rewritten h, (s.block number).scan_tail.2.1, (scan_trailer number s).2]
  exact hcut.next_eq.symm

end Span

end SourceSwitch
