import SourceSwitch.Proofs.Block.Intake
import SourceSwitch.Proofs.Block.Layout
import SourceSwitch.Proofs.Text.Lines

namespace SourceSwitch

open Text (IsLine Ending isBlankText trim)

variable {e : Ending} {t l : Text}

namespace Text

theorem isLine_of_not_blank (hn : '\n' ∉ t) (h : ∀ c, t.getLast? = some c → ¬ isBlank c) :
    IsLine e t := by
  refine ⟨hn, fun _ hr => ?_⟩
  exact h _ hr (by decide)

theorem isLine_trim (hn : '\n' ∉ t) : IsLine e (trim t) :=
  isLine_of_not_blank (fun h => hn ((trim_sublist t).subset h)) fun _ => getLast?_trim_not_blank

theorem isLine_trimEnd (hn : '\n' ∉ t) : IsLine e (trimEnd t) :=
  isLine_of_not_blank (fun h => hn ((trimEnd_sublist t).subset h)) fun _ =>
    getLast?_trimEnd_not_blank

theorem isLine_append {v : Text} (hv : '\n' ∉ v) (ht : IsLine e t) (hne : t ≠ []) :
    IsLine e (v ++ t) := by
  refine ⟨?_, fun he => ?_⟩
  · rw [List.mem_append, not_or]
    exact ⟨hv, ht.newline_not_mem⟩
  · rw [List.getLast?_append, Option.or_of_isSome (List.getLast?_isSome.mpr hne)]
    exact ht.not_return he

theorem isLine_nil : IsLine e [] := ⟨List.not_mem_nil, fun _ => by simp⟩

end Text

namespace Layout

open Text

theorem newline_not_mem_indentation (depth : Nat) : '\n' ∉ indentation depth := by
  induction depth with
  | zero => exact List.not_mem_nil
  | succ depth ih =>
    rw [indentation, List.replicate_succ, List.flatten_cons, List.mem_append, not_or]
    exact ⟨by decide, ih⟩

theorem isLine_assignment {key value : Text} (hkey : '\n' ∉ key) (hvalue : '\n' ∉ value) :
    IsLine e (assignment key value) := by
  refine isLine_append ?_ (t := "\"") ⟨by decide, fun _ => by decide⟩ (by decide)
  simp only [List.mem_append, not_or]
  exact ⟨⟨hkey, by decide⟩, hvalue⟩

theorem isLine_of_mem_reindentFrom {base : Text} {carry : Bracket.Carry} {depth : Nat}
    {ls : List Text} (hbase : '\n' ∉ base) (hls : ∀ l ∈ ls, IsLine e l)
    (h : l ∈ reindentFrom base carry depth ls) : IsLine e l := by
  induction ls generalizing carry depth with
  | nil => cases h
  | cons l' ls ih =>
    have hrest : ∀ l ∈ ls, IsLine e l := by
      intro l hl
      exact hls l (List.mem_cons_of_mem l' hl)
    have hl' := hls l' List.mem_cons_self
    by_cases hc : carry = .code
    · subst hc
      by_cases hblank : isBlankText l'
      · rw [reindentFrom_blank hblank] at h
        rcases List.mem_cons.mp h with rfl | h
        · exact isLine_nil
        · exact ih hrest h
      · rw [reindentFrom_code hblank] at h
        rcases List.mem_cons.mp h with rfl | h
        · refine isLine_append ?_ (isLine_trim hl'.newline_not_mem)
            (fun ht => hblank (trim_eq_nil_iff.mp ht))
          rw [List.mem_append, not_or]
          exact ⟨hbase, newline_not_mem_indentation _⟩
        · exact ih hrest h
    · rw [reindentFrom_verbatim hc] at h
      rcases List.mem_cons.mp h with rfl | h
      · exact hl'
      · exact ih hrest h

theorem isLine_of_mem_paragraph {base : Text} {body : List Text} (hbase : '\n' ∉ base)
    (hbody : ∀ l ∈ body, IsLine e l) (h : l ∈ ModuleBlock.paragraph base body) : IsLine e l := by
  have hlaid {l : Text} (hl : l ∈ reindent base body) : IsLine e l :=
    isLine_of_mem_reindentFrom hbase
      (fun l hl => hbody l ((List.dropWhile_sublist _).subset hl)) hl
  rw [ModuleBlock.paragraph] at h
  cases hr : reindent base body with
  | nil => rw [hr] at h; cases h
  | cons l' ls =>
    rw [hr] at h hlaid
    rcases List.mem_cons.mp h with rfl | h
    · exact isLine_nil
    · exact hlaid h

end Layout

namespace ModuleBlock

theorem cut_sublist (tally : Bracket.Tally) (line : Text) :
    (cut tally line).1.Sublist line ∧ (cut tally line).2.Sublist line := by
  unfold cut
  cases h : tally.closedAt.bind (Text.splitAt? · line) with
  | none => exact ⟨List.nil_sublist _, List.nil_sublist _⟩
  | some parts =>
    obtain ⟨k, -, hk⟩ := Option.bind_eq_some_iff.mp h
    obtain ⟨rfl, -⟩ := Text.eq_append_of_splitAt? hk
    exact ⟨List.sublist_append_left _ _,
      (List.drop_sublist 1 _).trans (List.sublist_append_right _ _)⟩

end ModuleBlock

namespace Intake

variable {i : Intake}

theorem eq_or_comment_of_mem_share (h : l ∈ i.share) :
    l = i.line ∨ ModuleBlock.comment? i.line i.tally.commentAt = some l := by
  unfold share at h
  split at h
  · exact .inr (Option.mem_toList.mp h)
  · exact .inr (Option.mem_toList.mp h)
  · cases h
  · cases h
  · exact .inl (List.mem_singleton.mp h)

theorem exists_of_comment? {line : Text} {at? : Option Nat}
    (h : ModuleBlock.comment? line at? = some t) :
    ∃ before tail, line = before ++ tail ∧ t = trim tail ∧ t ≠ [] := by
  obtain ⟨k, -, h⟩ := Option.bind_eq_some_iff.mp h
  obtain ⟨⟨before, tail⟩, hsplit, h⟩ := Option.bind_eq_some_iff.mp h
  obtain ⟨ht, hne⟩ := Text.nonempty?_eq_some_iff.mp h
  exact ⟨before, tail, (Text.eq_append_of_splitAt? hsplit).1, ht.symm, hne⟩

theorem isLine_of_mem_share (hi : IsLine e i.line) (h : l ∈ i.share) : IsLine e l := by
  rcases eq_or_comment_of_mem_share h with rfl | h
  · exact hi
  · obtain ⟨before, tail, hline, rfl, -⟩ := exists_of_comment? h
    refine Text.isLine_trim fun hn => hi.newline_not_mem ?_
    rw [hline]
    exact List.mem_append_right before hn

end Intake

namespace Span

/-- The span's lines can be joined; an ending may be missing behind the last one. -/
structure IsJoinable (e : Ending) (s : Span) : Prop where
  header : IsLine e s.header
  inner : ∀ l ∈ s.inner, IsLine e l
  last : '\n' ∉ s.last

variable {s : Span} {number : Nat}

theorem line_mem_of_mem_ofLines {d : Int} {carry : Bracket.Carry} {ls : List Text} {x : Entry}
    (h : x ∈ Entry.ofLines d carry ls) : x.line ∈ ls := by
  induction ls generalizing d carry with
  | nil => cases h
  | cons l ls ih =>
    rcases List.mem_cons.mp h with rfl | h
    · exact List.mem_cons_self
    · exact List.mem_cons_of_mem l (ih h)

theorem isLine_of_mem_intakes (hs : s.IsJoinable e) {i : Intake} (hi : i ∈ s.intakes) :
    IsLine e i.line := by
  rcases List.mem_append.mp hi with hi | hi
  · obtain ⟨x, hx, rfl⟩ := List.mem_map.mp hi
    exact hs.inner _ (line_mem_of_mem_ofLines hx)
  · rw [Entry.codeIntakes] at hi
    split at hi
    · cases hi
    · obtain rfl := List.mem_singleton.mp hi
      exact Text.isLine_trimEnd fun hn => hs.last ((ModuleBlock.cut_sublist _ _).1.subset hn)

theorem source_block_spec {value : Text} (h : (s.block number).source = some value) :
    '"' ∉ value ∧ ∃ i ∈ s.intakes, ∀ c ∈ value, c ∈ i.line := by
  rw [source_block] at h
  rcases Intake.exists_of_source_foldl_into h with h | ⟨i, hi, h⟩
  · cases h
  · obtain ⟨-, ha⟩ := Intake.direct_of_attribute? h
    obtain ⟨p, rest, -, hp, hline⟩ := Attribute.exists_pattern (Attribute.value?_of_source ha)
    refine ⟨hp.quote_not_mem, i, hi, fun c hc => ?_⟩
    obtain ⟨u, v, w, -, -, -, rfl⟩ := hp.eq_append
    rw [hline]
    simp [hc]

theorem newline_not_mem_source (hs : s.IsJoinable e) {value : Text}
    (h : (s.block number).source = some value) : '\n' ∉ value := by
  obtain ⟨-, i, hi, hmem⟩ := source_block_spec h
  intro hn
  exact (isLine_of_mem_intakes hs hi).newline_not_mem (hmem _ hn)

theorem isLine_of_mem_body (hs : s.IsJoinable e) (h : l ∈ (s.block number).body) : IsLine e l := by
  rw [body_block] at h
  obtain ⟨i, hi, hl⟩ := List.mem_flatMap.mp h
  exact Intake.isLine_of_mem_share (isLine_of_mem_intakes hs hi) hl

theorem newline_not_mem_indent (hs : s.IsJoinable e) : '\n' ∉ (s.block number).indent := by
  rw [indent_block]
  cases h : Header.ofLine? s.header with
  | none => exact List.not_mem_nil
  | some h' =>
    obtain ⟨v, w, x, -, -, -, -, -, hline⟩ := Header.exists_eq_append h
    intro hn
    apply hs.header.newline_not_mem
    rw [hline]
    simp only [List.append_assoc]
    exact List.mem_append_left _ hn

theorem footer_ne_nil (b : ModuleBlock) : b.footer ≠ [] := by
  rw [ModuleBlock.footer]
  cases b.trailer <;> simp

theorem isLine_footer (hs : s.IsJoinable e) : IsLine e (s.block number).footer := by
  have hindent : '\n' ∉ (s.block number).indent := newline_not_mem_indent hs
  rw [ModuleBlock.footer]
  cases h : (s.block number).trailer with
  | none => exact Text.isLine_append hindent ⟨by decide, fun _ => by decide⟩ (by decide)
  | some trailer =>
    rw [trailer_block] at h
    obtain ⟨rfl, hne⟩ := Text.nonempty?_eq_some_iff.mp h
    refine Text.isLine_append ?_ (Text.isLine_trim fun hn => ?_) hne
    · rw [List.mem_append, not_or]
      exact ⟨hindent, by decide⟩
    · exact hs.last ((ModuleBlock.cut_sublist _ _).2.subset hn)

theorem isLine_of_mem_lead (hs : s.IsJoinable e) {source : Text} {version : Option Text}
    (hsource : '\n' ∉ source) (hversion : ∀ v ∈ version, '\n' ∉ v)
    (h : l ∈ (s.block number).lead source version) : IsLine e l := by
  have hinner : '\n' ∉ (s.block number).indent ++ Layout.unit := by
    rw [List.mem_append, not_or]
    exact ⟨newline_not_mem_indent hs, by decide⟩
  have hassignment {key value : Text} (hkey : '\n' ∉ key) (hvalue : '\n' ∉ value) :
      IsLine e ((s.block number).indent ++ Layout.unit ++ Layout.assignment key value) :=
    Text.isLine_append hinner (Layout.isLine_assignment hkey hvalue) (by simp [Layout.assignment])
  rw [ModuleBlock.lead] at h
  rcases List.mem_append.mp h with h | h
  · rcases List.mem_cons.mp h with rfl | h
    · rw [header_block]
      exact hs.header
    · obtain rfl := List.mem_singleton.mp h
      exact hassignment (by decide) hsource
  · obtain ⟨v, hv, rfl⟩ := Option.map_eq_some_iff.mp (Option.mem_toList.mp h)
    exact hassignment (by decide) (hversion v hv)

theorem isLine_of_mem_render (hs : s.IsJoinable e) {source : Text} {version : Option Text}
    (hsource : '\n' ∉ source) (hversion : ∀ v ∈ version, '\n' ∉ v)
    (h : l ∈ (s.block number).render source version) : IsLine e l := by
  rw [ModuleBlock.render_eq] at h
  rcases List.mem_append.mp h with h | h
  · rcases List.mem_append.mp h with h | h
    · exact isLine_of_mem_lead hs hsource hversion h
    · refine Layout.isLine_of_mem_paragraph ?_ (fun l hl => isLine_of_mem_body hs hl) h
      rw [List.mem_append, not_or]
      exact ⟨newline_not_mem_indent hs, by decide⟩
  · obtain rfl := List.mem_singleton.mp h
    exact isLine_footer hs

end Span

end SourceSwitch
