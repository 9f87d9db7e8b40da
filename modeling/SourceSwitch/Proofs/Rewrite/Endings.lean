import Mathlib.Data.List.Nodup
import SourceSwitch.Proofs.Rewrite.Isolation

namespace SourceSwitch

open Text (Fits IsUniform Line endsLine)

namespace Text

variable {t : Text} {l : Line}

def IsMixed (t : Text) : Prop := hasCrlf t ∧ ∃ l ∈ Line.split t, l.ending = .lf

/-- The line with its ending in a text that has one ending for all lines. -/
def Line.settled (crlf : Bool) (l : Line) : Line :=
  ⟨l.body, if l.ending = .lf ∧ crlf then .crlf else l.ending⟩

theorem isUniform_endingOf_iff (t : Text) : IsUniform (endingOf t) t ↔ ¬ IsMixed t := by
  rw [IsMixed, endingOf]
  by_cases h : hasCrlf t
  · rw [if_pos h]
    constructor
    · rintro huniform ⟨-, l, hl, hlf⟩
      rcases huniform l hl with he | he <;> rw [hlf] at he <;> cases he
    · intro hmixed l hl
      cases he : l.ending with
      | lf => exact absurd ⟨h, l, hl, he⟩ hmixed
      | crlf => exact .inl rfl
      | none => exact .inr rfl
  · rw [if_neg h]
    refine iff_of_true ?_ fun hmixed => h hmixed.1
    intro l hl
    cases he : l.ending with
    | lf => exact .inl rfl
    | crlf => exact absurd (List.any_eq_true.mpr ⟨l, hl, by simp [he]⟩) h
    | none => exact .inr rfl

theorem Line.settled_eq (hl : l ∈ Line.split t) :
    l.settled (hasCrlf t) = ⟨l.body, if l.ending ≠ .none then endingOf t else .none⟩ := by
  rw [settled, endingOf]
  cases he : l.ending with
  | lf => cases hasCrlf t <;> simp
  | crlf =>
    have h : hasCrlf t = true := List.any_eq_true.mpr ⟨l, hl, by simp [he]⟩
    simp [h]
  | none => simp

end Text

namespace Edit

def replacement? (e : Edit) : Option (List Text) :=
  match e.verdict with
  | .rewrite source version => some (e.block.render source version)
  | .keep | .unresolved _ => none

def replacements (es : List Edit) (b : ModuleBlock) : Option (List Text) :=
  (es.find? (·.block = b)).bind replacement?

/-- The line at an index belongs to no declaration that is written anew. -/
def Spares (es : List Edit) (index : Nat) : Prop :=
  ∀ e ∈ es, e.block.covers index → e.replacement? = none

instance (es : List Edit) (index : Nat) : Decidable (Spares es index) :=
  inferInstanceAs (Decidable (∀ e ∈ es, e.block.covers index → e.replacement? = none))

/-- How many lines come out in front of the place of the line at an index. -/
def landing (es : List Edit) (lines : List Text) (index : Nat) : Nat :=
  ((lines.zipIdx.take index).flatMap (replacementAt (replacements es) (es.map (·.block)))).length

variable {es : List Edit} {e : Edit} {lines : List Text} {index : Nat} {l : Text}

theorem lines_eq_getD (e : Edit) : e.lines = e.replacement?.getD e.before := by
  rw [Edit.lines, replacement?]
  cases e.verdict <;> rfl

theorem replacement?_of (mode : Mode) (reply : Coordinates → Reply) (lines : List Text)
    (b : ModuleBlock) :
    (Edit.of mode reply lines b).replacement? = mode.replacement? reply b := by
  rw [replacement?, verdict_of, Mode.replacement?, Mode.verdict]
  by_cases hq : mode.qualifies b
  · rw [if_pos hq, if_pos hq]
    cases mode.newVersion reply b <;> rfl
  · rw [if_neg hq, if_neg hq]

theorem exists_of_replacements {b : ModuleBlock} {ls : List Text}
    (h : replacements es b = some ls) : ∃ e ∈ es, e.block = b ∧ e.replacement? = some ls := by
  obtain ⟨e, he, hls⟩ := Option.bind_eq_some_iff.mp h
  exact ⟨e, List.mem_of_find?_eq_some he, by simpa using List.find?_some he, hls⟩

theorem replacements_eq (hes : (es.map (·.block)).Nodup) (he : e ∈ es) :
    replacements es e.block = e.replacement? := by
  have hfind : (es.find? (·.block = e.block)).isSome := by
    rw [List.find?_isSome]
    exact ⟨e, he, by simp⟩
  obtain ⟨e', he'⟩ := Option.isSome_iff_exists.mp hfind
  have heq : e'.block = e.block := by simpa using List.find?_some he'
  obtain rfl := List.inj_on_of_nodup_map hes (List.mem_of_find?_eq_some he') he heq
  rw [replacements, he']
  rfl

theorem replacementAt_of_spares (h : Spares es index) (l : Text) :
    replacementAt (replacements es) (es.map (·.block)) (l, index) = [l] := by
  simp only [replacementAt]
  cases hfind : (es.map (·.block)).find? (·.covers index) with
  | none => rfl
  | some b =>
    have hcovers := List.find?_some hfind
    cases hb : replacements es b with
    | none => simp only [hb]
    | some ls =>
      obtain ⟨e, he, rfl, hls⟩ := exists_of_replacements hb
      rw [h e he hcovers] at hls
      cases hls

theorem replacementAt_ne_nil (hes : ∀ e ∈ es, e.replacement? ≠ some []) (h : Spares es index)
    (l : Text) : replacementAt (replacements es) (es.map (·.block)) (l, index + 1) ≠ [] := by
  simp only [replacementAt]
  cases hfind : (es.map (·.block)).find? (·.covers (index + 1)) with
  | none => exact List.cons_ne_nil _ _
  | some b =>
    have hcovers := List.find?_some hfind
    cases hb : replacements es b with
    | none =>
      simp only [hb]
      exact List.cons_ne_nil _ _
    | some ls =>
      obtain ⟨e, he, rfl, hls⟩ := exists_of_replacements hb
      have hnot : ¬ e.block.covers index := by
        intro hbefore
        rw [h e he hbefore] at hls
        cases hls
      have hfirst : index + 1 = e.block.firstIndex := by
        simp [ModuleBlock.covers] at hcovers hnot
        omega
      simp only [hb, if_pos hfirst]
      rintro rfl
      exact hes e he hls

/-- Where a copied line comes out, and that it is the last one only if it was. -/
theorem exists_overlay_eq (hes : ∀ e ∈ es, e.replacement? ≠ some []) (hl : lines[index]? = some l)
    (h : Spares es index) : ∃ v w, overlay (replacements es)
    (es.map (·.block)) lines = v ++ l :: w ∧
      v.length = landing es lines index ∧ (w = [] ↔ index + 1 = lines.length) := by
  obtain ⟨hlt, rfl⟩ := List.getElem?_eq_some_iff.mp hl
  have hsplit : lines.zipIdx = lines.zipIdx.take index
      ++ (lines[index], index) :: lines.zipIdx.drop (index + 1) := by
    have hdrop := List.drop_eq_getElem_cons (l := lines.zipIdx) (by simpa using hlt)
    rw [List.getElem_zipIdx, Nat.zero_add] at hdrop
    rw [← hdrop, List.take_append_drop]
  refine ⟨_, (lines.zipIdx.drop (index + 1)).flatMap
    (replacementAt (replacements es) (es.map (·.block))), ?_, rfl, ?_⟩
  · rw [overlay]
    conv_lhs => rw [hsplit]
    rw [List.flatMap_append, List.flatMap_cons, replacementAt_of_spares h]
    rfl
  · constructor
    · intro hnil
      by_contra hne
      have hlt' : index + 1 < lines.length := by omega
      rw [List.drop_eq_getElem_cons (by simpa using hlt'), List.flatMap_cons,
        List.append_eq_nil_iff] at hnil
      simp only [List.getElem_zipIdx, Nat.zero_add] at hnil
      exact replacementAt_ne_nil hes h _ hnil.1
    · intro hlast
      rw [List.drop_eq_nil_of_le (by simp [hlast])]
      rfl

end Edit

section Transform

variable {σ : Type} {ask : Lookup σ} {mode : Mode} {content : Text} {s : σ} {ps : List Piece}

theorem nodup_blocks_editsOf (ask : Lookup σ) (mode : Mode) (content : Text) (s : σ) :
    ((editsOf ask mode content s).map (·.block)).Nodup := by
  rw [blocks_editsOf]
  exact nodup_readBlocks (Text.lines content)

theorem lines_of_mem_editsOf {e : Edit} (he : e ∈ editsOf ask mode content s) : e.lines
    = (Edit.replacements (editsOf ask mode content s) e.block).getD
        (e.block.slice (Text.lines content)) := by
  rw [Edit.replacements_eq (nodup_blocks_editsOf ask mode content s) he, Edit.lines_eq_getD]
  obtain ⟨reply, b, rfl⟩ := exists_of_mem_editsOf he
  rfl

theorem content_transform_eq (hps : Splits .code (Text.lines content) ps) :
    (transform ask mode content s).1.content = joinLines (endingOf content).text (endsLine content)
      (Piece.replaced (Edit.replacements (editsOf ask mode content s)) 1 ps) := by
  rw [← chosenEnding_eq, ← splice_replaced hps (blocks_editsOf ask mode content s)]
  · rfl
  · intro e he
    exact lines_of_mem_editsOf he

theorem replacement?_ne_nil_of_mem {e : Edit} (he : e ∈ editsOf ask mode content s) :
    e.replacement? ≠ some [] := by
  obtain ⟨reply, b, rfl⟩ := exists_of_mem_editsOf he
  rw [Edit.replacement?_of]
  intro hnil
  exact replacement?_ne_nil b [] hnil rfl

theorem fits_editsOf (ask : Lookup σ) (s : σ) (hmode : ∀ t ∈ mode.written, '\n' ∉ t)
    (hps : Splits .code (Text.lines content) ps) : Fits (endingOf content) (endsLine content)
      (Piece.replaced (Edit.replacements (editsOf ask mode content s)) 1 ps) := by
  apply fits_replaced
  · rintro b ls hls rfl
    obtain ⟨e, he, -, hnil⟩ := Edit.exists_of_replacements hls
    exact replacement?_ne_nil_of_mem he hnil
  · intro span number hjoinable ls hls
    obtain ⟨e, he, hblock, hls⟩ := Edit.exists_of_replacements hls
    obtain ⟨reply, b, rfl⟩ := exists_of_mem_editsOf he
    rw [Edit.replacement?_of, show b = _ from hblock] at hls
    exact isReplacement_replacement? hmode hjoinable hls
  · rw [hps.lines_eq]
    exact fits_lines content

theorem content_transform_of_unchanged
    (h : (transform ask mode content s).1.changed = false) :
    (transform ask mode content s).1.content
      = joinLines (endingOf content).text (endsLine content) (Text.lines content) := by
  obtain ⟨ps, hps⟩ := exists_splits .code (Text.lines content)
  have hkept : ∀ e ∈ editsOf ask mode content s,
      e.lines = e.block.slice (Text.lines content) := by
    intro e he
    have hchange := List.any_eq_false.mp h e he
    rw [Edit.isChange, decide_eq_true_iff, not_not] at hchange
    obtain ⟨reply, b, rfl⟩ := exists_of_mem_editsOf he
    exact hchange
  have hsplice : Edit.splice 0 (Text.lines content) (editsOf ask mode content s)
      = Piece.replaced (fun _ => none) 1 ps :=
    splice_replaced hps (blocks_editsOf ask mode content s) hkept
  rw [Piece.replaced_none, hps.lines_eq] at hsplice
  rw [← chosenEnding_eq]
  exact congrArg (joinLines _ _) hsplice

end Transform

/-- What becomes of the endings of a content's lines. -/
structure KeepsEndings (content : Text) (es : List Edit) (t : Transformation) : Prop where
  lines_eq : Text.lines t.content
    = overlay (Edit.replacements es) (es.map (·.block)) (Text.lines content)
  copied : ∀ index l, (Line.split content)[index]? = some l → Edit.Spares es index →
    (Line.split t.content)[Edit.landing es (Text.lines content) index]?
      = some (l.settled (Text.hasCrlf content))
  unchanged : t.changed = false → (t.content = content ↔ ¬ Text.IsMixed content)

/-- Whatever the registry does, a copied line keeps its ending, but for a line feed where other
lines end in carriage return and line feed. -/
theorem transform_keepsEndings {σ : Type} (ask : Lookup σ) {mode : Mode}
    (hmode : ∀ t ∈ mode.written, '\n' ∉ t) (content : Text) (s : σ) :
    KeepsEndings content (editsOf ask mode content s) (transform ask mode content s).1 := by
  obtain ⟨ps, hps⟩ := exists_splits .code (Text.lines content)
  have hne := endingOf_ne_none content
  have hfits := fits_editsOf ask s hmode hps
  have hsplit : Line.split (transform ask mode content s).1.content
      = Line.endAll (endingOf content) (endsLine content) (overlay
          (Edit.replacements (editsOf ask mode content s))
          ((editsOf ask mode content s).map (·.block)) (Text.lines content)) := by
    rw [content_transform_eq hps, split_joinLines hne hfits, blocks_editsOf,
      overlay_readBlocks _ hps]
  constructor
  · rw [Text.lines, hsplit, map_body_endAll]
  · intro index l hl hspares
    have hbody : (Text.lines content)[index]? = some l.body := by
      rw [Text.lines, List.getElem?_map, hl]
      rfl
    obtain ⟨v, w, hoverlay, hlanding, hlast⟩ := Edit.exists_overlay_eq
      (fun e he => replacement?_ne_nil_of_mem he) hbody hspares
    have hends : l.ending ≠ .none ↔
        v.length + 1 < (v ++ l.body :: w).length ∨ endsLine content := by
      rw [Text.ending_ne_none_iff hl]
      obtain ⟨hlt, -⟩ := List.getElem?_eq_some_iff.mp hbody
      have hw : w.length = 0 ↔ index + 1 = (Text.lines content).length :=
        List.length_eq_zero_iff.trans hlast
      rw [List.length_append, List.length_cons]
      exact or_congr_left (by omega)
    have hl' : (v ++ l.body :: w)[v.length]? = some l.body := by simp
    rw [hsplit, hoverlay, ← hlanding, Text.getElem?_endAll hl',
      Text.Line.settled_eq (List.mem_of_getElem? hl)]
    simp only [hends]
  · intro hchanged
    rw [content_transform_of_unchanged hchanged, ← Text.isUniform_endingOf_iff]
    constructor
    · intro h
      have huniform := isUniform_joinLines hne (fits_lines content)
      rwa [h] at huniform
    · exact joinLines_lines_of_isUniform

def mixedContent : Text :=
  Line.join [⟨"\r", .crlf⟩, ⟨"", .lf⟩, ⟨r#"module "vnet" {"#, .lf⟩,
    ⟨r#"  source = "../../" # here"#, .crlf⟩, ⟨r"}", .lf⟩, ⟨"# end", .lf⟩, ⟨"last", .none⟩]

theorem transform_keepsEndings_mixedContent :
    let mode := Mode.toRegistry "acme/vnet/azure" ⟨"registry.terraform.io", "acme", "vnet", "azure"⟩
    let ask := Lookup.constant vnetOnly
    let es := editsOf ask mode mixedContent ()
    let t := (transform ask mode mixedContent ()).1
    (∀ u ∈ mode.written, '\n' ∉ u) ∧ KeepsEndings mixedContent es t ∧ t.changed ∧
      Edit.Spares es 0 ∧ ¬ Edit.Spares es 3 ∧ Edit.Spares es 5 ∧ Edit.Spares es 6 ∧
      Edit.landing es (Text.lines mixedContent) 5 = 8 ∧
      (Line.split t.content)[0]? = some ⟨"\r", .crlf⟩ ∧
      (Line.split t.content)[8]? = some ⟨"# end", .crlf⟩ ∧
      (Line.split t.content)[9]? = some ⟨"last", .none⟩ := by
  intro mode ask es t
  have hmode : ∀ u ∈ mode.written, '\n' ∉ u := by decide
  refine ⟨hmode, transform_keepsEndings ask hmode mixedContent (), ?_⟩
  decide +kernel

def foreignContent : Text :=
  Line.join [⟨"# modules", .crlf⟩, ⟨r#"module "dns" {"#, .lf⟩,
    ⟨r#"  source = "acme/dns/azure""#, .lf⟩, ⟨r"}", .lf⟩]

/-- Nothing changes, and yet line feeds are written as pairs. -/
theorem exists_ending_not_kept :
    let ask := Lookup.fixed fun c => .error (.notFound c.text)
    let mode := Mode.toTree "acme/vnet/azure"
    let t := (transform ask mode foreignContent ()).1
    (∀ u ∈ mode.written, '\n' ∉ u) ∧ t.changed = false ∧ t.content ≠ foreignContent ∧
      Edit.Spares (editsOf ask mode foreignContent ()) 1 ∧
      (Line.split foreignContent)[1]? = some ⟨r#"module "dns" {"#, .lf⟩ ∧
      (Line.split t.content)[1]? = some ⟨r#"module "dns" {"#, .crlf⟩ := by
  decide +kernel

end SourceSwitch
