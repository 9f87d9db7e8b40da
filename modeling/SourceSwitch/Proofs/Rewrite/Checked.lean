import SourceSwitch.Proofs.Block.Checked
import SourceSwitch.Proofs.Rewrite.Isolation

namespace SourceSwitch

open Text
open SourceSwitch.Bracket (Carry)

namespace Text

def byte? (t : Text) (offset : Nat) : Option UInt8 := (encode t).data[offset]?

def find? (needle : Text) : Text → Option Nat
  | [] => if needle.isPrefixOf [] then some 0 else none
  | c :: t =>
    if needle.isPrefixOf (c :: t) then some 0 else (find? needle t).map (c.utf8Size + ·)

theorem data_encode (t : Text) : (encode t).data = (t.flatMap String.utf8EncodeChar).toArray :=
  List.data_toByteArray

theorem length_flatMap_utf8EncodeChar (t : Text) :
    (t.flatMap String.utf8EncodeChar).length = byteLength t := by
  induction t with
  | nil => rfl
  | cons c t ih =>
    rw [List.flatMap_cons, List.length_append, ih, String.length_utf8EncodeChar, byteLength]

theorem byte?_append (p : Text) (d : Char) (q : Text) :
    byte? (p ++ d :: q) (byteLength (p ++ [d]) - 1) = (String.utf8EncodeChar d).getLast? := by
  have hsize := d.utf8Size_pos
  have hd := String.length_utf8EncodeChar d
  have hp := length_flatMap_utf8EncodeChar p
  have hoffset : byteLength (p ++ [d]) - 1
      = (p.flatMap String.utf8EncodeChar).length + ((String.utf8EncodeChar d).length - 1) := by
    rw [byteLength_append, hd, hp]
    change byteLength p + (d.utf8Size + 0) - 1 = _
    omega
  rw [byte?, data_encode, hoffset, List.getElem?_toArray, List.flatMap_append, List.flatMap_cons,
    List.getElem?_append_right (Nat.le_add_right _ _), Nat.add_sub_cancel_left,
    List.getElem?_append_left (by omega), List.getLast?_eq_getElem?]

/-- Only a colon ends in the byte of a colon. -/
theorem getLast?_utf8EncodeChar (d : Char) :
    (String.utf8EncodeChar d).getLast? = some 0x3A ↔ d = ':' := by
  constructor
  · intro h
    have hbyte {n : Nat} (hn : UInt8.ofNat n = 0x3A) : n % 256 = 0x3A := congrArg UInt8.toNat hn
    unfold String.utf8EncodeChar at h
    simp only at h
    split at h
    · next hsmall =>
      have hvalue := hbyte (Option.some.inj h)
      apply Char.ext
      apply UInt32.toNat_inj.mp
      change d.val.toNat = 0x3A
      omega
    · split at h
      · have hvalue := hbyte (Option.some.inj h)
        omega
      · split at h
        · have hvalue := hbyte (Option.some.inj h)
          omega
        · have hvalue := hbyte (Option.some.inj h)
          omega
  · rintro rfl
    rfl

end Text

namespace ModuleSource

theorem isPrefixOf_separator_iff {t : Text} :
    separator.isPrefixOf t ↔ ∃ q, t = '/' :: '/' :: q := by
  rw [List.isPrefixOf_iff_prefix]
  exact ⟨fun ⟨q, hq⟩ => ⟨q, hq.symm⟩, fun ⟨q, hq⟩ => ⟨q, hq.symm⟩⟩

theorem splitSubpath?_cons_of_other {c : Char} {t : Text}
    (hother : ¬ separator.isPrefixOf (c :: t)) (hscheme : ¬ (c = ':' ∧ separator.isPrefixOf t)) :
    splitSubpath? (c :: t) = (splitSubpath? t).map fun r => (c :: r.1, r.2) := by
  rw [isPrefixOf_separator_iff] at hother hscheme
  apply splitSubpath?_cons
  · rintro rfl hhead
    obtain ⟨q, rfl⟩ := List.head?_eq_some_iff.mp hhead
    exact hother ⟨q, rfl⟩
  · rintro rfl q rfl
    exact hscheme ⟨rfl, q, rfl⟩

theorem splitSubpath?_of_find?_eq_none {t : Text} (h : find? separator t = none) :
    splitSubpath? t = none := by
  induction t with
  | nil => rfl
  | cons c t ih =>
    rw [find?] at h
    split at h
    · cases h
    · next hother =>
      have hrest := Option.map_eq_none_iff.mp h
      rw [splitSubpath?_cons_of_other hother, ih hrest]
      · rfl
      · rintro ⟨-, hsep⟩
        obtain ⟨q, rfl⟩ := isPrefixOf_separator_iff.mp hsep
        rw [find?, if_pos hsep] at hrest
        cases hrest

theorem splitSubpath?_of_find? {t : Text} {k : Nat} (h : find? separator t = some k) :
    ∃ p q, t = p ++ separator ++ q ∧ byteLength p = k ∧ splitSubpath? t =
      if p.getLast? = some ':' then (splitSubpath? q).map fun r => (p ++ separator ++ r.1, r.2)
      else some (p, q) := by
  induction t generalizing k with
  | nil => cases h
  | cons c t ih =>
    rw [find?] at h
    split at h
    · next hsep =>
      obtain ⟨q, hq⟩ := isPrefixOf_separator_iff.mp hsep
      rw [hq]
      exact ⟨[], q, rfl, Option.some.inj h, rfl⟩
    · next hother =>
      obtain ⟨j, hj, rfl⟩ := Option.map_eq_some_iff.mp h
      obtain ⟨p, q, rfl, rfl, hsplit⟩ := ih hj
      refine ⟨c :: p, q, rfl, rfl, ?_⟩
      by_cases hscheme : c = ':' ∧ separator.isPrefixOf (p ++ separator ++ q)
      · obtain ⟨rfl, hsep⟩ := hscheme
        obtain rfl : p = [] := by
          obtain ⟨r, hr⟩ := isPrefixOf_separator_iff.mp hsep
          rw [hr, find?, if_pos (by rwa [← hr])] at hj
          exact byteLength_eq_zero_iff.mp (Option.some.inj hj).symm
        rfl
      · rw [splitSubpath?_cons_of_other hother hscheme, hsplit]
        cases p with
        | nil =>
          have hcolon : [c].getLast? ≠ some ':' := by
            intro hc
            exact hscheme ⟨Option.some.inj hc, isPrefixOf_separator_iff.mpr ⟨q, rfl⟩⟩
          rw [if_neg hcolon]
          rfl
        | cons d p =>
          rw [List.getLast?_cons_cons]
          split
          · rw [Option.map_map]
            rfl
          · rfl

end ModuleSource

namespace Checked

def previousByte? (raw : Text) (offset : Nat) : Option (Option UInt8) :=
  if 0 < offset then do
    let index ← Nat.psub offset 1
    let byte ← byte? raw index
    return some byte
  else some none

/-- The parts of a source around the first separator from an offset on that no colon precedes. -/
def splitFrom? (raw : Text) (start : Nat) : Option (Option (Text × Text)) :=
  match _h : cutFrom? start raw with
  | none => none
  | some tail =>
    match find? ModuleSource.separator tail with
    | none => some none
    | some offset => do
      let byte ← previousByte? raw (start + offset)
      if byte = some 0x3A then
        splitFrom? raw (start + offset + byteLength ModuleSource.separator)
      else
        let base ← cutTo? (start + offset) raw
        let subpath ← cutFrom? (start + offset + byteLength ModuleSource.separator) raw
        return some (base, subpath)
termination_by byteLength raw + 1 - start
decreasing_by
  obtain ⟨⟨p, q⟩, hsplit, -⟩ := Option.map_eq_some_iff.mp _h
  obtain ⟨rfl, rfl⟩ := eq_append_of_splitAt? hsplit
  have hseparator : byteLength ModuleSource.separator = 2 := rfl
  rw [byteLength_append]
  omega

def classify? (raw : Text) : Option ModuleSource :=
  let raw := trim raw
  match ModuleSource.treeRemainder? raw with
  | some rest => some (.inTree (ModuleSource.subpath? rest))
  | none =>
    (splitFrom? raw 0).map fun
      | some (base, subpath) => .published (stripEnd '/' base) (ModuleSource.subpath? subpath)
      | none => .published (stripEnd '/' raw) none

theorem exists_previousByte? (w q : Text) :
    ∃ byte, previousByte? (w ++ q) (byteLength w) = some byte ∧
      (byte = some 0x3A ↔ w.getLast? = some ':') := by
  rcases List.eq_nil_or_concat w with rfl | ⟨p, d, rfl⟩
  · exact ⟨none, rfl, by simp⟩
  · have hpos : 0 < byteLength (p ++ [d]) := by
      have hsize := d.utf8Size_pos
      rw [byteLength_append, byteLength]
      omega
    have hne : String.utf8EncodeChar d ≠ [] := by
      rw [← List.length_pos_iff, String.length_utf8EncodeChar]
      exact d.utf8Size_pos
    refine ⟨some ((String.utf8EncodeChar d).getLast hne), ?_, ?_⟩
    · rw [List.concat_eq_append, List.append_assoc, List.singleton_append]
      simp only [previousByte?, if_pos hpos, Nat.psub_eq_sub hpos, byte?_append,
        List.getLast?_eq_some_getLast hne, Option.bind_eq_bind, Option.bind_some]
      rfl
    · rw [← List.getLast?_eq_some_getLast hne, getLast?_utf8EncodeChar]
      simp

section Search

variable {front tail p q : Text}

theorem splitFrom?_of_find?_eq_none (h : find? ModuleSource.separator tail = none) :
    splitFrom? (front ++ tail) (byteLength front) = some none := by
  rw [splitFrom?]
  split
  · next hnone =>
    rw [cutFrom?_append] at hnone
    cases hnone
  · next tail' hsome =>
    rw [cutFrom?_append] at hsome
    obtain rfl := Option.some.inj hsome
    rw [h]

theorem splitFrom?_of_find?
    (h : find? ModuleSource.separator (p ++ ModuleSource.separator ++ q) = some (byteLength p)) :
    splitFrom? (front ++ (p ++ ModuleSource.separator ++ q)) (byteLength front) =
      if (front ++ p).getLast? = some ':' then
        splitFrom? (front ++ p ++ ModuleSource.separator ++ q)
          (byteLength (front ++ p ++ ModuleSource.separator))
      else some (some (front ++ p, q)) := by
  obtain ⟨byte, hprevious, hcolon⟩ :=
    exists_previousByte? (front ++ p) (ModuleSource.separator ++ q)
  have hraw : front ++ (p ++ ModuleSource.separator ++ q)
      = front ++ p ++ (ModuleSource.separator ++ q) := by
    simp only [List.append_assoc]
  rw [splitFrom?]
  split
  · next hnone =>
    rw [cutFrom?_append] at hnone
    cases hnone
  · next tail hsome =>
    rw [cutFrom?_append] at hsome
    obtain rfl := Option.some.inj hsome
    simp only [h, hraw, ← byteLength_append, hprevious, Option.bind_eq_bind, Option.bind_some,
      hcolon, cutTo?_append]
    rw [← List.append_assoc]
    simp only [cutFrom?_append, Option.bind_some]
    rfl

/-- No colon stands in front of a place where the search went on. -/
theorem getLast?_append_eq_colon_iff (hfront : front = [] ∨ front.getLast? = some '/') :
    (front ++ p).getLast? = some ':' ↔ p.getLast? = some ':' := by
  rw [List.getLast?_append]
  cases p.getLast? with
  | some d => rfl
  | none => rcases hfront with rfl | hslash <;> simp_all

/-- A search that goes on starts behind a separator, so no colon of the front is looked at again. -/
theorem splitFrom?_eq (front tail : Text) (hfront : front = [] ∨ front.getLast? = some '/') :
    splitFrom? (front ++ tail) (byteLength front)
      = some ((ModuleSource.splitSubpath? tail).map fun r => (front ++ r.1, r.2)) := by
  induction hn : tail.length using Nat.strongRecOn generalizing front tail with
  | _ n ih =>
    subst hn
    cases hfind : find? ModuleSource.separator tail with
    | none =>
      rw [splitFrom?_of_find?_eq_none hfind, ModuleSource.splitSubpath?_of_find?_eq_none hfind]
      rfl
    | some k =>
      obtain ⟨p, q, rfl, rfl, hsplit⟩ := ModuleSource.splitSubpath?_of_find? hfind
      rw [splitFrom?_of_find? hfind, hsplit]
      simp only [getLast?_append_eq_colon_iff hfront]
      split
      · have hshort : q.length < (p ++ ModuleSource.separator ++ q).length := by
          simp [ModuleSource.separator]
          omega
        have hslash : (front ++ p ++ ModuleSource.separator).getLast? = some '/' := by
          simp [ModuleSource.separator]
        rw [ih q.length hshort _ q (.inr hslash) rfl, Option.map_map]
        simp only [Function.comp_def, List.append_assoc]
      · rfl

end Search

theorem splitFrom?_zero (raw : Text) :
    splitFrom? raw 0 = some (ModuleSource.splitSubpath? raw) := by
  apply (splitFrom?_eq [] raw (.inl rfl)).trans
  cases ModuleSource.splitSubpath? raw <;> rfl

theorem classify?_eq (raw : Text) : classify? raw = some (ModuleSource.classify raw) := by
  unfold classify? ModuleSource.classify
  simp only [splitFrom?_zero, Option.map_some]
  cases ModuleSource.treeRemainder? (trim raw) with
  | some rest => rfl
  | none => cases ModuleSource.splitSubpath? (trim raw) <;> rfl

def reference? (b : ModuleBlock) : Option (Option ModuleSource) :=
  match b.source with
  | none => some none
  | some raw => (classify? raw).map some

def lines? (e : Edit) : Option (List Text) :=
  match e.verdict with
  | .rewrite source version => render? source version e.block
  | .keep | .unresolved _ => some e.before

def rewrite? {σ : Type} (ask : Lookup σ) (mode : Mode) (lines : List Text) (cursor : Nat) :
    List ModuleBlock → σ → Option ((List Edit × List Text) × σ)
  | [], s => do
    let rest ← slice? cursor lines.length lines
    return (([], rest), s)
  | b :: bs, s => do
    let first ← Nat.psub b.startLine 1
    let between ← slice? cursor first lines
    let before ← slice? first b.endLine lines
    let _ ← reference? b
    let ((verdict, events), s) := (mode.plan b).run ask b s
    let e : Edit := ⟨b, before, verdict, events⟩
    let own ← lines? e
    let ((edits, rest), s) ← rewrite? ask mode lines b.endLine bs s
    return ((e :: edits, between ++ own ++ rest), s)

def transform? {σ : Type} (ask : Lookup σ) (mode : Mode) (content : Text) (s : σ) :
    Option (Transformation × σ) := do
  let lines := Text.lines content
  let (blocks, _) ← run? 1 .initial lines
  let ((edits, output), s) ← rewrite? ask mode lines 0 blocks s
  return ({ content := joinLines (chosenEnding content) (endsLine content) output
            changed := edits.any Edit.isChange
            unresolved := edits.filterMap Edit.unresolved?
            events := edits.flatMap Edit.log }, s)

theorem reference?_eq (b : ModuleBlock) : reference? b = some b.reference? := by
  unfold reference? ModuleBlock.reference?
  cases b.source with
  | none => rfl
  | some raw =>
    simp only [classify?_eq]
    rfl

theorem lines?_eq (e : Edit) : lines? e = some e.lines := by
  unfold lines? Edit.lines
  cases e.verdict with
  | rewrite source version => exact render?_eq source version e.block
  | keep | unresolved => rfl

theorem slice?_eq {α : Type} {first past : Nat} {l : List α} (h : first ≤ past)
    (h' : past ≤ l.length) : slice? first past l = some ((l.drop first).take (past - first)) :=
  if_pos ⟨h, h'⟩

structure ArePlaced (lines : List Text) (cursor : Nat) (bs : List ModuleBlock) : Prop where
  cursor_le : cursor ≤ lines.length
  bounds : ∀ b ∈ bs, cursor < b.startLine ∧ b.startLine < b.endLine ∧ b.endLine ≤ lines.length
  ordered : bs.Pairwise fun b b' => b.endLine < b'.startLine

theorem arePlaced_readBlocks (lines : List Text) : ArePlaced lines 0 (readBlocks lines) := by
  obtain ⟨ps, hps⟩ := exists_splits .code lines
  rw [hps.readBlocks_eq]
  refine ⟨Nat.zero_le _, ?_, pairwise_blocks 1 ps⟩
  intro b hb
  have hstart := le_startLine_of_mem_blocks hb
  obtain ⟨hlt, hend⟩ := endLine_le_of_mem_blocks hb
  rw [hps.lines_eq] at hend
  omega

variable {σ : Type} {lines : List Text} {cursor : Nat} {bs : List ModuleBlock}

theorem ArePlaced.tail {b : ModuleBlock} (h : ArePlaced lines cursor (b :: bs)) :
    ArePlaced lines b.endLine bs := by
  obtain ⟨hfirst, hrest⟩ := List.pairwise_cons.mp h.ordered
  refine ⟨(h.bounds b List.mem_cons_self).2.2, ?_, hrest⟩
  intro b' hb'
  exact ⟨hfirst b' hb', (h.bounds b' (List.mem_cons_of_mem b hb')).2⟩

theorem rewrite?_eq (h : ArePlaced lines cursor bs) (ask : Lookup σ) (mode : Mode) (s : σ) :
    rewrite? ask mode lines cursor bs s = some
      (((Edit.plan ask mode lines bs s).1,
        Edit.splice cursor (lines.drop cursor) (Edit.plan ask mode lines bs s).1),
        (Edit.plan ask mode lines bs s).2) := by
  induction bs generalizing cursor s with
  | nil =>
    simp only [rewrite?, slice?_from h.cursor_le, Option.bind_eq_bind, Option.bind_some]
    rfl
  | cons b bs ih =>
    obtain ⟨hcursor, hheight, hend⟩ := h.bounds b List.mem_cons_self
    have hfirst : Nat.psub b.startLine 1 = some b.firstIndex := Nat.psub_eq_sub (by omega)
    have hbetween : slice? cursor b.firstIndex lines = _ :=
      slice?_eq (by rw [ModuleBlock.firstIndex]; omega) (by rw [ModuleBlock.firstIndex]; omega)
    have hbefore : slice? b.firstIndex b.endLine lines = _ :=
      slice?_eq (by rw [ModuleBlock.firstIndex]; omega) hend
    have hdrop : (lines.drop cursor).drop (b.endLine - cursor) = lines.drop b.endLine := by
      rw [List.drop_drop, Nat.add_sub_cancel' (by omega)]
    simp only [rewrite?, hfirst, hbetween, hbefore, reference?_eq, lines?_eq, ih h.tail,
      Option.bind_eq_bind, Option.bind_some]
    simp only [Edit.plan, Edit.splice, hdrop]
    rfl

theorem transform?_eq (ask : Lookup σ) (mode : Mode) (content : Text) (s : σ) :
    transform? ask mode content s = some (transform ask mode content s) := by
  have hrun := run?_eq 1 .initial (Text.lines content)
  have hrewrite := rewrite?_eq (arePlaced_readBlocks (Text.lines content)) ask mode s
  simp only [transform?, hrun, Option.bind_eq_bind, Option.bind_some]
  rw [readBlocks] at hrewrite
  rw [hrewrite]
  rfl

/-- Whatever is read, what the scanner reports are borders of characters, and the closing bracket
is one byte; and so reading lines in any state, reading a source, and rewriting a content with any
registry come to their results with every cut and every difference checked. -/
theorem cuts_are_defined (ask : Lookup σ) (mode : Mode) (content : Text) (s : σ) :
    (∀ (carry : Carry) (depth : Option Int) (line : Text),
      (carry.step depth line).1.IsWithin line ∧
        scan? depth line carry = some (carry.step depth line)) ∧
    (∀ (number : Nat) (state : Reader.State) (lines : List Text),
      run? number state lines = some (Reader.run number state lines)) ∧
    (∀ raw, splitFrom? raw 0 = some (ModuleSource.splitSubpath? raw)) ∧
    transform? ask mode content s = some (transform ask mode content s) := by
  refine ⟨?_, run?_eq, ?_, transform?_eq ask mode content s⟩
  · intro carry depth line
    exact ⟨carry.isWithin_step depth line, scan?_eq depth line carry⟩
  · exact splitFrom?_zero

end Checked

end SourceSwitch
