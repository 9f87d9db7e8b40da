import SourceSwitch.Block.Layout
import SourceSwitch.Proofs.Block.Extent

namespace SourceSwitch

open Text
open SourceSwitch.Bracket (Carry)

/-- Lines that are scanned alike: equal, or in code equal up to outer blanks. -/
inductive Twins : Carry → List Text → List Text → Prop where
  | nil {carry : Carry} : Twins carry [] []
  | cons {carry : Carry} {l l' : Text} {ls ls' : List Text} : (carry = .code → trim l' = trim l) →
      (carry ≠ .code → l' = l) → Twins (carry.next l) ls ls' → Twins carry (l :: ls) (l' :: ls')

namespace Twins

variable {carry : Carry} {l l' : Text} {ls ls' : List Text}

theorem scan_congr (hcode : carry = .code → trim l' = trim l) (hkept : carry ≠ .code → l' = l) :
    carry.next l' = carry.next l ∧ carry.net l' = carry.net l ∧
      (carry.scan l').1.leadingClose = (carry.scan l).1.leadingClose := by
  by_cases hc : carry = .code
  · subst hc
    have ht := hcode rfl
    refine ⟨?_, ?_, ?_⟩
    · rw [← Carry.next_code_trim l', ht, Carry.next_code_trim]
    · rw [← Carry.net_code_trim l', ht, Carry.net_code_trim]
    · rw [← Carry.leadingClose_code_trim l', ht, Carry.leadingClose_code_trim]
  · rw [hkept hc]
    exact ⟨rfl, rfl, rfl⟩

theorem nextAll_eq (h : Twins carry ls ls') : carry.nextAll ls' = carry.nextAll ls := by
  induction h with
  | nil => rfl
  | cons hcode hkept _ ih => rw [Carry.nextAll, (scan_congr hcode hkept).1, ih]; rfl

theorem netAll_eq (h : Twins carry ls ls') : carry.netAll ls' = carry.netAll ls := by
  induction h with
  | nil => rfl
  | cons hcode hkept _ ih =>
    obtain ⟨hnext, hnet, -⟩ := scan_congr hcode hkept
    rw [Carry.netAll, hnext, hnet, ih]
    rfl

end Twins

namespace Layout

variable {base : Text} {carry : Carry} {ls ls' : List Text}

theorem isBlankText_indentation (depth : Nat) : isBlankText (indentation depth) := by
  induction depth with
  | zero => rfl
  | succ depth ih =>
    rw [indentation, List.replicate_succ, List.flatten_cons, isBlankText_append]
    exact ⟨rfl, ih⟩

/-- Where a line of code starts and what it leaves of the depth. -/
def levels (carry : Carry) (depth : Nat) (line : Text) : Nat × Nat :=
  let leading := (carry.scan line).1.leadingClose
  let own := if leading then depth - 1 else depth
  (own, shift own (if leading then carry.net line + 1 else carry.net line))

theorem reindentFrom_verbatim (hc : carry ≠ .code) (base : Text) (depth : Nat) (l : Text)
    (ls : List Text) : reindentFrom base carry depth (l :: ls)
      = l :: reindentFrom base (carry.next l) (shift depth (carry.net l)) ls := by
  have hv : (carry.scan l).1.verbatim = true := by simpa using hc
  simp only [reindentFrom, hv, if_true]
  rfl

theorem reindentFrom_blank {l : Text} (hl : isBlankText l) (base : Text) (depth : Nat)
    (ls : List Text) :
    reindentFrom base .code depth (l :: ls) = [] :: reindentFrom base .code depth ls := by
  have hnext : (Carry.code.scan l).2 = .code := Carry.next_code_of_blank hl
  simp only [reindentFrom, Carry.verbatim_scan, hl, hnext]
  rfl

theorem reindentFrom_code {l : Text} (hl : ¬ isBlankText l) (base : Text) (depth : Nat)
    (ls : List Text) : reindentFrom base .code depth (l :: ls)
      = (base ++ indentation (levels .code depth l).1 ++ trim l)
        :: reindentFrom base (Carry.code.next l) (levels .code depth l).2 ls := by
  simp only [reindentFrom, Carry.verbatim_scan, hl]
  rfl

theorem twins_reindentFrom (hbase : isBlankText base) (carry : Carry) (depth : Nat)
    (ls : List Text) : Twins carry ls (reindentFrom base carry depth ls) := by
  induction ls generalizing carry depth with
  | nil => exact .nil
  | cons l ls ih =>
    by_cases hc : carry = .code
    · subst hc
      by_cases hl : isBlankText l
      · rw [reindentFrom_blank hl]
        refine .cons (fun _ => (trim_eq_nil_of_blank hl).symm) (fun h => absurd rfl h) ?_
        rw [Carry.next_code_of_blank hl]
        exact ih _ _
      · rw [reindentFrom_code hl]
        have hblank : isBlankText (base ++ indentation (levels .code depth l).1) :=
          (isBlankText_append _ _).mpr ⟨hbase, isBlankText_indentation _⟩
        refine .cons (fun _ => ?_) (fun h => absurd rfl h) (ih _ _)
        rw [trim_append_left hblank, trim_trim]
    · rw [reindentFrom_verbatim hc]
      exact .cons (fun h => absurd h hc) (fun _ => rfl) (ih _ _)

theorem map_trim_of_twins (h : Twins carry ls ls') : ls'.map trim = ls.map trim := by
  induction h with
  | nil => rfl
  | @cons carry l l' ls ls' hcode hkept _ ih =>
    have hl : trim l' = trim l := by
      by_cases hc : carry = .code
      · exact hcode hc
      · rw [hkept hc]
    rw [List.map_cons, List.map_cons, hl, ih]

theorem reindentFrom_congr (h : Twins carry ls ls') (base : Text) (depth : Nat) :
    reindentFrom base carry depth ls' = reindentFrom base carry depth ls := by
  induction h generalizing depth with
  | nil => rfl
  | @cons carry l l' ls ls' hcode hkept _ ih =>
    obtain ⟨hnext, hnet, hlead⟩ := Twins.scan_congr hcode hkept
    by_cases hc : carry = .code
    · subst hc
      have htrim := hcode rfl
      by_cases hl : isBlankText l
      · have hl' : isBlankText l' := by rw [← trim_eq_nil_iff, htrim, trim_eq_nil_iff]; exact hl
        rw [Carry.next_code_of_blank hl] at ih
        rw [reindentFrom_blank hl, reindentFrom_blank hl', ih]
      · have hl' : ¬ isBlankText l' := by rw [← trim_eq_nil_iff, htrim, trim_eq_nil_iff]; exact hl
        have hlevels : levels .code depth l' = levels .code depth l := by
          simp only [levels, hnet, hlead]
        rw [reindentFrom_code hl, reindentFrom_code hl', hlevels, htrim, hnext, ih]
    · rw [reindentFrom_verbatim hc, reindentFrom_verbatim hc, hkept hc, ih]

theorem map_trim_reindent (hbase : isBlankText base) (body : List Text) :
    (reindent base body).map trim = (body.dropWhile isBlankText).map trim :=
  map_trim_of_twins (twins_reindentFrom hbase _ _ _)

theorem length_reindent (hbase : isBlankText base) (body : List Text) :
    (reindent base body).length = (body.dropWhile isBlankText).length := by
  have htrim := congrArg List.length (map_trim_reindent hbase body)
  rwa [List.length_map, List.length_map] at htrim

theorem reindent_eq_nil_iff (hbase : isBlankText base) {body : List Text} :
    reindent base body = [] ↔ body.all isBlankText := by
  rw [← List.length_eq_zero_iff, length_reindent hbase, List.length_eq_zero_iff,
    List.dropWhile_eq_nil_iff, List.all_eq_true]

theorem dropWhile_reindent (hbase : isBlankText base) (body : List Text) :
    (reindent base body).dropWhile isBlankText = reindent base body := by
  rw [reindent]
  have htrim := map_trim_reindent hbase body
  rw [reindent] at htrim
  cases h : reindentFrom base .code 0 (body.dropWhile isBlankText) with
  | nil => rfl
  | cons l' ls' =>
    rw [h] at htrim
    cases hbody : body.dropWhile isBlankText with
    | nil => rw [hbody] at htrim; cases htrim
    | cons l ls =>
      rw [hbody, List.map_cons, List.map_cons] at htrim
      have hl : ¬ isBlankText l := by
        have hhead := List.head?_dropWhile_not isBlankText body
        rw [hbody] at hhead
        simpa using hhead
      have hl' : ¬ isBlankText l' := by
        rw [← trim_eq_nil_iff, (List.cons.inj htrim).1, trim_eq_nil_iff]
        exact hl
      exact List.dropWhile_cons_of_neg hl'

theorem reindent_reindent (hbase : isBlankText base) (body : List Text) :
    reindent base (reindent base body) = reindent base body := by
  rw [reindent, dropWhile_reindent hbase]
  exact reindentFrom_congr (twins_reindentFrom hbase _ _ _) base 0

end Layout

namespace ModuleBlock

open Layout (unit assignment)

def lead (source : Text) (version : Option Text) (b : ModuleBlock) : List Text :=
  [b.header, b.indent ++ unit ++ assignment "source " source]
    ++ (version.map fun v => b.indent ++ unit ++ assignment "version" v).toList

variable {b : ModuleBlock}

theorem render_eq (source : Text) (version : Option Text) (b : ModuleBlock) :
    b.render source version = b.lead source version ++ paragraph (b.indent ++ unit) b.body
      ++ [b.footer] := rfl

theorem isBlankText_inner (h : isBlankText b.indent) : isBlankText (b.indent ++ unit) :=
  (isBlankText_append _ _).mpr ⟨h, by decide⟩

theorem isBlankText_indent_block (number : Nat) (s : Span) :
    isBlankText (s.block number).indent := by
  rw [Span.indent_block]
  cases h : Header.ofLine? s.header with
  | none => rfl
  | some h' =>
    obtain ⟨v, w, x, hindent, -⟩ := Header.exists_eq_append h
    exact hindent

end ModuleBlock

end SourceSwitch
