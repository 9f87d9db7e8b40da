import SourceSwitch.Proofs.Rewrite.Locality

namespace SourceSwitch

open Text (Ending IsUniform endsLine)

variable {σ : Type} {ask : Lookup σ} {reply : Coordinates → Reply} {mode : Mode} {e : Ending}
  {v w content : Text} {ps ps' : List Piece}

theorem joinLines_append_of_endsLine {ls ls' : List Text} (hends : v = [] ∨ endsLine v)
    (hls : ls = [] ↔ v = []) (hls' : ls' = [] ↔ w = []) (ending : Text) :
    joinLines ending (endsLine (v ++ w)) (ls ++ ls')
      = joinLines ending (endsLine v) ls ++ joinLines ending (endsLine w) ls' := by
  by_cases hv : v = []
  · rw [hls.mpr hv, hv]
    rfl
  · by_cases hw : w = []
    · rw [hls'.mpr hw, hw, List.append_nil, List.append_nil]
      exact (List.append_nil _).symm
    · rw [Text.endsLine_append v hw, joinLines_append (mt hls.mp hv) (mt hls'.mp hw),
        hends.resolve_left hv]

theorem replaced_eq_nil_iff {number : Nat} (hps : Splits .code (Text.lines content) ps) :
    Piece.replaced (mode.replacement? reply) number ps = [] ↔ content = [] := by
  rw [← Text.lines_eq_nil_iff, ← hps.lines_eq]
  constructor
  · intro h
    by_contra hne
    apply Piece.replaced_ne_nil replacement?_ne_nil _ h
    rintro rfl
    exact hne rfl
  · intro h
    rw [Piece.replaced_of_length_le_one _ _ (by simp [h]), h]

theorem unresolved_blocks_add (mode : Mode) (reply : Coordinates → Reply) (number k : Nat)
    (ps : List Piece) : (Piece.blocks (number + k) ps).filterMap (mode.unresolved? reply)
      = ((Piece.blocks number ps).filterMap (mode.unresolved? reply)).map (.shift k) := by
  induction ps generalizing number with
  | nil => rfl
  | cons p ps ih =>
    cases p with
    | line l =>
      rw [Piece.blocks, Piece.blocks, Nat.add_right_comm, ih]
    | block s =>
      rw [Piece.blocks, Piece.blocks, List.filterMap_cons, List.filterMap_cons,
        s.unresolved?_block_add, Nat.add_right_comm, ih]
      cases mode.unresolved? reply (s.block number) <;> rfl

/-- Behind a content that ends a line and leaves no declaration, here-document or comment open,
another one with the same line endings is rewritten as if it stood alone. -/
theorem transform_append (hask : ask.IsConstant reply) (mode : Mode) (he : e ≠ .none)
    (hends : v = [] ∨ endsLine v) (hclosed : (Reader.run 1 .initial (Text.lines v)).2 = .initial)
    (hv : IsUniform e v) (hw : IsUniform e w) (s s₁ s₂ : σ) :
    let whole := (transform ask mode (v ++ w) s).1
    let front := (transform ask mode v s₁).1
    let back := (transform ask mode w s₂).1
    whole.content = front.content ++ back.content ∧
      whole.changed = (front.changed || back.changed) ∧
      whole.unresolved
        = front.unresolved ++ back.unresolved.map (Unresolved.shift (Text.lines v).length) := by
  intro whole front back
  obtain ⟨ps, hps⟩ := exists_splits .code (Text.lines v)
  obtain ⟨ps', hps'⟩ := exists_splits .code (Text.lines w)
  have hwhole := hps.append hps' hclosed
  rw [← Text.lines_append_of_endsLine hends] at hwhole
  refine ⟨?_, ?_, ?_⟩
  · rw [content_transform_of_isUniform hask he (hv.append hends hw) hwhole,
      content_transform_of_isUniform hask he hv hps, content_transform_of_isUniform hask he hw hps',
      Piece.replaced_append, Piece.replaced_eq _ 1 ps', joinLines_append_of_endsLine hends
        (replaced_eq_nil_iff hps) (replaced_eq_nil_iff hps')]
  · have hunchanged : whole.changed = false ↔ front.changed = false ∧ back.changed = false := by
      rw [changed_transform_eq_false_iff hask s hwhole, changed_transform_eq_false_iff hask s₁ hps,
        changed_transform_eq_false_iff hask s₂ hps']
      simp only [List.mem_append, or_imp, forall_and]
    rw [← Bool.or_eq_false_iff, Bool.eq_false_iff, Bool.eq_false_iff, not_iff_not] at hunchanged
    exact Bool.eq_iff_iff.mpr hunchanged
  · have hblocks : readBlocks (Text.lines (v ++ w)) = Piece.blocks 1 ps
        ++ Piece.blocks (1 + (Text.lines v).length) ps' := by
      rw [hwhole.readBlocks_eq, Piece.blocks_append, hps.lines_eq]
    rw [unresolved_transform hask, unresolved_transform hask, unresolved_transform hask, hblocks,
      List.filterMap_append, unresolved_blocks_add, hps.readBlocks_eq, hps'.readBlocks_eq]

def closedContent : Text :=
  joinLines "\r\n" true [r#"module "vnet" {"#, r#"  source = "acme/vnet/azure""#, "  note = <<EOT",
    r#"module "x" {"#, "EOT", r"}", r#"/* module "y" {"#, "*/"]

def openContent : Text :=
  joinLines "\r\n" false [r#"module "dns" {"#, r#"  source = "acme/dns/azure""#, r"}"]

theorem transform_append_closedContent :
    let mode := Mode.refresh ["acme/"] "registry.terraform.io"
    let whole := (transform (.constant vnetOnly) mode (closedContent ++ openContent) ()).1
    let front := (transform (.constant vnetOnly) mode closedContent ()).1
    let back := (transform (.constant vnetOnly) mode openContent ()).1
    (endsLine closedContent ∧
      (Reader.run 1 .initial (Text.lines closedContent)).2 = .initial ∧
      IsUniform .crlf closedContent ∧ IsUniform .crlf openContent) ∧
    whole.content = front.content ++ back.content ∧
      whole.changed = (front.changed || back.changed) ∧
      whole.unresolved
        = front.unresolved ++ back.unresolved.map
          (Unresolved.shift (Text.lines closedContent).length) ∧
      front.changed ∧ back.unresolved ≠ [] := by
  have hends : endsLine closedContent := by decide
  have hclosed : (Reader.run 1 .initial (Text.lines closedContent)).2 = .initial := by
    decide +kernel
  have hv : IsUniform .crlf closedContent := by decide +kernel
  have hw : IsUniform .crlf openContent := by decide +kernel
  obtain ⟨hcontent, hchanged, hunresolved⟩ := transform_append (Lookup.isConstant_constant vnetOnly)
    (.refresh ["acme/"] "registry.terraform.io") (by decide) (.inr hends) hclosed hv hw () () ()
  exact ⟨⟨hends, hclosed, hv, hw⟩, hcontent, hchanged, hunresolved, by decide +kernel,
    by decide +kernel⟩

end SourceSwitch
