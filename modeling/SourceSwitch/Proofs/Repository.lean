import SourceSwitch.Proofs.Registry.Coordinates
import SourceSwitch.Repository

namespace SourceSwitch

open Text

def isNameChar (c : Char) : Bool := c.isAlphanum || c = '-' || c = '_' || c = '.'

/-- Not empty, of plain characters, and no step to the folder above. -/
def IsName (t : Text) : Prop := t ≠ [] ∧ t ≠ ".." ∧ ∀ c ∈ t, isNameChar c

instance : DecidablePred IsName := fun t =>
  inferInstanceAs (Decidable (t ≠ [] ∧ t ≠ ".." ∧ ∀ c ∈ t, isNameChar c))

def IsHostName (t : Text) : Prop := t ≠ [] ∧ t ≠ ".." ∧ ∀ c ∈ t, isNameChar c ∨ c = ':'

instance : DecidablePred IsHostName := fun t =>
  inferInstanceAs (Decidable (t ≠ [] ∧ t ≠ ".." ∧ ∀ c ∈ t, isNameChar c ∨ c = ':'))

inductive IsNamePath : Text → Prop where
  | single {t : Text} : IsName t → IsNamePath t
  | cons {v t : Text} : IsName v → IsNamePath t → IsNamePath (v ++ '/' :: t)

variable {c : Char} {v t : Text}

theorem not_isBlank_of_isNameChar (hc : isNameChar c) : ¬ isBlank c := by
  intro hblank
  rw [isNameChar, isAlphanum_of_isBlank hblank] at hc
  simp only [Bool.false_or, Bool.or_eq_true, decide_eq_true_eq] at hc
  rcases hc with (rfl | rfl) | rfl <;> exact absurd hblank (by decide)

theorem IsName.isHostName (h : IsName t) : IsHostName t :=
  ⟨h.1, h.2.1, fun c hc => .inl (h.2.2 c hc)⟩

theorem IsHostName.isSegment (h : IsHostName t) : IsSegment t := by
  constructor
  · exact h.1
  · intro hslash
    exact absurd (h.2.2 '/' hslash) (by decide)

namespace IsNamePath

theorem isPath (h : IsNamePath t) : IsPath t := by
  induction h with
  | single ht => exact ht.isHostName.isSegment.isPath
  | cons hv _ ih => exact .cons hv.isHostName.isSegment ih

theorem chars (h : IsNamePath t) : ∀ c ∈ t, isNameChar c ∨ c = '/' := by
  induction h with
  | single ht =>
    intro c hc
    exact .inl (ht.2.2 c hc)
  | cons hv _ ih =>
    intro c hc
    rcases List.mem_append.mp hc with hc | hc
    · exact .inl (hv.2.2 c hc)
    · rcases List.mem_cons.mp hc with rfl | hc
      · exact .inr rfl
      · exact ih c hc

end IsNamePath

theorem chars_of_isNamePath (hv : IsHostName v) (ht : IsNamePath t) :
    ∀ c ∈ v ++ '/' :: t, isNameChar c ∨ c = ':' ∨ c = '/' := by
  intro c hc
  rcases List.mem_append.mp hc with hc | hc
  · exact (hv.2.2 c hc).imp_right .inl
  · rcases List.mem_cons.mp hc with rfl | hc
    · exact .inr (.inr rfl)
    · exact (ht.chars c hc).imp_right .inr

theorem treeRemainder?_eq_none (hv : IsHostName v) :
    ModuleSource.treeRemainder? (v ++ '/' :: t) = none := by
  have hstep {u : Text} (h : v ++ '/' :: t = "..".toList ++ '/' :: u) : False :=
    hv.2.1 (append_slash_inj hv.isSegment.2 (by decide) h).1
  rw [Option.eq_none_iff_forall_ne_some]
  intro rest h
  rw [ModuleSource.treeRemainder?] at h
  split at h
  · next hshort =>
    apply hstep (u := "..")
    rw [hshort]
    decide
  · apply hstep (u := "../".toList ++ rest)
    rw [after?_eq_some_iff.mp h]
    rfl

theorem isAddress_of_isNamePath (hv : IsHostName v) (ht : IsNamePath t) :
    ModuleSource.IsAddress (v ++ '/' :: t) := by
  have hpath := IsPath.cons hv.isSegment ht.isPath
  constructor
  · apply trim_of_not_blank
    intro c hc
    rcases chars_of_isNamePath hv ht c hc with hc | rfl | rfl
    · exact not_isBlank_of_isNameChar hc
    · decide
    · decide
  · exact treeRemainder?_eq_none hv
  · rw [Option.eq_none_iff_forall_ne_some]
    rintro ⟨base, subpath⟩ h
    apply hpath.single base subpath
    rw [ModuleSource.eq_append_of_splitSubpath? h, List.append_assoc]
    rfl
  · exact hpath.last
  · rw [List.getLast?_append_cons, List.getLast?_cons_of_ne_nil ht.isPath.ne_nil]
    intro hlast
    exact absurd (ht.chars ':' (List.mem_of_getLast? hlast)) (by decide)

namespace Repository

variable {r : Repository} {s : RegistrySettings}

/-- Host, publisher, module and provider are a segment each, whatever their characters. -/
structure IsSegmented (r : Repository) (s : RegistrySettings) : Prop where
  host : IsSegment s.normalHost
  publisher : IsSegment s.publisher
  moduleName : IsSegment r.moduleName
  provider : IsSegment r.provider

theorem IsSegmented.isPath_expectedBase (h : r.IsSegmented s) : IsPath (r.expectedBase s) := by
  have hhost : IsSegment (r.coordinates s).host := by
    simp only [coordinates, Coordinates.atHost]
    exact ⟨Host.normalize_ne_nil _, Host.slash_not_mem_normalize h.host.2⟩
  have howner : IsSegment (r.coordinates s).owner := h.publisher
  have hpath : IsPath (r.coordinates s).path :=
    Coordinates.isPath_path howner h.moduleName h.provider
  rw [expectedBase]
  split
  · exact hpath
  · rw [Coordinates.text_eq]
    exact .cons hhost hpath

structure IsPlain (r : Repository) (s : RegistrySettings) : Prop where
  host : IsHostName s.normalHost
  publisher : IsName s.publisher
  moduleName : IsName r.moduleName
  provider : IsName r.provider

namespace IsPlain

theorem host_coordinates (h : r.IsPlain s) : (r.coordinates s).host = s.normalHost := by
  simp only [coordinates, Coordinates.atHost]
  apply Host.normalize_of_isSegment h.host.isSegment
  apply trim_of_not_blank
  intro c hc
  rcases h.host.2.2 c hc with hc | rfl
  · exact not_isBlank_of_isNameChar hc
  · decide

theorem exists_expectedBase_eq (h : r.IsPlain s) : ∃ v t, r.expectedBase s = v ++ '/' :: t ∧
    IsHostName v ∧ IsNamePath t := by
  have hpath := (r.coordinates s).path_eq
  have hrest : IsNamePath (r.moduleName ++ '/' :: r.provider) :=
    .cons h.moduleName (.single h.provider)
  rw [expectedBase]
  split
  · exact ⟨_, _, hpath, h.publisher.isHostName, hrest⟩
  · refine ⟨_, _, Coordinates.text_eq _, ?_, ?_⟩
    · rw [h.host_coordinates]
      exact h.host
    · rw [hpath]
      exact .cons h.publisher hrest

theorem isAddress_expectedBase (h : r.IsPlain s) : ModuleSource.IsAddress (r.expectedBase s) := by
  obtain ⟨v, t, hbase, hv, ht⟩ := h.exists_expectedBase_eq
  rw [hbase]
  exact isAddress_of_isNamePath hv ht

theorem not_mem_expectedBase (h : r.IsPlain s) (hc : isNameChar c = false ∧ c ≠ ':' ∧ c ≠ '/') :
    c ∉ r.expectedBase s := by
  obtain ⟨v, t, hbase, hv, ht⟩ := h.exists_expectedBase_eq
  rw [hbase]
  intro hmem
  rcases chars_of_isNamePath hv ht c hmem with h | h | h
  · rw [hc.1] at h
    cases h
  · exact hc.2.1 h
  · exact hc.2.2 h

end IsPlain

end Repository

end SourceSwitch
