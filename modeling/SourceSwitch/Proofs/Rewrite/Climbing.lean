import SourceSwitch.Proofs.ModuleSource.Survival
import SourceSwitch.Proofs.Repository
import SourceSwitch.Proofs.Rewrite.Endings
import SourceSwitch.Proofs.Rewrite.Refresh

namespace SourceSwitch

open Text

/-- One of the steps between slashes leads to the folder above. -/
def HasParentStep (path : Text) : Prop := "..".toList ∈ path.splitOn '/'

instance : DecidablePred HasParentStep := fun path =>
  inferInstanceAs (Decidable ("..".toList ∈ path.splitOn '/'))

variable {t u : Text}

theorem not_hasParentStep_nil : ¬ HasParentStep [] := by decide

theorem hasParentStep_append_slash (t u : Text) :
    HasParentStep (t ++ '/' :: u) ↔ HasParentStep t ∨ HasParentStep u := by
  have hsplit : (t ++ '/' :: u).splitOn '/' = t.splitOn '/' ++ u.splitOn '/' :=
    List.splitOnP_append_cons t u (beq_self_eq_true '/')
  rw [HasParentStep, hsplit, List.mem_append]
  rfl

theorem hasParentStep_replicate_append (k : Nat) (t : Text) :
    HasParentStep (List.replicate k '/' ++ t) ↔ HasParentStep t := by
  induction k with
  | zero => rfl
  | succ k ih =>
    change HasParentStep ([] ++ '/' :: (List.replicate k '/' ++ t)) ↔ _
    rw [hasParentStep_append_slash, ih, or_iff_right not_hasParentStep_nil]

theorem hasParentStep_append_replicate (t : Text) (k : Nat) :
    HasParentStep (t ++ List.replicate k '/') ↔ HasParentStep t := by
  cases k with
  | zero => rw [List.replicate_zero, List.append_nil]
  | succ k =>
    have hnone : ¬ HasParentStep (List.replicate k '/') := by
      have h := (hasParentStep_replicate_append k []).not.mpr not_hasParentStep_nil
      rwa [List.append_nil] at h
    rw [List.replicate_succ, hasParentStep_append_slash, or_iff_left hnone]

theorem hasParentStep_strip (t : Text) : HasParentStep (strip '/' t) ↔ HasParentStep t := by
  obtain ⟨k, hk⟩ := exists_eq_stripEnd_append '/' (t.dropWhile (· == '/'))
  obtain ⟨n, hn⟩ : ∃ n, t.takeWhile (· == '/') = List.replicate n '/' := by
    refine ⟨_, List.eq_replicate_of_mem fun c hc => ?_⟩
    simpa using List.mem_takeWhile_imp hc
  rw [← hasParentStep_append_replicate _ k, strip, ← hk, ← hasParentStep_replicate_append n, ← hn,
    List.takeWhile_append_dropWhile]

namespace ModuleSource

variable {raw base : Text}

theorem hasParentStep_subpath? (t : Text) :
    HasParentStep ((subpath? t).getD []) ↔ HasParentStep t := by
  rw [← hasParentStep_strip t, subpath?]
  cases h : strip '/' t with
  | nil => rfl
  | cons c u => rfl

/-- The text behind the first double slash, whether or not that belongs to a scheme. -/
def behindSeparator? : Text → Option Text
  | [] => none
  | '/' :: '/' :: rest => some rest
  | _ :: rest => behindSeparator? rest

theorem exists_of_behindSeparator? (h : behindSeparator? t = some u) :
    ∃ v, t = v ++ '/' :: '/' :: u := by
  fun_induction behindSeparator? t with
  | case1 => cases h
  | case2 rest =>
    obtain rfl := Option.some.inj h
    exact ⟨[], rfl⟩
  | case3 c rest _ ih =>
    obtain ⟨v, rfl⟩ := ih h
    exact ⟨c :: v, rfl⟩

theorem behindSeparator?_of_isPath (h : IsPath base) : behindSeparator? base = none := by
  rw [Option.eq_none_iff_forall_ne_some]
  intro u hu
  obtain ⟨v, hv⟩ := exists_of_behindSeparator? hu
  exact h.single v u hv

theorem behindSeparator?_append (h : behindSeparator? base = none)
    (hlast : base.getLast? ≠ some '/') (t : Text) :
    behindSeparator? (base ++ t) = behindSeparator? t := by
  fun_induction behindSeparator? base with
  | case1 => rfl
  | case2 rest => cases h
  | case3 c rest hdouble ih =>
    rw [List.cons_append, behindSeparator?, ih h (getLast?_of_cons hlast)]
    -- A slash at the end of the base is excluded, and two slashes in it are.
    rintro v rfl hv
    cases rest with
    | nil => exact hlast rfl
    | cons d rest => exact hdouble rest rfl (by rw [(List.cons.inj hv).1])

/-- The sub-path as it stands in a source: behind the tree's root, or else behind a double slash. -/
def writtenPath (raw : Text) : Text :=
  (after? treeRoot (trim raw) <|> behindSeparator? (trim raw)).getD []

theorem behindSeparator?_publishedText (h : IsPath base) (subpath : Option Text) :
    behindSeparator? (publishedText base subpath) = subpath := by
  cases subpath with
  | none => exact behindSeparator?_of_isPath h
  | some t =>
    rw [publishedText, List.append_assoc,
      behindSeparator?_append (behindSeparator?_of_isPath h) h.last]
    rfl

theorem writtenPath_of_inTree {rest : Text} (h : treeRemainder? (trim raw) = some rest) :
    writtenPath raw = rest := by
  rw [treeRemainder?] at h
  split at h
  · next hshort =>
    rw [writtenPath, hshort, ← Option.some.inj h]
    decide
  · rw [writtenPath, h]
    rfl

theorem writtenPath_of_not_inTree (h : treeRemainder? (trim raw) = none) :
    writtenPath raw = (behindSeparator? (trim raw)).getD [] := by
  rw [treeRemainder?] at h
  split at h
  · cases h
  · rw [writtenPath, h]
    rfl

theorem hasParentStep_behind_slashes (hbase : IsPath base) (k : Nat) :
    ¬ HasParentStep ((behindSeparator? (base ++ List.replicate k '/')).getD []) := by
  rw [behindSeparator?_append (behindSeparator?_of_isPath hbase) hbase.last]
  match k with
  | 0 | 1 => exact not_hasParentStep_nil
  | k + 2 =>
    change ¬ HasParentStep (List.replicate k '/')
    rw [← List.append_nil (List.replicate k '/'), hasParentStep_replicate_append]
    exact not_hasParentStep_nil

theorem hasParentStep_behind_separator (hbase : IsPath base) (k : Nat) (t : Text) :
    HasParentStep ((behindSeparator? (base ++ List.replicate k '/' ++ separator ++ t)).getD []) ↔
      HasParentStep t := by
  have hslashes : List.replicate k '/' ++ (separator ++ t)
      = '/' :: '/' :: (List.replicate k '/' ++ t) := by
    have hseparator : separator = List.replicate 2 '/' := by decide
    rw [hseparator, ← List.append_assoc, List.replicate_append_replicate, Nat.add_comm,
      ← List.replicate_append_replicate]
    rfl
  rw [List.append_assoc, List.append_assoc,
    behindSeparator?_append (behindSeparator?_of_isPath hbase) hbase.last, hslashes]
  exact hasParentStep_replicate_append k t

/-- Reading a source as the project's own drops no step upwards and makes none. -/
theorem hasParentStep_subpath_iff (hbase : IsPath base) (hown : (classify raw).isOwn base) :
    HasParentStep ((classify raw).subpath.getD []) ↔ HasParentStep (writtenPath raw) := by
  cases htree : treeRemainder? (trim raw) with
  | some rest =>
    rw [classify_of_inTree htree, writtenPath_of_inTree htree]
    exact hasParentStep_subpath? rest
  | none =>
    rw [writtenPath_of_not_inTree htree]
    cases hread : classify raw with
    | inTree subpath =>
      have hinTree := isInTree_classify raw
      rw [hread, htree] at hinTree
      cases hinTree
    | published b subpath =>
      obtain rfl : b = base := by simpa [hread, isOwn, isInTree, base?] using hown
      obtain ⟨-, ⟨-, hb, rfl⟩ | ⟨v, t, hsplit, hb, rfl⟩⟩ := exists_of_classify hread
      · obtain ⟨k, hk⟩ := exists_eq_stripEnd_append '/' (trim raw)
        rw [hb] at hk
        rw [hk]
        exact iff_of_false not_hasParentStep_nil (hasParentStep_behind_slashes hbase k)
      · obtain ⟨k, hk⟩ := exists_eq_stripEnd_append '/' v
        rw [hb] at hk
        rw [eq_append_of_splitSubpath? hsplit, hk, hasParentStep_behind_separator hbase]
        exact hasParentStep_subpath? t

end ModuleSource

namespace Mode

variable {mode : Mode} {reply : Coordinates → Reply} {b : ModuleBlock} {source : Text}
  {version : Option Text}

theorem of_verdict_eq_rewrite (h : mode.verdict reply b = .rewrite source version) :
    mode.qualifies b ∧ source = mode.newSource b := by
  rw [verdict] at h
  split at h
  · next hqualifies =>
    split at h
    · injection h with hsource
      exact ⟨hqualifies, hsource.symm⟩
    · cases h
  · cases h

end Mode

open ModuleSource

/-- What is done to a declaration whose source is the given one. A source in the tree is taken for
the project's own wherever it leads, and a step upwards in it is published. -/
structure KeepsParentSteps (r : Repository) (s : RegistrySettings) (e : Edit) (raw : Text) :
    Prop where
  qualifies_iff : (Mode.toRegistryOf r s).qualifies e.block ↔ trim raw = "../..".toList ∨
    treeRoot <+: trim raw ∨ (classify raw).base? = some (r.expectedBase s)
  published : ∀ source version, e.verdict = .rewrite source version →
    ∃ subpath, source = publishedText (r.expectedBase s) subpath ∧
      behindSeparator? source = subpath ∧
      (HasParentStep (subpath.getD []) ↔ HasParentStep (writtenPath raw))

variable {σ : Type} {r : Repository} {s : RegistrySettings}

theorem qualifies_toRegistryOf_iff {b : ModuleBlock} {raw : Text} (hraw : b.source = some raw) :
    (Mode.toRegistryOf r s).qualifies b ↔ trim raw = "../..".toList ∨ treeRoot <+: trim raw ∨
      (classify raw).base? = some (r.expectedBase s) := by
  have htree : (classify raw).isInTree ↔ trim raw = "../..".toList ∨ treeRoot <+: trim raw := by
    rw [isInTree_classify, ← Option.ne_none_iff_isSome, ne_eq, treeRemainder?_eq_none_iff, not_not]
    exact or_congr_right (exists_congr fun t => eq_comm)
  rw [Mode.toRegistryOf, Mode.qualifies, Mode.reference?_of_source hraw, Option.all_some, isOwn,
    Bool.or_eq_true, htree, beq_iff_eq, or_assoc]

/-- Whatever the registry says, the published source of a declaration climbs exactly when its source
does behind the tree's root, or in the sub-path of the module's published form. -/
theorem keepsParentSteps_of_mem_editsOf (hsegmented : r.IsSegmented s) (ask : Lookup σ)
    (content : Text) (st : σ) : ∀ e ∈ editsOf ask (Mode.toRegistryOf r s) content st,
      ∀ raw ∈ e.block.source, KeepsParentSteps r s e raw := by
  intro e he raw hraw
  have hbase := hsegmented.isPath_expectedBase
  refine ⟨qualifies_toRegistryOf_iff hraw, fun source version hverdict => ?_⟩
  obtain ⟨reply, b, rfl⟩ := exists_of_mem_editsOf he
  have hraw : b.source = some raw := hraw
  rw [Edit.verdict_of] at hverdict
  obtain ⟨hqualifies, rfl⟩ := Mode.of_verdict_eq_rewrite hverdict
  rw [Mode.toRegistryOf, Mode.qualifies, Mode.reference?_of_source hraw] at hqualifies
  refine ⟨(classify raw).subpath, ?_, ?_, hasParentStep_subpath_iff hbase hqualifies⟩
  · rw [Mode.toRegistryOf, Mode.newSource, Mode.reference?_of_source hraw]
    rfl
  · rw [Mode.toRegistryOf, Mode.newSource, Mode.reference?_of_source hraw]
    exact behindSeparator?_publishedText hbase _

theorem keepsParentSteps_of_mem_editsOf_moduleFrom :
    let r : Repository := ⟨"azure", "vnet"⟩
    let s := publisherAt "https://tf.corp/"
    let raw : Text := " ../../net/./..x/"
    r.IsSegmented s ∧ ∃ e ∈ editsOf (.constant vnetOnly) (Mode.toRegistryOf r s)
      (moduleFrom raw) (),
      e.block.source = some raw ∧
      e.verdict = .rewrite "tf.corp/acme/vnet/azure//net/./..x" (some "~> 2.0") ∧
      KeepsParentSteps r s e raw := by
  intro r s raw
  have hsegmented : r.IsSegmented s :=
    ⟨⟨by decide, by decide⟩, ⟨by decide, by decide⟩, ⟨by decide, by decide⟩,
      ⟨by decide, by decide⟩⟩
  have hedits : (editsOf (.constant vnetOnly) (Mode.toRegistryOf r s) (moduleFrom raw) ()).map
      (fun e => (e.block.source, e.verdict))
        = [(some raw, .rewrite "tf.corp/acme/vnet/azure//net/./..x" (some "~> 2.0"))] := by
    decide +kernel
  obtain ⟨e, he, heq⟩ := List.mem_map.mp (hedits ▸ List.mem_singleton_self _)
  obtain ⟨hsource, hverdict⟩ := Prod.mk.inj heq
  exact ⟨hsegmented, e, he, hsource, hverdict,
    keepsParentSteps_of_mem_editsOf hsegmented (.constant vnetOnly) (moduleFrom raw)
      () e he raw hsource⟩

/-- A source two folders up and one more leaves the tree, and is published as a sub-path of the
module. -/
theorem exists_published_climb :
    Settings.fault? ⟨publisherAt "", "main.tf", 1⟩ = none ∧
      Repository.ofName? "terraform-azure-vnet" = some ⟨"azure", "vnet"⟩ ∧
      (classify "../../../dns").isInTree ∧
      (transform (.constant vnetOnly) (Mode.toRegistryOf ⟨"azure", "vnet"⟩ (publisherAt ""))
        (moduleFrom "../../../dns") ()).1.content
        = joinLines "\n" true [r#"module "vnet" {"#, r#"  source  = "acme/vnet/azure//../dns""#,
            r#"  version = "~> 2.0""#, r"}"] ∧
      behindSeparator? "acme/vnet/azure//../dns" = some "../dns".toList ∧
      HasParentStep "../dns" := by
  exact ⟨by decide, by decide, by decide, by decide +kernel, by decide, by decide⟩

end SourceSwitch
