import SourceSwitch.Proofs.ModuleSource
import SourceSwitch.Proofs.Registry.Cache
import SourceSwitch.Rewrite.Plan

namespace SourceSwitch

namespace Lookup

def IsConstant {σ : Type} (ask : Lookup σ) (reply : Coordinates → Reply) : Prop :=
  ∀ c s, (ask c s).1 = reply c

def constant (reply : Coordinates → Reply) : Lookup Unit := fun c s => (reply c, s)

theorem isConstant_constant (reply : Coordinates → Reply) : (constant reply).IsConstant reply :=
  fun _ _ => rfl

theorem isConstant_fixed (answer : Coordinates → Answer) :
    (fixed answer).IsConstant fun c => ⟨answer c, []⟩ := fun _ _ => rfl

/-- In states of a kind the registry gives the same answers as the replies, and it stays in such
states. -/
def Gives {σ : Type} (ask : Lookup σ) (kind : σ → Prop) (reply : Coordinates → Reply) : Prop :=
  ∀ c s, kind s → (ask c s).1.answer = (reply c).answer ∧ kind (ask c s).2

theorem IsConstant.gives {σ : Type} {ask : Lookup σ} {reply : Coordinates → Reply}
    (h : ask.IsConstant reply) : ask.Gives (fun _ => True) reply := by
  intro c s _
  rw [h]
  exact ⟨rfl, trivial⟩

end Lookup

namespace Mode

def written : Mode → List Text
  | toRegistry expectedBase _ => [expectedBase]
  | toTree _ | refresh .. => []

def qualifies (mode : Mode) (b : ModuleBlock) : Bool :=
  match mode with
  | toTree expectedBase => b.reference?.any (·.isOwn expectedBase)
  | toRegistry expectedBase _ => b.reference?.all (·.isOwn expectedBase)
  | refresh leads _ => (b.reference?.bind (·.base?)).any fun base => leads.any (·.isPrefixOf base)

def baseOf (b : ModuleBlock) : Text := (b.reference?.bind (·.base?)).getD []

def target (mode : Mode) (b : ModuleBlock) : Except LookupError (Option Coordinates) :=
  match mode with
  | toTree _ => .ok none
  | toRegistry _ c => .ok (some c)
  | refresh _ defaultHost => (Coordinates.ofBase defaultHost (baseOf b)).map some

def targetText (mode : Mode) (b : ModuleBlock) : Text :=
  match mode.target b with
  | .ok (some c) => c.text
  | .ok none => []
  | .error _ => baseOf b

def newSource (mode : Mode) (b : ModuleBlock) : Text :=
  match mode with
  | toTree _ => ModuleSource.treeText (b.reference?.bind (·.subpath))
  | toRegistry expectedBase _ =>
    ModuleSource.publishedText expectedBase (b.reference?.bind (·.subpath))
  | refresh .. => b.source.getD []

def newVersion (mode : Mode) (reply : Coordinates → Reply) (b : ModuleBlock) :
    Except LookupError (Option Text) :=
  match mode.target b with
  | .ok (some c) => (reply c).answer.constraint.map fun k => some k.text
  | .ok none => .ok none
  | .error e => .error e

def verdict (mode : Mode) (reply : Coordinates → Reply) (b : ModuleBlock) : Verdict :=
  if mode.qualifies b then
    match mode.newVersion reply b with
    | .ok version => .rewrite (mode.newSource b) version
    | .error e => .unresolved (.of b (mode.targetText b) e)
  else .keep

/-- The coordinates that are asked for on behalf of a declaration. -/
def asks? (mode : Mode) (b : ModuleBlock) : Option Coordinates :=
  if mode.qualifies b then (mode.target b).toOption.join else none

def planFor (mode : Mode) (b : ModuleBlock) (events : List Log.Event) : Plan :=
  match mode.target b with
  | .ok none => .rewrite (mode.newSource b)
  | .ok (some c) => .pin (mode.newSource b) c events
  | .error e => .reject (baseOf b) e

theorem plan_of_not_qualifies {mode : Mode} {b : ModuleBlock} (h : ¬ mode.qualifies b) :
    mode.plan b = .keep := by
  cases mode with
  | toTree expectedBase =>
    rw [plan]
    cases hr : b.reference? with
    | none => rfl
    | some m =>
      rw [qualifies, hr] at h
      exact if_neg h
  | toRegistry expectedBase c => exact if_neg h
  | refresh leads defaultHost =>
    rw [plan]
    cases hr : b.reference?.bind (·.base?) with
    | none => rfl
    | some base =>
      rw [qualifies, hr] at h
      exact if_neg h

theorem exists_plan_eq {mode : Mode} {b : ModuleBlock} (h : mode.qualifies b) :
    ∃ events, mode.plan b = mode.planFor b events := by
  cases mode with
  | toTree expectedBase =>
    refine ⟨[], ?_⟩
    rw [plan, planFor, target, newSource]
    cases hr : b.reference? with
    | none => rw [qualifies, hr] at h; cases h
    | some m =>
      rw [qualifies, hr] at h
      exact if_pos h
  | toRegistry expectedBase c => exact ⟨_, if_pos h⟩
  | refresh leads defaultHost =>
    refine ⟨[], ?_⟩
    rw [plan, planFor, target, newSource, baseOf]
    cases hr : b.reference?.bind (·.base?) with
    | none => rw [qualifies, hr] at h; cases h
    | some base =>
      rw [qualifies, hr] at h
      apply (if_pos h).trans
      rw [Option.getD_some]
      cases Coordinates.ofBase defaultHost base <;> rfl

theorem isSubpath_of_reference? {b : ModuleBlock} {t : Text}
    (h : b.reference?.bind (·.subpath) = some t) :
    ModuleSource.IsSubpath t := by
  obtain ⟨m, hm, ht⟩ := Option.bind_eq_some_iff.mp h
  obtain ⟨raw, -, rfl⟩ := Option.map_eq_some_iff.mp hm
  exact ModuleSource.isSubpath_of_classify ht

theorem reference?_of_source {b : ModuleBlock} {t : Text} (h : b.source = some t) :
    b.reference? = some (ModuleSource.classify t) := by
  rw [ModuleBlock.reference?, h]
  rfl

theorem classify_newSource_toTree (base : Text) (b : ModuleBlock) :
    ModuleSource.classify ((toTree base).newSource b)
      = .inTree (b.reference?.bind (·.subpath)) := by
  apply ModuleSource.classify_treeText
  intro t ht
  exact isSubpath_of_reference? ht

theorem not_mem_subpath {b : ModuleBlock} {c : Char} (h : ∀ t ∈ b.source, c ∉ t) :
    ∀ t ∈ b.reference?.bind (·.subpath), c ∉ t := by
  intro t ht hct
  obtain ⟨m, hm, ht⟩ := Option.bind_eq_some_iff.mp ht
  obtain ⟨raw, hraw, rfl⟩ := Option.map_eq_some_iff.mp hm
  exact h raw hraw (ModuleSource.mem_of_mem_subpath ht hct)

theorem not_mem_treeText {c : Char} (hc : c ≠ '/' ∧ c ≠ '.') {subpath : Option Text}
    (h : ∀ t ∈ subpath, c ∉ t) : c ∉ ModuleSource.treeText subpath := by
  have hroot : c ∉ ModuleSource.treeRoot := by
    have hchars : ∀ d ∈ ModuleSource.treeRoot, d = '/' ∨ d = '.' := by decide
    intro hm
    exact (hchars c hm).elim hc.1 hc.2
  cases subpath with
  | none => exact hroot
  | some t =>
    simp only [ModuleSource.treeText, List.mem_append, List.mem_singleton, not_or]
    exact ⟨⟨hroot, h t rfl⟩, hc.1⟩

theorem not_mem_publishedText {c : Char} (hc : c ≠ '/') {base : Text} (hbase : c ∉ base)
    {subpath : Option Text} (h : ∀ t ∈ subpath, c ∉ t) :
    c ∉ ModuleSource.publishedText base subpath := by
  have hseparator : c ∉ ModuleSource.separator := by
    have hchars : ∀ d ∈ ModuleSource.separator, d = '/' := by decide
    intro hm
    exact hc (hchars c hm)
  cases subpath with
  | none => exact hbase
  | some t =>
    simp only [ModuleSource.publishedText, List.mem_append, not_or]
    exact ⟨⟨hbase, hseparator⟩, h t rfl⟩

/-- Nothing is added to a source but slashes, dots and what the mode is made of. -/
theorem not_mem_newSource {mode : Mode} {b : ModuleBlock} {c : Char} (hc : c ≠ '/' ∧ c ≠ '.')
    (hmode : ∀ t ∈ mode.written, c ∉ t) (hsource : ∀ t ∈ b.source, c ∉ t) :
    c ∉ mode.newSource b := by
  cases mode with
  | toTree expectedBase => exact not_mem_treeText hc (not_mem_subpath hsource)
  | toRegistry expectedBase coordinates =>
    exact not_mem_publishedText hc.1 (hmode _ List.mem_cons_self) (not_mem_subpath hsource)
  | refresh leads defaultHost =>
    rw [newSource]
    cases h : b.source with
    | none => exact List.not_mem_nil
    | some t => exact hsource t h

variable {σ : Type} {ask : Lookup σ} {reply : Coordinates → Reply}

theorem not_mem_text {c : Char} (hc : ¬ c.isDigit ∧ c ∉ ['~', '>', ' ', '.']) (k : Constraint) :
    c ∉ k.text := by
  have hdigits (n : Nat) : c ∉ Text.ofNat n := by
    intro hn
    exact hc.1 (Text.isDigit_of_mem_ofNat hn)
  have hstart : ∀ d ∈ "~> ".toList, d ∈ ['~', '>', ' ', '.'] := by decide
  have hdot : ∀ d ∈ ".".toList, d ∈ ['~', '>', ' ', '.'] := by decide
  simp only [Constraint.text, List.mem_append, not_or]
  exact ⟨⟨⟨fun hm => hc.2 (hstart c hm), hdigits _⟩, fun hm => hc.2 (hdot c hm)⟩, hdigits _⟩

theorem not_mem_newVersion {mode : Mode} {b : ModuleBlock} {version : Text} {c : Char}
    (hc : ¬ c.isDigit ∧ c ∉ ['~', '>', ' ', '.'])
    (h : mode.newVersion reply b = .ok (some version)) : c ∉ version := by
  rw [newVersion] at h
  cases ht : mode.target b with
  | error e => rw [ht] at h; cases h
  | ok target =>
    cases target with
    | none => rw [ht] at h; cases h
    | some coordinates =>
      simp only [ht] at h
      cases hk : (reply coordinates).answer.constraint with
      | error e => rw [hk] at h; cases h
      | ok k =>
        rw [hk] at h
        obtain rfl : k.text = version := Option.some.inj (Except.ok.inj h)
        exact not_mem_text hc k

/-- A verdict does not depend on what a registry logs, nor on its state while that is of the
kind. -/
theorem run_plan_of_gives {kind : σ → Prop} (h : ask.Gives kind reply) (mode : Mode)
    (b : ModuleBlock) {s : σ} (hs : kind s) :
    ((mode.plan b).run ask b s).1.1 = mode.verdict reply b ∧
      kind ((mode.plan b).run ask b s).2 := by
  by_cases hq : mode.qualifies b
  · obtain ⟨events, he⟩ := exists_plan_eq hq
    rw [verdict, if_pos hq, he, planFor, newVersion, targetText]
    cases mode.target b with
    | error e => exact ⟨rfl, hs⟩
    | ok c =>
      cases c with
      | none => exact ⟨rfl, hs⟩
      | some c =>
        obtain ⟨hanswer, hs'⟩ := h c s hs
        refine ⟨?_, hs'⟩
        change (Plan.settle b (mode.newSource b) c (ask c s).1).1 = _
        rw [Plan.settle, hanswer]
        simp only
        cases (reply c).answer.constraint <;> rfl
  · rw [verdict, if_neg hq, plan_of_not_qualifies hq]
    exact ⟨rfl, hs⟩

theorem run_plan (h : ask.IsConstant reply) (mode : Mode) (b : ModuleBlock) (s : σ) :
    ((mode.plan b).run ask b s).1.1 = mode.verdict reply b :=
  (run_plan_of_gives h.gives mode b trivial).1

/-- Whatever the registry replies, one call at most is made, and the verdict is that over its
reply. -/
theorem exists_run_plan_logged (ask : Lookup σ) (mode : Mode) (b : ModuleBlock) (calls : List Call)
    (s : σ) : ∃ reply : Reply,
      ((mode.plan b).run ask.logged b (calls, s)).1
        = ((mode.plan b).run (.constant fun _ => reply) b ()).1 ∧
      ((mode.plan b).run ask.logged b (calls, s)).2.1
        = calls ++ ((mode.asks? b).map (⟨·, reply⟩)).toList := by
  by_cases hq : mode.qualifies b
  · obtain ⟨events, he⟩ := exists_plan_eq hq
    rw [asks?, if_pos hq, he, planFor]
    cases mode.target b with
    | error e => exact ⟨⟨.error e, []⟩, rfl, (List.append_nil _).symm⟩
    | ok c =>
      cases c with
      | none => exact ⟨⟨.error (.notFound []), []⟩, rfl, (List.append_nil _).symm⟩
      | some c => exact ⟨(ask c s).1, rfl, rfl⟩
  · rw [asks?, if_neg hq, plan_of_not_qualifies hq]
    exact ⟨⟨.error (.notFound []), []⟩, rfl, (List.append_nil _).symm⟩

end Mode

end SourceSwitch
