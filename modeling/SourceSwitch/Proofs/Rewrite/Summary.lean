import Mathlib.Data.List.Perm.Basic
import SourceSwitch.Rewrite.Batch

namespace SourceSwitch

theorem pairwise_mergeSort_isLE {α : Type}
    (cmp : α → α → Ordering) [Std.TransCmp cmp] (l : List α) :
    (l.mergeSort fun a b => (cmp a b).isLE).Pairwise fun a b => (cmp a b).isLE := by
  apply List.pairwise_mergeSort
  · intro a b c
    exact Std.TransCmp.isLE_trans
  · intro a b
    have hswap : cmp b a = (cmp a b).swap := Std.OrientedCmp.eq_swap
    rw [hswap]
    cases cmp a b <;> rfl

/-- What sorting makes of a list is settled by its elements if no two of them rank alike. -/
theorem mergeSort_eq_of_perm {α : Type} (cmp : α → α → Ordering) [Std.TransCmp cmp] {l l' : List α}
    (h : l.Perm l') (hinj : ∀ a ∈ l, ∀ b ∈ l, cmp a b = .eq → a = b) :
    l.mergeSort (fun a b => (cmp a b).isLE) = l'.mergeSort (fun a b => (cmp a b).isLE) := by
  have hperm (l : List α) := List.mergeSort_perm l fun a b => (cmp a b).isLE
  apply List.Perm.eq_of_pairwise _ (pairwise_mergeSort_isLE cmp l) (pairwise_mergeSort_isLE cmp l')
  · exact (hperm l).trans (h.trans (hperm l').symm)
  · intro a b ha hb hab hba
    apply hinj a ((hperm l).mem_iff.mp ha) b (h.mem_iff.mpr ((hperm l').mem_iff.mp hb))
    exact Std.OrientedCmp.isLE_antisymm hab hba

namespace Path

def Component.label : Component → Text
  | name t => t
  | root | current | parent => []

/-- Components are compared by their kinds, and then by their names. -/
theorem Component.compare_eq :
    (compare : Component → Component → Ordering) = compareLex (compareOn rank)
    (compareOn label) := by
  funext a b
  cases a <;> cases b <;> rfl

instance : Std.TransOrd Component := by
  rw [Std.TransOrd, Component.compare_eq]
  infer_instance

theorem Component.eq_of_compare {a b : Component} (h : compare a b = .eq) : a = b := by
  rw [Component.compare_eq, compareLex, Ordering.then_eq_eq] at h
  have hrank : a.rank = b.rank := Std.LawfulEqCmp.eq_of_compare h.1
  have hlabel : a.label = b.label := Std.LawfulEqCmp.eq_of_compare h.2
  cases a <;> cases b <;> simp_all [rank, label]

instance : Std.LawfulEqOrd Component where
  eq_of_compare := Component.eq_of_compare

instance : Std.TransOrd Path := inferInstanceAs (Std.TransCmp (compareOn components))

theorem components_eq_of_compare {p q : Path} (h : compare p q = .eq) :
    p.components = q.components :=
  Std.LawfulEqCmp.eq_of_compare h

end Path

namespace Summary

variable {results results' : List (Path × Except Failure FileReport)}
  {x : Path × Except Failure FileReport}

def single (x : Path × Except Failure FileReport) : Summary := empty.record x.1 x.2

def append (s t : Summary) : Summary :=
  ⟨s.changed ++ t.changed, s.unchanged ++ t.unchanged, s.failed ++ t.failed,
    s.unresolved ++ t.unresolved⟩

def gather (results : List (Path × Except Failure FileReport)) : Summary where
  changed := results.flatMap fun x => (single x).changed
  unchanged := results.flatMap fun x => (single x).unchanged
  failed := results.flatMap fun x => (single x).failed
  unresolved := results.flatMap fun x => (single x).unresolved

theorem single_ok (path : Path) (r : FileReport) : single (path, .ok r)
    = ⟨if r.changed then [path] else [], if r.changed then [] else [path], [],
        r.unresolved.map (path, ·)⟩ := by
  rw [single, record]
  cases r.changed <;> rfl

theorem record_eq (s : Summary) (path : Path) (result : Except Failure FileReport) :
    s.record path result = s.append (single (path, result)) := by
  cases result with
  | error e => simp [record, append, single, empty]
  | ok r =>
    rw [single_ok, record]
    cases r.changed <;> simp [append]

theorem foldl_record (outcomes : List (Path × FileOutcome)) (s : Summary) :
    outcomes.foldl (fun s (path, outcome) => s.record path outcome.result) s
      = s.append (gather (outcomes.map fun x => (x.1, x.2.result))) := by
  induction outcomes generalizing s with
  | nil => simp [gather, append]
  | cons x outcomes ih =>
    obtain ⟨path, outcome⟩ := x
    rw [List.foldl_cons, ih]
    simp only [record_eq s, append, gather, List.map_cons, List.flatMap_cons, List.append_assoc]

theorem summarize_eq (outcomes : List (Path × FileOutcome)) : Batch.summarize outcomes
    = (gather (outcomes.map fun x => (x.1, x.2.result))).sorted := by
  rw [Batch.summarize, foldl_record]
  simp [append, empty]

/-- Paths tell files apart, and lines tell apart what is unresolved in a file. -/
structure IsDistinct (results : List (Path × Except Failure FileReport)) : Prop where
  path : ∀ x ∈ results, ∀ y ∈ results, x.1.components = y.1.components → x = y
  line : ∀ path r, (path, .ok r) ∈ results →
    ∀ u ∈ r.unresolved, ∀ v ∈ r.unresolved, u.line = v.line → u = v

theorem eq_of_mem_changed {p : Path} (h : p ∈ (single x).changed) : p = x.1 := by
  obtain ⟨path, e | r⟩ := x
  · cases h
  · rw [single_ok] at h
    cases hchanged : r.changed <;> simp_all

theorem eq_of_mem_unchanged {p : Path} (h : p ∈ (single x).unchanged) : p = x.1 := by
  obtain ⟨path, e | r⟩ := x
  · cases h
  · rw [single_ok] at h
    cases hchanged : r.changed <;> simp_all

theorem eq_of_mem_failed {u : Path × Text} (h : u ∈ (single x).failed) : u.1 = x.1 := by
  obtain ⟨path, e | r⟩ := x
  · rw [List.mem_singleton.mp h]
  · rw [single_ok] at h
    cases h

theorem exists_of_mem_unresolved {u : Path × Unresolved} (h : u ∈ (single x).unresolved) :
    ∃ r, x = (u.1, .ok r) ∧ u.2 ∈ r.unresolved := by
  obtain ⟨path, e | r⟩ := x
  · cases h
  · rw [single_ok] at h
    obtain ⟨entry, hentry, rfl⟩ := List.mem_map.mp h
    exact ⟨r, rfl, hentry⟩

def compareFailed : Path × Text → Path × Text → Ordering :=
  compareLex (compareOn Prod.fst) (compareOn Prod.snd)

instance : Std.TransCmp compareFailed :=
  inferInstanceAs (Std.TransCmp (compareLex (compareOn Prod.fst) (compareOn Prod.snd)))

def compareUnresolved : Path × Unresolved → Path × Unresolved → Ordering :=
  compareLex (compareOn Prod.fst) (compareOn fun u => u.2.line)

instance : Std.TransCmp compareUnresolved :=
  inferInstanceAs (Std.TransCmp (compareLex (compareOn Prod.fst) (compareOn _)))

theorem mergeSort_flatMap_perm {α : Type} (cmp : α → α → Ordering) [Std.TransCmp cmp]
    (key : α → Path) {entries : Path × Except Failure FileReport → List α}
    (h : results.Perm results') (hdistinct : IsDistinct results)
    (hcmp : ∀ u v, cmp u v = .eq → compare (key u) (key v) = .eq)
    (hkey : ∀ x, ∀ u ∈ entries x, key u = x.1)
    (hsame : ∀ x ∈ results, ∀ u ∈ entries x, ∀ v ∈ entries x, cmp u v = .eq → u = v) :
    (results.flatMap entries).mergeSort (fun u v => (cmp u v).isLE)
      = (results'.flatMap entries).mergeSort (fun u v => (cmp u v).isLE) := by
  apply mergeSort_eq_of_perm cmp (h.flatMap_right _)
  intro u hu v hv hrank
  obtain ⟨x, hx, hu⟩ := List.mem_flatMap.mp hu
  obtain ⟨y, hy, hv⟩ := List.mem_flatMap.mp hv
  obtain rfl : x = y := by
    apply hdistinct.path x hx y hy
    rw [← hkey x u hu, ← hkey y v hv]
    exact Path.components_eq_of_compare (hcmp u v hrank)
  exact hsame x hx u hu v hv hrank

theorem sorted_gather_perm (h : results.Perm results') (hdistinct : IsDistinct results) :
    (gather results).sorted = (gather results').sorted := by
  simp only [sorted, mk.injEq]
  refine ⟨?changed, ?unchanged, ?failed, ?unresolved⟩
  case changed =>
    apply mergeSort_flatMap_perm compare id h hdistinct (fun _ _ heq => heq)
    · intro x p hp
      exact eq_of_mem_changed hp
    · intro x _ p hp q hq _
      rw [eq_of_mem_changed hp, eq_of_mem_changed hq]
  case unchanged =>
    apply mergeSort_flatMap_perm compare id h hdistinct (fun _ _ heq => heq)
    · intro x p hp
      exact eq_of_mem_unchanged hp
    · intro x _ p hp q hq _
      rw [eq_of_mem_unchanged hp, eq_of_mem_unchanged hq]
  case failed =>
    apply mergeSort_flatMap_perm compareFailed Prod.fst h hdistinct
    · intro u v heq
      exact (Ordering.then_eq_eq.mp heq).1
    · intro x u hu
      exact eq_of_mem_failed hu
    · intro x _ u hu v hv heq
      apply Prod.ext
      · rw [eq_of_mem_failed hu, eq_of_mem_failed hv]
      · exact Std.LawfulEqCmp.eq_of_compare (Ordering.then_eq_eq.mp heq).2
  case unresolved =>
    apply mergeSort_flatMap_perm compareUnresolved Prod.fst h hdistinct
    · intro u v heq
      exact (Ordering.then_eq_eq.mp heq).1
    · intro x u hu
      obtain ⟨r, rfl, -⟩ := exists_of_mem_unresolved hu
      rfl
    · intro x hx u hu v hv heq
      obtain ⟨r, rfl, hu'⟩ := exists_of_mem_unresolved hu
      obtain ⟨r', hsame, hv'⟩ := exists_of_mem_unresolved hv
      obtain ⟨hpath, hreport⟩ := Prod.mk.inj hsame
      obtain rfl := Except.ok.inj hreport
      have hline : u.2.line = v.2.line :=
        Std.LawfulEqCmp.eq_of_compare (Ordering.then_eq_eq.mp heq).2
      exact Prod.ext hpath (hdistinct.line _ r hx u.2 hu' v.2 hv' hline)

def paths (s : Summary) : List Path := s.changed ++ s.unchanged ++ s.failed.map (·.1)

theorem paths_single (x : Path × Except Failure FileReport) : (single x).paths = [x.1] := by
  obtain ⟨path, e | r⟩ := x
  · rfl
  · rw [single_ok, paths]
    cases r.changed <;> rfl

theorem perm_paths_append (s t : Summary) : (s.append t).paths.Perm (s.paths ++ t.paths) := by
  rw [List.perm_iff_count]
  intro p
  simp only [paths, append, List.map_append, List.count_append]
  omega

theorem perm_paths_gather (results : List (Path × Except Failure FileReport)) :
    (gather results).paths.Perm (results.map (·.1)) := by
  induction results with
  | nil => exact .nil
  | cons x results ih =>
    apply (perm_paths_append (single x) (gather results)).trans
    rw [paths_single]
    exact ih.cons x.1

theorem perm_paths (results : List (Path × Except Failure FileReport)) :
    (gather results).sorted.paths.Perm (results.map (·.1)) := by
  have hsorted : (gather results).sorted.paths.Perm (gather results).paths :=
    ((List.mergeSort_perm _ _).append (List.mergeSort_perm _ _)).append
      ((List.mergeSort_perm _ _).map _)
  exact hsorted.trans (perm_paths_gather results)

end Summary

end SourceSwitch
