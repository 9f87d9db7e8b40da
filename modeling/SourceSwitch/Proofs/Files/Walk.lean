import Mathlib.Data.List.Nodup
import SourceSwitch.Files.Walk

namespace SourceSwitch

namespace Path

structure IsEntryName (name : Text) : Prop where
  ne_nil : name ≠ []
  slash_not_mem : '/' ∉ name
  ne_dot : name ≠ ['.']
  ne_dots : name ≠ ['.', '.']

instance : DecidablePred IsEntryName := fun name =>
  decidable_of_iff (name ≠ [] ∧ '/' ∉ name ∧ name ≠ ['.'] ∧ name ≠ ['.', '.'])
    ⟨fun ⟨hne, hslash, hdot, hdots⟩ => ⟨hne, hslash, hdot, hdots⟩,
      fun h => ⟨h.ne_nil, h.slash_not_mem, h.ne_dot, h.ne_dots⟩⟩

def below (p : Path) (place : List Text) : Path := place.foldl join p

variable {p : Path} {name : Text} {place : List Text}

theorem IsEntryName.head?_ne (h : IsEntryName name) : name.head? ≠ some '/' := by
  intro hhead
  exact h.slash_not_mem (List.mem_of_head? hhead)

def stepsOf (segments : List Text) : List Component :=
  ((segments.filter (· ≠ [])).map fun t =>
    if t = ['.'] then Component.current else if t = ['.', '.'] then .parent else .name t).filter
      (· ≠ .current)

theorem stepsOf_append (v w : List Text) : stepsOf (v ++ w) = stepsOf v ++ stepsOf w := by
  simp only [stepsOf, List.filter_append, List.map_append]

theorem stepsOf_entry (h : IsEntryName name) : stepsOf [name] = [.name name] := by
  simp [stepsOf, h.ne_nil, h.ne_dot, h.ne_dots]

theorem filter_steps (p : Path) :
    p.steps.filter (· ≠ .current) = stepsOf (p.text.splitOn '/') := by
  rw [steps]
  split_ifs
  · rw [List.filter_append]
    exact List.append_nil _
  · rfl

theorem text_join_ne_nil (h : IsEntryName name) : (p.join name).text ≠ [] := by
  rw [join, if_neg h.head?_ne]
  split_ifs
  · simp [h.ne_nil]
  · simp

/-- An entry's path has the segments of its folder's, and the name in the last place. -/
theorem exists_splitOn_join (hp : p.text ≠ []) (h : IsEntryName name) : ∃ front, front ≠ [] ∧
    (p.join name).text.splitOn '/' = front ++ [name] ∧
      (p.text.splitOn '/' = front ∨ p.text.splitOn '/' = front ++ [[]]) := by
  have hbehind (v : Text) : (v ++ '/' :: name).splitOn '/' = v.splitOn '/' ++ [name] := by
    rw [List.splitOn, List.splitOnP_append_cons v name (by simp)]
    exact congrArg (v.splitOn '/' ++ ·) (List.splitOn_eq_singleton h.slash_not_mem)
  by_cases hlast : p.text.getLast? = some '/'
  · obtain ⟨v, hv⟩ := List.getLast?_eq_some_iff.mp hlast
    refine ⟨v.splitOn '/', List.splitOn_ne_nil '/' v, ?_, .inr ?_⟩
    · rw [join, if_neg h.head?_ne, if_pos (.inr hlast), hv, List.append_assoc]
      exact hbehind v
    · rw [hv, List.splitOn, List.splitOnP_append_cons v [] (by simp)]
      rfl
  · refine ⟨p.text.splitOn '/', List.splitOn_ne_nil '/' p.text, ?_, .inl rfl⟩
    rw [join, if_neg h.head?_ne, if_neg (by simp [hp, hlast]), List.append_assoc]
    exact hbehind p.text

theorem isAbsolute_join (hp : p.text ≠ []) (h : IsEntryName name) :
    (p.join name).isAbsolute = p.isAbsolute := by
  obtain ⟨c, t, htext⟩ := List.exists_cons_of_ne_nil hp
  rw [isAbsolute, isAbsolute, join, if_neg h.head?_ne]
  split_ifs <;> simp [htext]

theorem components_join (hp : p.text ≠ []) (h : IsEntryName name) :
    (p.join name).components = p.components ++ [.name name] := by
  obtain ⟨front, hne, hjoin, hfront⟩ := exists_splitOn_join hp h
  obtain ⟨first, rest, rfl⟩ := List.exists_cons_of_ne_nil hne
  have hhead : ((p.join name).text.splitOn '/').head? = (p.text.splitOn '/').head? := by
    rw [hjoin]
    rcases hfront with he | he <;> rw [he] <;> rfl
  have hsteps : stepsOf ((p.join name).text.splitOn '/')
      = stepsOf (p.text.splitOn '/') ++ [.name name] := by
    have hnil : stepsOf [[]] = [] := rfl
    rw [hjoin, stepsOf_append, stepsOf_entry h]
    rcases hfront with he | he <;> simp only [he, stepsOf_append, hnil, List.append_nil]
  simp only [components, filter_steps, isAbsolute_join hp h, hhead, hsteps]
  split_ifs <;> rfl

theorem components_below (hp : p.text ≠ []) (h : ∀ name ∈ place, IsEntryName name) :
    (p.below place).components = p.components ++ place.map .name := by
  induction place generalizing p with
  | nil => exact (List.append_nil _).symm
  | cons name place ih =>
    have hname : IsEntryName name := h name List.mem_cons_self
    have hrest := ih (text_join_ne_nil (p := p) hname)
      fun other hother => h other (List.mem_cons_of_mem name hother)
    rw [below, List.foldl_cons]
    rw [below] at hrest
    rw [hrest, components_join hp hname, List.append_assoc]
    rfl

end Path

namespace Tree

/-- Folders tell their entries apart, by names that can stand in a path. -/
inductive IsProper : Tree → Prop where
  | file {content : ByteArray} : IsProper (file content)
  | link {target : Path} : IsProper (link target)
  | folder {entries : List (Text × Tree)} : (entries.map Prod.fst).Nodup →
      (∀ e ∈ entries, Path.IsEntryName e.1) → (∀ e ∈ entries, IsProper e.2) →
      IsProper (folder entries)

variable {entries : List (Text × Tree)} {t : Tree} {name : Text} {place : List Text}

theorem lookup_eq_some_iff_mem (hnodup : (entries.map Prod.fst).Nodup) :
    entries.lookup name = some t ↔ (name, t) ∈ entries := by
  induction entries with
  | nil => simp
  | cons e entries ih =>
    obtain ⟨own, u⟩ := e
    rw [List.map_cons, List.nodup_cons] at hnodup
    rw [List.lookup_cons, List.mem_cons]
    by_cases hown : name = own
    · subst hown
      have hnot : (name, t) ∉ entries := by
        intro hmem
        exact hnodup.1 (List.mem_map.mpr ⟨(name, t), hmem, rfl⟩)
      simp [hnot, eq_comm]
    · rw [beq_eq_false_iff_ne.mpr hown, ih hnodup.2]
      simp [hown]

theorem IsProper.entry (h : IsProper (.folder entries)) (hmem : (name, t) ∈ entries) :
    Path.IsEntryName name ∧ t.IsProper := by
  cases h with
  | folder _ hname hproper => exact ⟨hname _ hmem, hproper _ hmem⟩

theorem IsProper.lookup_iff (h : IsProper (.folder entries)) :
    entries.lookup name = some t ↔ (name, t) ∈ entries := by
  cases h with
  | folder hnodup _ _ => exact lookup_eq_some_iff_mem hnodup

theorem IsProper.isEntryName (h : t.IsProper) {u : Tree} (hu : t.get? place = some u) :
    ∀ name ∈ place, Path.IsEntryName name := by
  induction place generalizing t with
  | nil => exact fun _ hname => absurd hname List.not_mem_nil
  | cons first place ih =>
    cases t with
    | file | link => cases hu
    | folder entries =>
      obtain ⟨t, ht, hu⟩ := Option.bind_eq_some_iff.mp hu
      obtain ⟨hfirst, hproper⟩ := h.entry (h.lookup_iff.mp ht)
      rw [List.forall_mem_cons]
      exact ⟨hfirst, ih hproper hu⟩

theorem visitsIn_eq (skips : Visit → Bool) (path : Path) (depth : Nat)
    (entries : List (Text × Tree)) : visitsIn skips path depth entries
      = entries.flatMap fun e => visits skips (path.join e.1) (depth + 1) e.1 e.2 := by
  induction entries with
  | nil => rfl
  | cons e entries ih => rw [visitsIn, ih, List.flatMap_cons]

end Tree

namespace Visit

/-- From one visit to the next: nothing is skipped, and links are not followed. -/
inductive Reaches (skips : Visit → Bool) : Visit → Visit → Prop where
  | refl {v : Visit} : skips v = false → Reaches skips v v
  | entry {v w : Visit} {entries : List (Text × Tree)} {name : Text} {t : Tree} :
      skips v = false → v.node = .folder entries → (name, t) ∈ entries →
      Reaches skips (v.entry name t) w → Reaches skips v w

/-- Visits in any order: each that is reached from the start is made once, and no other. -/
structure IsWalk (skips : Visit → Bool) (start : Visit) (visits : List Visit) : Prop where
  nodup : visits.Nodup
  mem_iff : ∀ v, v ∈ visits ↔ Reaches skips start v

variable {skips : Visit → Bool} {v w : Visit} {place : List Text}

def at? (v : Visit) (place : List Text) : Option Visit :=
  (v.node.get? place).map fun t =>
    ⟨v.path.below place, v.depth + place.length, place.getLast?.getD v.name, t⟩

theorem at?_nil (v : Visit) : v.at? [] = some v := rfl

theorem at?_cons {entries : List (Text × Tree)} {name : Text} {t : Tree}
    (hnode : v.node = .folder entries) (ht : entries.lookup name = some t) (place : List Text) :
    v.at? (name :: place) = (v.entry name t).at? place := by
  have hget : v.node.get? (name :: place) = t.get? place := by
    rw [hnode, Tree.get?, ht, Option.bind_some]
  have hdepth : v.depth + (name :: place).length = v.depth + 1 + place.length := by
    rw [List.length_cons]
    omega
  rw [at?, at?, hget, hdepth, List.getLast?_cons, Option.getD_some]
  rfl

theorem exists_of_at?_cons {name : Text} (h : v.at? (name :: place) = some w) :
    ∃ entries t, v.node = .folder entries ∧ (name, t) ∈ entries ∧
      (v.entry name t).at? place = some w := by
  obtain ⟨u, hu, -⟩ := Option.map_eq_some_iff.mp h
  cases hnode : v.node with
  | file | link =>
    rw [hnode] at hu
    cases hu
  | folder entries =>
    rw [hnode] at hu
    obtain ⟨t, ht, -⟩ := Option.bind_eq_some_iff.mp hu
    obtain ⟨before, after, he, -⟩ := List.lookup_eq_some_iff.mp ht
    have hmem : (name, t) ∈ entries := by
      rw [he]
      exact List.mem_append_right before List.mem_cons_self
    exact ⟨entries, t, rfl, hmem, (at?_cons hnode ht place).symm.trans h⟩

theorem reaches_iff : Reaches skips v w ↔ skips v = false ∧ (w = v ∨
    ∃ entries name t, v.node = .folder entries ∧ (name, t) ∈ entries ∧
      Reaches skips (v.entry name t) w) := by
  constructor
  · intro h
    cases h with
    | refl hv => exact ⟨hv, .inl rfl⟩
    | entry hv hnode hmem h => exact ⟨hv, .inr ⟨_, _, _, hnode, hmem, h⟩⟩
  · rintro ⟨hv, rfl | ⟨entries, name, t, hnode, hmem, h⟩⟩
    · exact .refl hv
    · exact .entry hv hnode hmem h

theorem Reaches.not_skipped (h : Reaches skips v w) : skips v = false := (reaches_iff.mp h).1

theorem Reaches.exists_at? (h : Reaches skips v w) (hproper : v.node.IsProper) :
    ∃ place, v.at? place = some w := by
  induction h with
  | refl _ => exact ⟨[], at?_nil _⟩
  | entry _ hnode hmem _ ih =>
    rw [hnode] at hproper
    obtain ⟨place, hplace⟩ := ih (hproper.entry hmem).2
    exact ⟨_ :: place, (at?_cons hnode (hproper.lookup_iff.mpr hmem) place).trans hplace⟩

theorem components_of_at? (h : v.at? place = some w) (hproper : v.node.IsProper)
    (hpath : v.path.text ≠ []) :
    w.path.components = v.path.components ++ place.map .name := by
  obtain ⟨t, ht, rfl⟩ := Option.map_eq_some_iff.mp h
  exact Path.components_below hpath (hproper.isEntryName ht)

/-- Paths tell apart what is reached. -/
theorem Reaches.eq_of_components {u : Visit} (hv : Reaches skips u v) (hw : Reaches skips u w)
    (hproper : u.node.IsProper) (hpath : u.path.text ≠ [])
    (h : v.path.components = w.path.components) : v = w := by
  obtain ⟨place, hplace⟩ := hv.exists_at? hproper
  obtain ⟨other, hother⟩ := hw.exists_at? hproper
  rw [components_of_at? hplace hproper hpath, components_of_at? hother hproper hpath] at h
  obtain rfl : place = other :=
    List.map_injective_iff.mpr (fun _ _ => Path.Component.name.inj) (List.append_cancel_left h)
  exact Option.some.inj (hplace.symm.trans hother)

theorem walk_of_skipped (h : skips v = true) : v.walk skips = [] := by
  obtain ⟨path, depth, name, t⟩ := v
  cases t <;> simp [walk, Tree.visits, h]

theorem walk_of_not_folder (h : skips v = false) (hnode : v.node.isFolder = false) :
    v.walk skips = [v] := by
  obtain ⟨path, depth, name, t⟩ := v
  cases t with
  | file | link => simp [walk, Tree.visits, h]
  | folder => cases hnode

theorem walk_of_folder {entries : List (Text × Tree)} (h : skips v = false)
    (hnode : v.node = .folder entries) :
    v.walk skips = v :: entries.flatMap fun e => (v.entry e.1 e.2).walk skips := by
  obtain ⟨path, depth, name, t⟩ := v
  obtain rfl : t = .folder entries := hnode
  simp [walk, entry, Tree.visits, Tree.visitsIn_eq, h]

theorem mem_walk_iff (h : v.node.IsProper) : w ∈ v.walk skips ↔ Reaches skips v w := by
  generalize hnode : v.node = t at h
  induction h generalizing v with
  | file | link =>
    rw [reaches_iff]
    cases hv : skips v with
    | true => simp [walk_of_skipped hv]
    | false => simp [walk_of_not_folder hv (by rw [hnode]; rfl), hnode]
  | @folder entries _ _ _ ih =>
    rw [reaches_iff]
    cases hv : skips v with
    | true => simp [walk_of_skipped hv]
    | false =>
      rw [walk_of_folder hv hnode, List.mem_cons, List.mem_flatMap]
      constructor
      · rintro (rfl | ⟨e, hmem, h⟩)
        · exact ⟨rfl, .inl rfl⟩
        · exact ⟨rfl, .inr ⟨entries, e.1, e.2, hnode, hmem, (ih e hmem rfl).mp h⟩⟩
      · rintro ⟨-, rfl | ⟨others, name, t, hothers, hmem, h⟩⟩
        · exact .inl rfl
        · obtain rfl : entries = others := Tree.folder.inj (hnode.symm.trans hothers)
          exact .inr ⟨(name, t), hmem, (ih (name, t) hmem rfl).mpr h⟩

theorem exists_components_of_mem_walk_entry {name : Text} {t : Tree} (hpath : v.path.text ≠ [])
    (hname : Path.IsEntryName name) (ht : t.IsProper) (h : w ∈ (v.entry name t).walk skips) :
    ∃ place : List Text, w.path.components
      = v.path.components ++ Path.Component.name name :: place.map .name := by
  obtain ⟨place, hplace⟩ := ((mem_walk_iff ht).mp h).exists_at? ht
  have hcomponents := components_of_at? hplace ht (Path.text_join_ne_nil hname)
  have hjoin : (v.entry name t).path.components = v.path.components ++ [.name name] :=
    Path.components_join hpath hname
  rw [hjoin, List.append_assoc] at hcomponents
  exact ⟨place, hcomponents⟩

theorem nodup_walk (h : v.node.IsProper) (hpath : v.path.text ≠ []) : (v.walk skips).Nodup := by
  generalize hnode : v.node = t at h
  induction h generalizing v with
  | file | link =>
    cases hv : skips v with
    | true => simp [walk_of_skipped hv]
    | false => simp [walk_of_not_folder hv (by rw [hnode]; rfl)]
  | @folder entries hnodup hname hproper ih =>
    cases hv : skips v with
    | true => simp [walk_of_skipped hv]
    | false =>
      have hthrough {e : Text × Tree} {w : Visit} (hmem : e ∈ entries)
          (h : w ∈ (v.entry e.1 e.2).walk skips) :=
        exists_components_of_mem_walk_entry hpath (hname e hmem) (hproper e hmem) h
      rw [walk_of_folder hv hnode, List.nodup_cons, List.mem_flatMap, List.nodup_flatMap]
      refine ⟨?_, ?_, ?_⟩
      · rintro ⟨e, hmem, h⟩
        obtain ⟨place, hplace⟩ := hthrough hmem h
        exact List.cons_ne_nil _ _ (List.self_eq_append_right.mp hplace)
      · intro e hmem
        exact ih e hmem (Path.text_join_ne_nil (hname e hmem)) rfl
      · refine List.Pairwise.imp_of_mem ?_ (List.pairwise_map.mp hnodup)
        intro a b ha hb hne w hwa hwb
        obtain ⟨place, hplace⟩ := hthrough ha hwa
        obtain ⟨other, hother⟩ := hthrough hb hwb
        have hsame := List.append_cancel_left (hplace.symm.trans hother)
        exact hne (Path.Component.name.inj (List.cons.inj hsame).1)

theorem isWalk_walk (h : v.node.IsProper) (hpath : v.path.text ≠ []) :
    IsWalk skips v (v.walk skips) :=
  ⟨nodup_walk h hpath, fun _ => mem_walk_iff h⟩

end Visit

end SourceSwitch
