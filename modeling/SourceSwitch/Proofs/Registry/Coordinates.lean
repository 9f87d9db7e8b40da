import SourceSwitch.Proofs.ModuleSource
import SourceSwitch.Registry.Coordinates

namespace SourceSwitch

open Text

def IsSegment (t : Text) : Prop := t ≠ [] ∧ '/' ∉ t

theorem not_mem_of_mem_splitOn {α : Type} [DecidableEq α] {a : α} {t w : List α}
    (h : w ∈ t.splitOn a) : a ∉ w := by
  induction t generalizing w with
  | nil =>
    rw [List.splitOn_nil, List.mem_singleton] at h
    subst h
    exact List.not_mem_nil
  | cons c t ih =>
    rw [List.splitOn, List.splitOnP_cons_eq_if_modifyHead] at h
    obtain ⟨first, others, hsplit⟩ := List.exists_cons_of_ne_nil (List.splitOnP_ne_nil (· == a) t)
    rw [List.splitOn, hsplit] at ih
    split at h
    · rcases List.mem_cons.mp h with rfl | h
      · exact List.not_mem_nil
      · rw [hsplit] at h
        exact ih h
    · next hc =>
      rw [hsplit, List.modifyHead_cons] at h
      rcases List.mem_cons.mp h with rfl | h
      · rw [List.mem_cons, not_or]
        exact ⟨fun hac => hc (by simp [hac]), ih List.mem_cons_self⟩
      · exact ih (List.mem_cons_of_mem _ h)

theorem isSegment_of_mem_splitOn {t : Text} (h : ¬ (t.splitOn '/').any List.isEmpty) :
    ∀ w ∈ t.splitOn '/', IsSegment w := by
  intro w hw
  constructor
  · rintro rfl
    apply h
    exact List.any_eq_true.mpr ⟨[], hw, rfl⟩
  · exact not_mem_of_mem_splitOn hw

theorem append_slash_inj {v w t u : Text} (hv : '/' ∉ v) (hw : '/' ∉ w)
    (h : v ++ '/' :: t = w ++ '/' :: u) : v = w ∧ t = u := by
  induction v generalizing w with
  | nil =>
    cases w with
    | nil => exact ⟨rfl, (List.cons.inj h).2⟩
    | cons d w => exact absurd ((List.cons.inj h).1 ▸ List.mem_cons_self) hw
  | cons c v ih =>
    cases w with
    | nil => exact absurd ((List.cons.inj h).1 ▸ List.mem_cons_self) hv
    | cons d w =>
      obtain ⟨rfl, hrest⟩ := List.cons.inj h
      obtain ⟨rfl, htu⟩ := ih (mt (List.mem_cons_of_mem c) hv)
          (mt (List.mem_cons_of_mem c) hw) hrest
      exact ⟨rfl, htu⟩

theorem append_slash_inj_right {v w t u : Text} (ht : '/' ∉ t) (hu : '/' ∉ u)
    (h : v ++ '/' :: t = w ++ '/' :: u) : v = w ∧ t = u := by
  have hreverse := congrArg List.reverse h
  simp only [List.reverse_append, List.reverse_cons, List.append_assoc, List.singleton_append]
    at hreverse
  obtain ⟨hlast, hfront⟩ :=
    append_slash_inj (mt List.mem_reverse.mp ht) (mt List.mem_reverse.mp hu) hreverse
  exact ⟨List.reverse_injective hfront, List.reverse_injective hlast⟩

/-- Segments with one slash between two of them. -/
structure IsPath (t : Text) : Prop extends ModuleSource.IsSubpath t where
  single : ∀ v w, t ≠ v ++ '/' :: '/' :: w

theorem IsSegment.isPath {t : Text} (h : IsSegment t) : IsPath t := by
  refine ⟨⟨h.1, ?_, ?_⟩, ?_⟩
  · intro hhead
    exact h.2 (List.mem_of_head? hhead)
  · intro hlast
    exact h.2 (List.mem_of_getLast? hlast)
  · rintro v w rfl
    exact h.2 (List.mem_append_right v List.mem_cons_self)

theorem IsPath.cons {v t : Text} (hv : IsSegment v) (ht : IsPath t) : IsPath (v ++ '/' :: t) := by
  obtain ⟨c, v', rfl⟩ := List.exists_cons_of_ne_nil hv.1
  refine ⟨⟨List.cons_ne_nil _ _, ?_, ?_⟩, ?_⟩
  · intro hhead
    obtain rfl : c = '/' := Option.some.inj hhead
    exact hv.2 List.mem_cons_self
  · rw [List.getLast?_append_cons, List.getLast?_cons_of_ne_nil ht.ne_nil]
    exact ht.last
  · intro u w h
    rcases List.append_eq_append_iff.mp h with ⟨_ | ⟨d, x⟩, -, hx⟩ | ⟨_ | ⟨d, x⟩, hx, hd⟩
    · apply ht.head
      rw [(List.cons.inj hx).2]
      rfl
    · exact ht.single x w (List.cons.inj hx).2
    · apply ht.head
      rw [← (List.cons.inj hd).2]
      rfl
    · apply hv.2
      rw [hx, ← (List.cons.inj hd).1]
      exact List.mem_append_right u List.mem_cons_self

namespace Host

theorem normalize_of_not_mem {host : Text} (h : '/' ∉ host) :
    normalize host = (nonempty? (trim host)).getD default := by
  have htrim : '/' ∉ trim host := fun hm => h ((trim_sublist host).subset hm)
  have hscheme {scheme : Text} (hs : '/' ∈ scheme) : after? scheme (trim host) = none := by
    rw [Option.eq_none_iff_forall_ne_some]
    intro rest hrest
    apply htrim
    rw [after?_eq_some_iff.mp hrest]
    exact List.mem_append_left rest hs
  have hlast : (trim host).getLast? ≠ some '/' := by
    intro hl
    exact htrim (List.mem_of_getLast? hl)
  have hwithout : withoutScheme (trim host) = trim host := by
    rw [withoutScheme, hscheme (by decide), hscheme (by decide)]
    rfl
  rw [normalize, hwithout, stripEnd_eq_self hlast]

theorem slash_not_mem_normalize {host : Text} (h : '/' ∉ host) : '/' ∉ normalize host := by
  rw [normalize_of_not_mem h]
  cases ht : nonempty? (trim host) with
  | none => decide
  | some t =>
    obtain ⟨rfl, -⟩ := nonempty?_eq_some_iff.mp ht
    exact fun hm => h ((trim_sublist host).subset hm)

theorem trim_normalize {host : Text} (h : '/' ∉ host) : trim (normalize host) = normalize host := by
  rw [normalize_of_not_mem h]
  cases ht : nonempty? (trim host) with
  | none => decide
  | some t =>
    obtain ⟨rfl, -⟩ := nonempty?_eq_some_iff.mp ht
    exact trim_trim host

theorem normalize_of_isSegment {host : Text} (h : IsSegment host) (htrim : trim host = host) :
    normalize host = host := by
  rw [normalize_of_not_mem h.2, htrim, nonempty?_eq_some_iff.mpr ⟨rfl, h.1⟩, Option.getD_some]

end Host

namespace Coordinates

variable {c : Coordinates} {defaultHost base : Text}

theorem path_eq (c : Coordinates) : c.path = c.owner ++ '/' :: (c.name ++ '/' :: c.provider) := by
  have hslash : "/".toList = ['/'] := by decide
  simp [path, hslash]

theorem text_eq (c : Coordinates) : c.text = c.host ++ '/' :: c.path := by
  have hslash : "/".toList = ['/'] := by decide
  simp [text, hslash]

theorem exists_of_ofBase? (h : ofBase? defaultHost base = some c) :
    IsSegment c.owner ∧ IsSegment c.name ∧ IsSegment c.provider ∧
      (c.host = Host.normalize defaultHost ∧ strip '/' base = c.path ∨
        ∃ host, IsSegment host ∧ c.host = Host.normalize host ∧
          strip '/' base = host ++ '/' :: c.path) := by
  have hjoin : ['/'].intercalate ((strip '/' base).splitOn '/') = strip '/' base :=
    List.intercalate_splitOn '/'
  rw [ofBase?] at h
  split at h
  · cases h
  · next hne =>
    have hsegment := isSegment_of_mem_splitOn hne
    split at h
    · next owner name provider hparts =>
      obtain rfl := Option.some.inj h
      rw [hparts] at hsegment hjoin
      simp only [List.forall_mem_cons] at hsegment
      obtain ⟨howner, hname, hprovider, -⟩ := hsegment
      refine ⟨howner, hname, hprovider, .inl ⟨rfl, ?_⟩⟩
      rw [← hjoin]
      simp [path_eq, atHost, List.intercalate, List.intersperse]
    · next host owner name provider hparts =>
      obtain rfl := Option.some.inj h
      rw [hparts] at hsegment hjoin
      simp only [List.forall_mem_cons] at hsegment
      obtain ⟨hhost, howner, hname, hprovider, -⟩ := hsegment
      refine ⟨howner, hname, hprovider, .inr ⟨host, hhost, rfl, ?_⟩⟩
      rw [← hjoin]
      simp [path_eq, atHost, List.intercalate, List.intersperse]
    · cases h

theorem isPath_path (howner : IsSegment c.owner) (hname : IsSegment c.name)
    (hprovider : IsSegment c.provider) : IsPath c.path := by
  rw [path_eq]
  exact .cons howner (.cons hname hprovider.isPath)

theorem splitOn_cons {v : Text} (hv : IsSegment v) (t : Text) :
    (v ++ '/' :: t).splitOn '/' = v :: t.splitOn '/' := by
  apply List.splitOnP_append_cons_of_forall_mem
  · intro d hd
    rw [beq_eq_false_iff_ne]
    rintro rfl
    exact hv.2 hd
  · exact beq_self_eq_true '/'

theorem splitOn_of_isSegment {v : Text} (hv : IsSegment v) : v.splitOn '/' = [v] := by
  have hsplit : (['/'].intercalate [v]).splitOn '/' = [v] :=
    List.splitOn_intercalate '/' (by simpa using hv.2) (by simp)
  simpa using hsplit

theorem splitOn_path (howner : IsSegment c.owner) (hname : IsSegment c.name)
    (hprovider : IsSegment c.provider) : c.path.splitOn '/' = [c.owner, c.name, c.provider] := by
  rw [path_eq, splitOn_cons howner, splitOn_cons hname, splitOn_of_isSegment hprovider]

theorem ofBase?_path (howner : IsSegment c.owner) (hname : IsSegment c.name)
    (hprovider : IsSegment c.provider) (defaultHost : Text) :
    ofBase? defaultHost c.path = some (atHost defaultHost c.owner c.name c.provider) := by
  rw [ofBase?, (isPath_path howner hname hprovider).strip_eq,
    splitOn_path howner hname hprovider]
  simp [howner.1, hname.1, hprovider.1]

theorem ofBase?_text (hhost : IsSegment c.host) (howner : IsSegment c.owner)
    (hname : IsSegment c.name) (hprovider : IsSegment c.provider) (defaultHost : Text) :
    ofBase? defaultHost c.text = some (atHost c.host c.owner c.name c.provider) := by
  have hpath := IsPath.cons hhost (isPath_path howner hname hprovider)
  rw [text_eq, ofBase?, hpath.strip_eq, splitOn_cons hhost, splitOn_path howner hname hprovider]
  simp [hhost.1, howner.1, hname.1, hprovider.1]

theorem host_of_ofBase? (hdefault : '/' ∉ defaultHost) (h : ofBase? defaultHost base = some c) :
    IsSegment c.host ∧ Host.normalize c.host = c.host := by
  have hnormal {host : Text} (hhost : '/' ∉ host) : IsSegment (Host.normalize host) ∧
      Host.normalize (Host.normalize host) = Host.normalize host := by
    have hsegment : IsSegment (Host.normalize host) :=
      ⟨Host.normalize_ne_nil host, Host.slash_not_mem_normalize hhost⟩
    exact ⟨hsegment, Host.normalize_of_isSegment hsegment (Host.trim_normalize hhost)⟩
  obtain ⟨-, -, -, ⟨hhost, -⟩ | ⟨host, hsegment, hhost, -⟩⟩ := exists_of_ofBase? h
  · rw [hhost]
    exact hnormal hdefault
  · rw [hhost]
    exact hnormal hsegment.2

/-- Coordinates that were read are read again from their own text, wherever the default host. -/
theorem ofBase?_text_of_ofBase? (hdefault : '/' ∉ defaultHost)
    (h : ofBase? defaultHost base = some c) (otherHost : Text) : ofBase? otherHost c.text
      = some c := by
  obtain ⟨howner, hname, hprovider, -⟩ := exists_of_ofBase? h
  obtain ⟨hhost, hnormal⟩ := host_of_ofBase? hdefault h
  rw [ofBase?_text hhost howner hname hprovider, atHost, hnormal]

end Coordinates

end SourceSwitch
