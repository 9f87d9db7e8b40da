import Mathlib.Data.List.Induction
import SourceSwitch.Version.Latest

namespace SourceSwitch.Version

variable {v w x : Version} {t raw : Text} {texts : List Text} {best : Option (Text × Version)}

instance : LT Version where
  lt v w := v.major < w.major ∨
    v.major = w.major ∧ (v.minor < w.minor ∨ v.minor = w.minor ∧ v.patch < w.patch)

theorem lt_iff : v < w ↔ v.major < w.major ∨
    v.major = w.major ∧ (v.minor < w.minor ∨ v.minor = w.minor ∧ v.patch < w.patch) := Iff.rfl

theorem compare_eq_gt_iff : compare v w = .gt ↔ w < v := by
  change Version.compare v w = .gt ↔ _
  rw [Version.compare, Ordering.then_eq_gt, Ordering.then_eq_gt, lt_iff]
  simp only [Nat.compare_eq_gt, Nat.compare_eq_eq]
  omega

theorem not_lt_self (v : Version) : ¬ v < v := by
  rw [lt_iff]
  omega

theorem not_lt_of_lt (h : v < w) : ¬ w < v := by
  rw [lt_iff] at *
  omega

theorem lt_of_not_lt (hvw : ¬ w < v) (hwx : w < x) : v < x := by
  rw [lt_iff] at *
  omega

theorem eq_of_not_lt (hvw : ¬ v < w) (hwv : ¬ w < v) : v = w := by
  obtain ⟨major, minor, patch⟩ := v
  obtain ⟨major', minor', patch'⟩ := w
  simp only [lt_iff] at hvw hwv
  rw [mk.injEq]
  omega

/-- The entry is the earliest of the highest: those in front of it are lower, those behind not
higher. -/
def IsLatest (texts : List Text) (raw : Text) (v : Version) : Prop :=
  ∃ front back, texts = front ++ raw :: back ∧ parse? raw = some v ∧
    (∀ t ∈ front, ∃ w, parse? t = some w ∧ w < v) ∧
    ∀ t ∈ back, ∃ w, parse? t = some w ∧ ¬ v < w

def IsChoice (texts : List Text) : Option (Text × Version) → Prop
  | none => texts = []
  | some (raw, v) => IsLatest texts raw v

theorem IsLatest.exists_parse (h : IsLatest texts raw v) (ht : t ∈ texts) :
    ∃ w, parse? t = some w ∧ ¬ v < w := by
  obtain ⟨front, back, rfl, hraw, hfront, hback⟩ := h
  rcases List.mem_append.mp ht with ht | ht
  · obtain ⟨w, hw, hlt⟩ := hfront t ht
    exact ⟨w, hw, not_lt_of_lt hlt⟩
  · rcases List.mem_cons.mp ht with rfl | ht
    · exact ⟨v, hraw, not_lt_self v⟩
    · exact hback t ht

theorem IsLatest.mem (h : IsLatest texts raw v) : raw ∈ texts := by
  obtain ⟨front, back, rfl, -⟩ := h
  exact List.mem_append_right front List.mem_cons_self

theorem IsLatest.parse?_eq (h : IsLatest texts raw v) : parse? raw = some v := by
  obtain ⟨-, -, -, hraw, -⟩ := h
  exact hraw

theorem IsLatest.append_of_lt (h : IsLatest texts raw v) (ht : parse? t = some w) (hlt : v < w) :
    IsLatest (texts ++ [t]) t w := by
  refine ⟨texts, [], rfl, ht, fun u hu => ?_, by simp⟩
  obtain ⟨x, hx, hle⟩ := h.exists_parse hu
  exact ⟨x, hx, lt_of_not_lt hle hlt⟩

theorem IsLatest.append_of_not_lt (h : IsLatest texts raw v) (ht : parse? t = some w)
    (hlt : ¬ v < w) : IsLatest (texts ++ [t]) raw v := by
  obtain ⟨front, back, rfl, hraw, hfront, hback⟩ := h
  refine ⟨front, back ++ [t], by simp, hraw, hfront, fun u hu => ?_⟩
  rcases List.mem_append.mp hu with hu | hu
  · exact hback u hu
  · rw [List.mem_singleton.mp hu]
    exact ⟨w, ht, hlt⟩

theorem parse_eq_ok_iff : parse t = .ok v ↔ parse? t = some v := by
  rw [parse]
  cases parse? t <;> simp

theorem IsChoice.append (h : IsChoice texts best) {best' : Option (Text × Version)}
    (hchoose : choose best t = .ok best') : IsChoice (texts ++ [t]) best' := by
  rw [choose] at hchoose
  cases hparse : parse t with
  | error e =>
    rw [hparse] at hchoose
    cases hchoose
  | ok w =>
    have ht := parse_eq_ok_iff.mp hparse
    rw [hparse] at hchoose
    cases best with
    | none =>
      obtain rfl : texts = [] := h
      obtain rfl := Except.ok.inj hchoose
      exact ⟨[], [], rfl, ht, by simp, by simp⟩
    | some entry =>
      obtain ⟨raw, v⟩ := entry
      have hlatest : IsLatest texts raw v := h
      obtain rfl := Except.ok.inj hchoose
      change IsChoice _ (if compare w v = .gt then some (t, w) else some (raw, v))
      split
      · next hgt => exact hlatest.append_of_lt ht (compare_eq_gt_iff.mp hgt)
      · next hgt => exact hlatest.append_of_not_lt ht (mt compare_eq_gt_iff.mpr hgt)

theorem latest?_append_singleton (texts : List Text) (t : Text) :
    latest? (texts ++ [t]) = latest? texts >>= fun best => choose best t := by
  rw [latest?, List.foldlM_append, latest?]
  simp only [List.foldlM_cons, List.foldlM_nil, bind_pure]

/-- What is chosen is the earliest of the highest, and nothing is chosen from no texts only. -/
theorem isChoice_of_latest? (h : latest? texts = .ok best) : IsChoice texts best := by
  induction texts using List.reverseRecOn generalizing best with
  | nil => exact Except.ok.inj h ▸ rfl
  | append_singleton texts t ih =>
    rw [latest?_append_singleton] at h
    cases hbest : latest? texts with
    | error e =>
      rw [hbest] at h
      cases h
    | ok best' =>
      rw [hbest] at h
      exact (ih hbest).append h

def IsFirstMalformed (texts : List Text) (raw : Text) : Prop :=
  ∃ front back, texts = front ++ raw :: back ∧ (∀ t ∈ front, (parse? t).isSome) ∧
    parse? raw = none

theorem exists_isFirstMalformed (ht : t ∈ texts) (hparse : parse? t = none) :
    ∃ raw, IsFirstMalformed texts raw := by
  induction texts with
  | nil => cases ht
  | cons u texts ih =>
    cases hu : parse? u with
    | none => exact ⟨u, [], texts, rfl, by simp, hu⟩
    | some v =>
      rcases List.mem_cons.mp ht with rfl | ht
      · rw [hu] at hparse
        cases hparse
      · obtain ⟨raw, front, back, rfl, hfront, hraw⟩ := ih ht
        refine ⟨raw, u :: front, back, rfl, fun t ht => ?_, hraw⟩
        rcases List.mem_cons.mp ht with rfl | ht
        · exact Option.isSome_of_eq_some hu
        · exact hfront t ht

theorem IsFirstMalformed.mem (h : IsFirstMalformed texts raw) : raw ∈ texts := by
  obtain ⟨front, back, rfl, -⟩ := h
  exact List.mem_append_right front List.mem_cons_self

theorem exists_choose (ht : (parse? t).isSome) (best : Option (Text × Version)) :
    ∃ best', choose best t = .ok best' := by
  obtain ⟨v, hv⟩ := Option.isSome_iff_exists.mp ht
  rw [choose, parse_eq_ok_iff.mpr hv]
  cases best with
  | none => exact ⟨_, rfl⟩
  | some entry => exact ⟨_, rfl⟩

theorem choose_of_malformed (ht : parse? t = none) (best : Option (Text × Version)) :
    choose best t = .error ⟨t⟩ := by
  rw [choose, parse, ht]
  rfl

theorem exists_latest? (h : ∀ t ∈ texts, (parse? t).isSome) : ∃ best, latest? texts = .ok best := by
  induction texts using List.reverseRecOn with
  | nil => exact ⟨none, rfl⟩
  | append_singleton texts t ih =>
    obtain ⟨best, hbest⟩ := ih fun u hu => h u (List.mem_append_left [t] hu)
    obtain ⟨best', hbest'⟩ := exists_choose (h t (by simp)) best
    rw [latest?_append_singleton, hbest]
    exact ⟨best', hbest'⟩

theorem latest?_of_isFirstMalformed (h : IsFirstMalformed texts raw) :
    latest? texts = .error ⟨raw⟩ := by
  obtain ⟨front, back, rfl, hfront, hraw⟩ := h
  obtain ⟨best, hbest⟩ := exists_latest? hfront
  rw [latest?] at hbest
  rw [latest?, List.foldlM_append, hbest]
  change List.foldlM choose best (raw :: back) = _
  rw [List.foldlM_cons, choose_of_malformed hraw]
  rfl

/-- The numbers of the highest version do not depend on the order of the list. -/
theorem IsLatest.eq_of_perm {texts' : List Text} {raw' : Text} (hperm : texts.Perm texts')
    (h : IsLatest texts raw v) (h' : IsLatest texts' raw' w) : v = w := by
  obtain ⟨v', hv', hle⟩ := h'.exists_parse (hperm.subset h.mem)
  obtain ⟨w', hw', hle'⟩ := h.exists_parse (hperm.symm.subset h'.mem)
  obtain rfl := Option.some.inj (h.parse?_eq.symm.trans hv')
  obtain rfl := Option.some.inj (h'.parse?_eq.symm.trans hw')
  exact eq_of_not_lt hle' hle

theorem not_mem_of_lt {front : List Text} (hfront : ∀ t ∈ front, ∃ w, parse? t = some w ∧ w < v)
    (hraw : parse? raw = some v) : raw ∉ front := by
  intro hmem
  obtain ⟨w, hw, hlt⟩ := hfront raw hmem
  obtain rfl := Option.some.inj (hraw.symm.trans hw)
  exact not_lt_self v hlt

theorem IsLatest.unique {raw' : Text} (h : IsLatest texts raw v) (h' : IsLatest texts raw' w) :
    raw = raw' ∧ v = w := by
  obtain rfl : v = w := h.eq_of_perm (.refl texts) h'
  obtain ⟨front, back, htexts, hraw, hfront, -⟩ := h
  obtain ⟨front', back', htexts', hraw', hfront', -⟩ := h'
  refine ⟨?_, rfl⟩
  rcases List.append_eq_append_iff.mp (htexts.symm.trans htexts') with
    ⟨_ | ⟨t, between⟩, rfl, hback⟩ | ⟨_ | ⟨t, between⟩, rfl, hback⟩
  · exact (List.cons.inj hback).1
  · obtain rfl := (List.cons.inj hback).1
    exact absurd (by simp) (not_mem_of_lt hfront' hraw)
  · exact (List.cons.inj hback).1.symm
  · obtain rfl := (List.cons.inj hback).1
    exact absurd (by simp) (not_mem_of_lt hfront hraw')

theorem IsChoice.eq_none_iff (h : IsChoice texts best) : best = none ↔ texts = [] := by
  cases best with
  | none => exact ⟨fun _ => h, fun _ => rfl⟩
  | some entry =>
    have hmem := IsLatest.mem (v := entry.2) h
    exact ⟨nofun, fun hnil => absurd (hnil ▸ hmem) List.not_mem_nil⟩

theorem IsChoice.eq_some_iff (h : IsChoice texts best) :
    best = some (raw, v) ↔ IsLatest texts raw v := by
  constructor
  · rintro rfl
    exact h
  · intro hlatest
    match best with
    | none =>
      obtain rfl : texts = [] := h
      exact absurd hlatest.mem List.not_mem_nil
    | some (raw', v') =>
      have hchosen : IsLatest texts raw' v' := h
      obtain ⟨rfl, rfl⟩ := hchosen.unique hlatest
      rfl

/-- What is found in a list of version texts: the first malformed one, or the earliest of the
highest. -/
structure Selects (texts : List Text) (result : Except MalformedVersion (Option (Text × Version))) :
    Prop where
  fails_iff : (∃ e, result = .error e) ↔ ∃ t ∈ texts, parse? t = none
  error_iff : ∀ e, result = .error e ↔ IsFirstMalformed texts e.text
  none_iff : result = .ok none ↔ texts = []
  some_iff : ∀ raw v, result = .ok (some (raw, v)) ↔ IsLatest texts raw v

theorem selects_of_ok (h : latest? texts = .ok best) : Selects texts (.ok best) := by
  have hchoice := isChoice_of_latest? h
  have hparse {raw : Text} (hraw : raw ∈ texts) : parse? raw ≠ none := by
    intro hnone
    obtain ⟨raw', hraw'⟩ := exists_isFirstMalformed hraw hnone
    rw [latest?_of_isFirstMalformed hraw'] at h
    cases h
  constructor
  · refine ⟨nofun, ?_⟩
    rintro ⟨t, ht, hnone⟩
    exact absurd hnone (hparse ht)
  · refine fun e => ⟨nofun, ?_⟩
    rintro ⟨front, back, rfl, -, hraw⟩
    exact absurd hraw (hparse (by simp))
  · rw [Except.ok.injEq, hchoice.eq_none_iff]
  · intro raw v
    rw [Except.ok.injEq, hchoice.eq_some_iff]

theorem selects_of_isFirstMalformed (h : IsFirstMalformed texts raw) :
    Selects texts (.error ⟨raw⟩) := by
  have hmem := h.mem
  have hraw : parse? raw = none := by
    obtain ⟨-, -, -, -, hraw⟩ := h
    exact hraw
  constructor
  · exact ⟨fun _ => ⟨raw, hmem, hraw⟩, fun _ => ⟨_, rfl⟩⟩
  · intro e
    constructor
    · rintro ⟨⟩
      exact h
    · intro he
      rw [← latest?_of_isFirstMalformed h, latest?_of_isFirstMalformed he]
  · exact ⟨nofun, fun h => absurd (h ▸ hmem) List.not_mem_nil⟩
  · refine fun raw' v => ⟨nofun, fun hlatest => ?_⟩
    obtain ⟨w, hw, -⟩ := hlatest.exists_parse hmem
    rw [hraw] at hw
    cases hw

theorem selects_latest? (texts : List Text) : Selects texts (latest? texts) := by
  cases h : latest? texts with
  | ok best => exact selects_of_ok h
  | error e =>
    have hall : ¬ ∀ t ∈ texts, (parse? t).isSome := by
      intro hall
      obtain ⟨best, hbest⟩ := exists_latest? hall
      rw [h] at hbest
      cases hbest
    simp only [not_forall, Option.not_isSome_iff_eq_none] at hall
    obtain ⟨t, ht, hparse⟩ := hall
    obtain ⟨raw, hraw⟩ := exists_isFirstMalformed ht hparse
    rw [← h, latest?_of_isFirstMalformed hraw]
    exact selects_of_isFirstMalformed hraw

end SourceSwitch.Version
