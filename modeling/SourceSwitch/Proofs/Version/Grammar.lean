import Mathlib.Algebra.Group.Nat.Defs
import SourceSwitch.Proofs.Text.Trim
import SourceSwitch.Proofs.Version.Latest

namespace SourceSwitch

open Text (isBlank isBlankText isDecimal trim trimStart trimEnd)

variable {c : Char} {t run rest major minor : Text} {patch : Option Text} {n : Nat} {v : Version}

namespace Text

theorem isDigit_of_isDecimal (h : isDecimal c) (hascii : c.toNat < 128) : c.isDigit := by
  obtain ⟨first, hfirst, hc⟩ := List.any_eq_true.mp h
  -- All runs but the first lie behind the ASCII characters.
  have hruns : ∀ first ∈ digitRuns, first = 48 ∨ 128 ≤ first := by decide
  simp only [Bool.and_eq_true, decide_eq_true_eq] at hc
  simp only [Char.isDigit, Bool.and_eq_true, decide_eq_true_eq, ge_iff_le, UInt32.le_iff_toNat_le]
  change 48 ≤ c.toNat ∧ c.toNat ≤ 57
  have := hruns first hfirst
  omega

theorem toNat_lt_of_isDigit (h : c.isDigit) : c.toNat < 128 := by
  simp only [Char.isDigit, Bool.and_eq_true, decide_eq_true_eq, ge_iff_le, UInt32.le_iff_toNat_le]
    at h
  change 48 ≤ c.toNat ∧ c.toNat ≤ 57 at h
  omega

theorem not_isBlank_of_isDigit (h : c.isDigit) : ¬ isBlank c := by
  intro hblank
  have halphanum : c.isAlphanum := by simp [Char.isAlphanum, h]
  rw [isAlphanum_of_isBlank hblank] at halphanum
  cases halphanum

def padded (zeros n : Nat) : Text := List.replicate zeros '0' ++ ofNat n

theorem padded_ne_nil (zeros n : Nat) : padded zeros n ≠ [] :=
  List.append_ne_nil_of_right_ne_nil _ (ofNat_ne_nil n)

theorem isDigit_of_mem_padded {zeros : Nat} (h : c ∈ padded zeros n) : c.isDigit := by
  rcases List.mem_append.mp h with h | h
  · rw [List.eq_of_mem_replicate h]
    decide
  · exact isDigit_of_mem_ofNat h

@[simp] theorem decimalValue_padded (zeros n : Nat) : decimalValue (padded zeros n) = n := by
  have hzeros : Nat.ofDigitChars 10 (List.replicate zeros '0') 0 = 0 := by
    induction zeros with
    | zero => rfl
    | succ zeros ih => rwa [List.replicate_succ, Nat.ofDigitChars_cons]
  rw [decimalValue, padded, Nat.ofDigitChars_append, hzeros]
  exact decimalValue_ofNat n

theorem trimEnd_append_of_last (h : ∀ c ∈ t.getLast?, ¬ isBlank c) (u : Text) :
    trimEnd (t ++ u) = t ++ trimEnd u := by
  by_cases hu : isBlankText u
  · have hnil : trimEnd u = [] := trimEnd_append_blank [] hu
    rw [trimEnd_append_blank t hu, hnil, List.append_nil]
    exact trimEnd_eq_self h
  · exact trimEnd_append_of_not_blank hu t

theorem head?_trimEnd (h : c ∈ (trimEnd t).head?) : c ∈ t.head? := by
  obtain ⟨w, -, he⟩ := exists_eq_trimEnd_append t
  obtain ⟨u, hu⟩ := List.head?_eq_some_iff.mp h
  rw [he, hu]
  rfl

end Text

namespace Version

/-- A run of decimal digits of any script, which does not go on in the rest. -/
structure IsRun (run rest : Text) : Prop where
  ne_nil : run ≠ []
  isDecimal : ∀ c ∈ run, isDecimal c
  maximal : ∀ c ∈ rest.head?, ¬ Text.isDecimal c

/-- How a text begins with the runs of a version. -/
inductive Begins : Text → Text → Text → Option Text → Prop where
  | full {major minor patch rest : Text} : IsRun major ('.' :: (minor ++ '.' :: (patch ++ rest))) →
      IsRun minor ('.' :: (patch ++ rest)) → IsRun patch rest →
      Begins (major ++ '.' :: (minor ++ '.' :: (patch ++ rest))) major minor (some patch)
  /-- No dot with a digit behind it follows. -/
  | short {major minor rest : Text} : IsRun major ('.' :: (minor ++ rest)) → IsRun minor rest →
      (∀ t, rest = '.' :: t → ∀ c ∈ t.head?, ¬ isDecimal c) →
      Begins (major ++ '.' :: (minor ++ rest)) major minor none

theorem digits?_eq_none_iff : digits? t = none ↔ ∀ c ∈ t.head?, ¬ isDecimal c := by
  rw [digits?, ite_eq_right_iff]
  cases t.head? with
  | none => simp
  | some c => simp

theorem digits?_eq_some_iff : digits? t = some (run, rest) ↔ t = run ++ rest ∧ IsRun run rest := by
  constructor
  · intro h
    obtain ⟨hhead, h⟩ := Option.ite_none_right_eq_some.mp h
    obtain ⟨rfl, rfl⟩ := Prod.mk.inj (Option.some.inj h)
    refine ⟨List.takeWhile_append_dropWhile.symm, ?_, fun c => List.mem_takeWhile_imp,
      fun c hc => ?_⟩
    · cases t with
      | nil => cases hhead
      | cons c t =>
        rw [List.takeWhile_cons_of_pos (by simpa using hhead)]
        exact List.cons_ne_nil c _
    · have hnot := List.head?_dropWhile_not isDecimal t
      rw [Option.mem_def.mp hc] at hnot
      simpa using hnot
  · rintro ⟨rfl, hrun⟩
    obtain ⟨c, run, rfl⟩ := List.exists_cons_of_ne_nil hrun.ne_nil
    have hhead : ((c :: run) ++ rest).head?.any isDecimal := hrun.isDecimal c List.mem_cons_self
    have hrest : rest.takeWhile isDecimal = [] ∧ rest.dropWhile isDecimal = rest := by
      cases rest with
      | nil => exact ⟨rfl, rfl⟩
      | cons d rest =>
        have hd := hrun.maximal d rfl
        exact ⟨List.takeWhile_cons_of_neg hd, List.dropWhile_cons_of_neg hd⟩
    rw [digits?, if_pos hhead, List.takeWhile_append_of_pos hrun.isDecimal,
      List.dropWhile_append_of_pos hrun.isDecimal, hrest.1, hrest.2, List.append_nil]

theorem after?_dot (t : Text) : Text.after? "." ('.' :: t) = some t :=
  Text.after?_append ['.'] t

theorem eq_of_after?_dot (h : Text.after? "." t = some rest) : t = '.' :: rest :=
  Text.after?_eq_some_iff.mp h

theorem digits?_behind_dot_eq_none_iff : (Text.after? "." t).bind digits? = none ↔
    ∀ u, t = '.' :: u → ∀ c ∈ u.head?, ¬ isDecimal c := by
  constructor
  · rintro h u rfl
    rw [after?_dot, Option.bind_some] at h
    exact digits?_eq_none_iff.mp h
  · intro h
    cases hdot : Text.after? "." t with
    | none => rfl
    | some u => exact digits?_eq_none_iff.mpr (h u (eq_of_after?_dot hdot))

theorem digits?_behind_dot_eq_some_iff : (Text.after? "." t).bind digits? = some (run, rest) ↔
    t = '.' :: (run ++ rest) ∧ IsRun run rest := by
  constructor
  · intro h
    obtain ⟨u, hdot, hu⟩ := Option.bind_eq_some_iff.mp h
    obtain ⟨rfl, hrun⟩ := digits?_eq_some_iff.mp hu
    exact ⟨eq_of_after?_dot hdot, hrun⟩
  · rintro ⟨rfl, hrun⟩
    rw [after?_dot, Option.bind_some]
    exact digits?_eq_some_iff.mpr ⟨rfl, hrun⟩

theorem components?_eq_some_iff :
    components? t = some (major, minor, patch) ↔ Begins t major minor patch := by
  constructor
  · intro h
    obtain ⟨⟨major, t₁⟩, hmajor, h₁⟩ := Option.bind_eq_some_iff.mp h
    obtain ⟨t₂, hdot, h₂⟩ := Option.bind_eq_some_iff.mp h₁
    obtain ⟨⟨minor, t₃⟩, hminor, h₃⟩ := Option.bind_eq_some_iff.mp h₂
    obtain ⟨rfl, hrest⟩ := Prod.mk.inj (Option.some.inj h₃)
    obtain ⟨rfl, rfl⟩ := Prod.mk.inj hrest
    obtain ⟨rfl, hmajor'⟩ := digits?_eq_some_iff.mp hmajor
    obtain rfl := eq_of_after?_dot hdot
    obtain ⟨rfl, hminor'⟩ := digits?_eq_some_iff.mp hminor
    cases hpatch : (Text.after? "." t₃).bind digits? with
    | none => exact .short hmajor' hminor' (digits?_behind_dot_eq_none_iff.mp hpatch)
    | some found =>
      obtain ⟨rfl, hpatch'⟩ := digits?_behind_dot_eq_some_iff.mp hpatch
      exact .full hmajor' hminor' hpatch'
  · intro h
    cases h with
    | full hmajor hminor hpatch =>
      simp only [components?, digits?_eq_some_iff.mpr ⟨rfl, hmajor⟩, after?_dot,
        digits?_eq_some_iff.mpr ⟨rfl, hminor⟩, digits?_eq_some_iff.mpr ⟨rfl, hpatch⟩,
        Option.bind_eq_bind, Option.bind_some, Option.map_some]
    | short hmajor hminor hrest =>
      simp only [components?, digits?_eq_some_iff.mpr ⟨rfl, hmajor⟩, after?_dot,
        digits?_eq_some_iff.mpr ⟨rfl, hminor⟩, digits?_behind_dot_eq_none_iff.mpr hrest,
        Option.bind_eq_bind, Option.bind_some, Option.map_none]

structure IsWord (run : Text) (n : Nat) : Prop where
  ascii : ∀ c ∈ run, c.toNat < 128
  value : Text.decimalValue run = n
  le : n ≤ 2 ^ 64 - 1

theorem readWord?_eq_some_iff (h : IsRun run rest) : Text.readWord? run = some n ↔
    IsWord run n := by
  have hlimit : Text.wordLimit = 2 ^ 64 := rfl
  have hdigits : run.all Char.isDigit ↔ ∀ c ∈ run, c.toNat < 128 := by
    rw [List.all_eq_true]
    exact forall₂_congr fun c hc =>
      ⟨Text.toNat_lt_of_isDigit, Text.isDigit_of_isDecimal (h.isDecimal c hc)⟩
  rw [Text.readWord?, Option.filter_eq_some_iff, Text.readDecimal?, Option.ite_none_right_eq_some,
    hdigits, Option.some_inj, decide_eq_true_eq, hlimit]
  constructor
  · rintro ⟨⟨⟨-, hascii⟩, hvalue⟩, hlt⟩
    exact ⟨hascii, hvalue, by omega⟩
  · rintro ⟨hascii, hvalue, hle⟩
    exact ⟨⟨⟨h.ne_nil, hascii⟩, hvalue⟩, by omega⟩

/-- The text begins with the version, behind blanks. A version without a third run has patch 0. -/
def Spells (t : Text) (v : Version) : Prop :=
  ∃ major minor patch, Begins (trim t) major minor patch ∧ IsWord major v.major ∧
    IsWord minor v.minor ∧ (∀ run ∈ patch, IsWord run v.patch) ∧ (patch = none → v.patch = 0)

theorem Begins.isRun (h : Begins t major minor patch) :
    (∃ rest, IsRun major rest) ∧ (∃ rest, IsRun minor rest) ∧
      ∀ run ∈ patch, ∃ rest, IsRun run rest := by
  cases h with
  | full hmajor hminor hpatch =>
    exact ⟨⟨_, hmajor⟩, ⟨_, hminor⟩, fun run hrun => Option.some.inj hrun ▸ ⟨_, hpatch⟩⟩
  | short hmajor hminor => exact ⟨⟨_, hmajor⟩, ⟨_, hminor⟩, nofun⟩

theorem parse?_eq (t : Text) : parse? t = (components? (trim t)).bind fun (major, minor, patch) =>
    (Text.readWord? major).bind fun a => (Text.readWord? minor).bind fun b =>
      (patch.elim (some 0) Text.readWord?).map fun c => ⟨a, b, c⟩ := by
  rw [parse?]
  cases components? (trim t) with
  | none => rfl
  | some runs =>
    obtain ⟨major, minor, patch⟩ := runs
    simp only [Option.bind_eq_bind, Option.bind_some]
    congr 1
    funext a
    congr 1
    funext b
    cases patch with
    | none => rfl
    | some run => exact (Option.map_eq_bind ..).symm

theorem parse?_eq_some_iff : parse? t = some v ↔ Spells t v := by
  rw [parse?_eq]
  constructor
  · intro h
    obtain ⟨⟨major, minor, patch⟩, hruns, h₁⟩ := Option.bind_eq_some_iff.mp h
    obtain ⟨a, ha, h₂⟩ := Option.bind_eq_some_iff.mp h₁
    obtain ⟨b, hb, h₃⟩ := Option.bind_eq_some_iff.mp h₂
    obtain ⟨c, hc, rfl⟩ := Option.map_eq_some_iff.mp h₃
    have hbegins := components?_eq_some_iff.mp hruns
    obtain ⟨⟨_, hmajor⟩, ⟨_, hminor⟩, hpatch⟩ := hbegins.isRun
    refine ⟨major, minor, patch, hbegins, (readWord?_eq_some_iff hmajor).mp ha,
      (readWord?_eq_some_iff hminor).mp hb, ?_, ?_⟩
    · rintro run rfl
      obtain ⟨_, hrun⟩ := hpatch run rfl
      exact (readWord?_eq_some_iff hrun).mp hc
    · rintro rfl
      exact (Option.some.inj hc).symm
  · rintro ⟨major, minor, patch, hbegins, ha, hb, hc, hnone⟩
    obtain ⟨⟨_, hmajor⟩, ⟨_, hminor⟩, hpatch⟩ := hbegins.isRun
    have hread : patch.elim (some 0) Text.readWord? = some v.patch := by
      cases patch with
      | none => exact congrArg some (hnone rfl).symm
      | some run =>
        obtain ⟨_, hrun⟩ := hpatch run rfl
        exact (readWord?_eq_some_iff hrun).mpr (hc run rfl)
    simp only [components?_eq_some_iff.mpr hbegins, (readWord?_eq_some_iff hmajor).mpr ha,
      (readWord?_eq_some_iff hminor).mpr hb, hread, Option.bind_some, Option.map_some]

theorem isWord_padded {zeros : Nat} (h : n < 2 ^ 64) : IsWord (Text.padded zeros n) n :=
  ⟨fun _ hc => Text.toNat_lt_of_isDigit (Text.isDigit_of_mem_padded hc),
    Text.decimalValue_padded zeros n, by omega⟩

theorem isRun_padded {zeros : Nat} (h : ∀ c ∈ rest.head?, ¬ isDecimal c) :
    IsRun (Text.padded zeros n) rest :=
  ⟨Text.padded_ne_nil zeros n,
    fun _ hc => Text.isDecimal_of_isDigit (Text.isDigit_of_mem_padded hc), h⟩

/-- Zeros in front of numbers, blanks around and what stands behind do not matter. -/
theorem spells_padded {a b c i j k : Nat} {u w suffix : Text} (ha : a < 2 ^ 64) (hb : b < 2 ^ 64)
    (hc : c < 2 ^ 64) (hu : isBlankText u) (hw : isBlankText w)
    (hsuffix : ∀ x ∈ suffix.head?, ¬ isDecimal x) :
    Spells (u ++ (Text.padded i a ++ '.' :: (Text.padded j b ++ '.' :: (Text.padded k c ++ suffix)))
      ++ w) ⟨a, b, c⟩ := by
  have hdot (t : Text) : ∀ x ∈ ('.' :: t).head?, ¬ isDecimal x := by
    rintro x ⟨⟩
    decide
  let core := Text.padded i a ++ '.' :: (Text.padded j b ++ '.' :: Text.padded k c)
  have htrim : trim (u ++ (core ++ suffix) ++ w) = core ++ trimEnd suffix := by
    have hhead : ∀ x ∈ (core ++ suffix).head?, ¬ isBlank x := by
      obtain ⟨x, t, hx⟩ := List.exists_cons_of_ne_nil (Text.padded_ne_nil i a)
      rintro y hy
      obtain rfl : x = y := by simpa [core, hx] using hy
      exact Text.not_isBlank_of_isDigit (Text.isDigit_of_mem_padded (hx ▸ List.mem_cons_self))
    have hlast : ∀ x ∈ core.getLast?, ¬ isBlank x := by
      intro x hx
      have hsplit : core = Text.padded i a ++ '.' :: (Text.padded j b ++ ['.'])
          ++ Text.padded k c := by
        simp [core]
      rw [hsplit, List.getLast?_append_of_ne_nil _ (Text.padded_ne_nil k c)] at hx
      exact Text.not_isBlank_of_isDigit (Text.isDigit_of_mem_padded (List.mem_of_getLast? hx))
    rw [Text.trim_append_blanks hu _ hw, trim, Text.trimStart_eq_self hhead,
      Text.trimEnd_append_of_last hlast]
  have hwhole (t : Text) : core ++ t
      = Text.padded i a ++ '.' :: (Text.padded j b ++ '.' :: (Text.padded k c ++ t)) := by
    simp [core]
  rw [← hwhole]
  refine ⟨Text.padded i a, Text.padded j b, some (Text.padded k c), ?_, isWord_padded ha,
    isWord_padded hb, ?_, ?_⟩
  · rw [htrim, hwhole]
    exact .full (isRun_padded (hdot _)) (isRun_padded (hdot _))
      (isRun_padded fun x hx => hsuffix x (Text.head?_trimEnd hx))
  · rintro run ⟨⟩
    exact isWord_padded hc
  · exact fun hnone => absurd hnone (Option.some_ne_none _)

/-- A text is read exactly if it begins with a version, as this version; and any version of 64-bit
numbers is read back, whatever zeros, blanks and further text it is written with. -/
theorem parse_isExact :
    (∀ t, (∀ v, parse t = .ok v ↔ Spells t v) ∧ (parse t = .error ⟨t⟩ ↔ ¬ ∃ v, Spells t v)) ∧
    ∀ (a b c i j k : Nat) (u w suffix : Text), a < 2 ^ 64 → b < 2 ^ 64 → c < 2 ^ 64 →
      isBlankText u → isBlankText w → (∀ x ∈ suffix.head?, ¬ isDecimal x) →
      parse (u ++ (Text.padded i a
        ++ '.' :: (Text.padded j b ++ '.' :: (Text.padded k c ++ suffix)))
        ++ w) = .ok ⟨a, b, c⟩ := by
  have hok (t : Text) (v : Version) : parse t = .ok v ↔ Spells t v := by
    rw [parse_eq_ok_iff, parse?_eq_some_iff]
  constructor
  · refine fun t => ⟨hok t, ?_⟩
    simp only [← hok]
    rw [parse]
    cases parse? t <;> simp
  · intro a b c i j k u w suffix ha hb hc hu hw hsuffix
    exact (hok _ _).mpr (spells_padded ha hb hc hu hw hsuffix)

theorem parse_isExact_wordLimit :
    (isBlankText "\u3000\t" ∧ isBlankText "\n" ∧ ∀ x ∈ (".4-rc ".toList).head?, ¬ isDecimal x) ∧
    parse "\u3000\t00.18446744073709551615.007.4-rc \n" = .ok ⟨0, 18446744073709551615, 7⟩ ∧
    parse "1.18446744073709551616" = .error ⟨"1.18446744073709551616"⟩ ∧
    (¬ ∃ v, Spells "1.18446744073709551616" v) ∧ (¬ ∃ v, Spells "1.2.\u0663" v) ∧
    Spells "1.2.x" ⟨1, 2, 0⟩ := by
  have hu : isBlankText "\u3000\t" := by decide
  have hw : isBlankText "\n" := by decide
  have hsuffix : ∀ x ∈ (".4-rc ".toList).head?, ¬ isDecimal x := by
    rintro x ⟨⟩
    decide
  have hread := parse_isExact.2 0 18446744073709551615 7 1 0 2 _ _ _ (by decide) (by decide)
    (by decide) hu hw hsuffix
  have htext : "\u3000\t".toList ++ (Text.padded 1 0 ++ '.' :: (Text.padded 0 18446744073709551615
      ++ '.' :: (Text.padded 2 7 ++ ".4-rc ".toList))) ++ "\n".toList
      = "\u3000\t00.18446744073709551615.007.4-rc \n".toList := by decide +kernel
  rw [htext] at hread
  refine ⟨⟨hu, hw, hsuffix⟩, hread, by decide +kernel, ?_, ?_, ?_⟩
  · exact (parse_isExact.1 _).2.mp (by decide +kernel)
  · exact (parse_isExact.1 _).2.mp (by decide +kernel)
  · exact ((parse_isExact.1 _).1 _).mp (by decide +kernel)

end Version

end SourceSwitch
