import Mathlib.Data.List.Basic
import SourceSwitch.Proofs.Text.Trim
import SourceSwitch.Proofs.Version.Latest
import SourceSwitch.Version.Constraint

namespace SourceSwitch

def Version.InLine (v w : Version) : Prop := w.major = v.major ∧ (v.major = 0 → w.minor = v.minor)

instance (v w : Version) : Decidable (v.InLine w) :=
  inferInstanceAs (Decidable (w.major = v.major ∧ (v.major = 0 → w.minor = v.minor)))

namespace Constraint

variable {isRelease : Text → Prop} {c : Constraint} {raw t : Text} {v w : Version}
  {texts : List Text}

theorem text_eq (c : Constraint) :
    c.text = "~> ".toList ++ (Text.ofNat c.major ++ '.' :: Text.ofNat c.minor) := by
  have hdot : ".".toList = ['.'] := by decide
  unfold text
  rw [List.append_assoc, List.append_assoc]
  exact congrArg (fun dot =>
    "~> ".toList ++ (Text.ofNat c.major ++ (dot ++ Text.ofNat c.minor))) hdot

theorem text_injective : Function.Injective text := by
  intro c d h
  have hdot : ∀ n, '.' ∉ Text.ofNat n := by
    intro n hn
    exact absurd (Text.isDigit_of_mem_ofNat hn) (by decide)
  have hinj {m n : Nat} (h : Text.ofNat m = Text.ofNat n) : m = n := by
    simpa using congrArg Text.decimalValue h
  rw [text_eq, text_eq] at h
  obtain ⟨hmajor, -, hminor⟩ :=
    (List.append_cons_inj_of_notMem (hdot c.major) (hdot c.minor)).mp (List.append_cancel_left h)
  obtain ⟨major, minor⟩ := c
  rw [mk.injEq]
  exact ⟨hinj hmajor, hinj hminor⟩

/-- A written constraint `~> x.y` admits the releases with major number `x` and a minor number of
`y` or more. Which versions are releases is up to the reader of the constraint. -/
def Admits (isRelease : Text → Prop) (written t : Text) : Prop :=
  ∃ c : Constraint, written = c.text ∧ isRelease t ∧
    ∃ v ∈ Version.parse? t, v.major = c.major ∧ c.minor ≤ v.minor

theorem admits_text_iff : Admits isRelease c.text t ↔
    isRelease t ∧ ∃ v ∈ Version.parse? t, v.major = c.major ∧ c.minor ≤ v.minor := by
  constructor
  · rintro ⟨d, htext, h⟩
    rw [text_injective htext]
    exact h
  · intro h
    exact ⟨c, rfl, h⟩

theorem pin_of_parse? (h : Version.parse? raw = some v) :
    pin raw v.major = .ok ⟨v.major, if v.major = 0 then v.minor else 0⟩ := by
  rw [pin, Version.parse_eq_ok_iff.mpr h]
  split
  · next hmajor => rw [hmajor]; rfl
  · rfl

/-- The constraint suits the list that its version was chosen from. -/
structure IsSound (isRelease : Text → Prop) (texts : List Text) (v : Version) (c : Constraint) :
    Prop where
  admits_iff : ∀ t ∈ texts, Admits isRelease c.text t ↔
    isRelease t ∧ ∃ w ∈ Version.parse? t, v.InLine w
  not_below : ∀ t, Admits isRelease c.text t →
    ∃ w ∈ Version.parse? t, w.major = v.major ∧ (v.major = 0 → v.minor ≤ w.minor)

theorem isSound_of_isLatest (h : Version.IsLatest texts raw v) (isRelease : Text → Prop) :
    IsSound isRelease texts v ⟨v.major, if v.major = 0 then v.minor else 0⟩ := by
  constructor
  · intro t ht
    obtain ⟨w, hw, hle⟩ := h.exists_parse ht
    rw [Version.lt_iff] at hle
    rw [admits_text_iff, hw]
    simp only [Option.mem_some_iff, exists_eq_left', Version.InLine]
    refine and_congr_right fun _ => and_congr_right fun hmajor => ?_
    -- No version in the list is higher, so one of the same major number has no higher minor.
    split <;> omega
  · intro t ht
    obtain ⟨-, w, hw, hmajor, hminor⟩ := admits_text_iff.mp ht
    refine ⟨w, hw, hmajor, fun hzero => ?_⟩
    rwa [if_pos hzero] at hminor

/-- There is a constraint for the version that is chosen from a list. Of the list it admits the
releases of that version's line, the chosen one among them if it is a release. Whatever it admits
has the chosen major number, and below 1.0 a minor number that is not below the chosen one. -/
theorem isSound_of_latest? {best : Option (Text × Version)} (hne : texts ≠ [])
    (h : Version.latest? texts = .ok best) (isRelease : Text → Prop) :
    ∃ raw v c, best = some (raw, v) ∧ raw ∈ texts ∧ pin raw v.major = .ok c ∧
      (isRelease raw → Admits isRelease c.text raw) ∧ IsSound isRelease texts v c := by
  have hchoice := Version.isChoice_of_latest? h
  match best with
  | none => exact absurd hchoice hne
  | some (raw, v) =>
    have hlatest : Version.IsLatest texts raw v := hchoice
    have hsound := isSound_of_isLatest hlatest isRelease
    refine ⟨raw, v, _, rfl, hlatest.mem, pin_of_parse? hlatest.parse?_eq,
      fun hrelease => ?_, hsound⟩
    rw [hsound.admits_iff raw hlatest.mem]
    exact ⟨hrelease, v, hlatest.parse?_eq, rfl, fun _ => rfl⟩

/-- The text has no tag of a pre-release, which is a dash in front of any build number. -/
def IsUntagged (t : Text) : Prop := '-' ∉ t.takeWhile (· ≠ '+')

instance : DecidablePred IsUntagged := fun t =>
  inferInstanceAs (Decidable ('-' ∉ t.takeWhile (· ≠ '+')))

theorem isSound_of_latest?_untagged :
    let texts : List Text := ["0.6.9", " 0.7.3 ", "0.7.4-rc.1", "0.7.1+b-2"]
    texts ≠ [] ∧ Version.latest? texts = .ok (some ("0.7.4-rc.1", ⟨0, 7, 4⟩)) ∧
      pin "0.7.4-rc.1" 0 = .ok ⟨0, 7⟩ ∧ IsSound IsUntagged texts ⟨0, 7, 4⟩ ⟨0, 7⟩ ∧
      texts.map (fun t => decide (IsUntagged t ∧
        ∃ w ∈ Version.parse? t, Version.InLine ⟨0, 7, 4⟩ w))
        = [false, true, false, true] := by
  intro texts
  have hne : texts ≠ [] := by decide
  have hlatest : Version.latest? texts = .ok (some ("0.7.4-rc.1", ⟨0, 7, 4⟩)) := by decide +kernel
  have hpin : pin "0.7.4-rc.1" 0 = .ok ⟨0, 7⟩ := by decide +kernel
  obtain ⟨raw, v, c, hbest, -, hc, -, hsound⟩ := isSound_of_latest? hne hlatest IsUntagged
  cases hbest
  obtain rfl := Except.ok.inj (hc.symm.trans hpin)
  exact ⟨hne, hlatest, hpin, hsound, by decide +kernel⟩

/-- The highest version may be a tagged one with a major number of its own, and a minor number is a
lower bound. -/
theorem exists_not_sound :
    Version.latest? ["1.2.0", "2.0.0-rc1"] = .ok (some ("2.0.0-rc1", ⟨2, 0, 0⟩)) ∧
      pin "2.0.0-rc1" 2 = .ok ⟨2, 0⟩ ∧ text ⟨2, 0⟩ = "~> 2.0".toList ∧
      ¬ Admits IsUntagged (text ⟨2, 0⟩) "1.2.0" ∧ ¬ Admits IsUntagged (text ⟨2, 0⟩) "2.0.0-rc1" ∧
      Version.latest? ["0.7.3"] = .ok (some ("0.7.3", ⟨0, 7, 3⟩)) ∧
      pin "0.7.3" 0 = .ok ⟨0, 7⟩ ∧ text ⟨0, 7⟩ = "~> 0.7".toList ∧
      Admits IsUntagged (text ⟨0, 7⟩) "0.8.0" := by
  refine ⟨?_, ?_, ?_, mt admits_text_iff.mp ?_, mt admits_text_iff.mp ?_, ?_, ?_, ?_,
    admits_text_iff.mpr ?_⟩ <;> decide +kernel

end Constraint

end SourceSwitch
