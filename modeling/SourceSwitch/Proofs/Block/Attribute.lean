import Mathlib.Data.Option.Basic
import SourceSwitch.Block.Attribute
import SourceSwitch.Proofs.Bracket.Tally

namespace SourceSwitch

open Text SourceSwitch.Bracket

namespace Attribute

variable {key line t s w val rest : Text}

theorem exists_trimStart_append (t : Text) (hw : isBlankText w) :
    ∃ w', isBlankText w' ∧ trimStart (t ++ w) = trimStart t ++ w' := by
  by_cases ht : isBlankText t
  · refine ⟨[], rfl, ?_⟩
    rw [trimStart_append_blank ht, trimStart_eq_nil_iff.mpr hw, trimStart_eq_nil_iff.mpr ht]
    rfl
  · exact ⟨w, hw, trimStart_append_of_not_blank ht w⟩

theorem exists_after?_trimStart {l : Text} (hl : ∀ c ∈ l, ¬ isBlank c) (t : Text)
    (hw : isBlankText w) : ∃ w', isBlankText w' ∧
      after? l (trimStart (t ++ w)) = (after? l (trimStart t)).map (· ++ w') := by
  obtain ⟨w', hw', he⟩ := exists_trimStart_append t hw
  exact ⟨w', hw', by rw [he, after?_append_blank hl hw']⟩

def IsKey (key : Text) : Prop := ∀ c ∈ key, ¬ isBlank c ∧ ¬ IsSpecial c ∧ codeMark? c = some .code

instance (key : Text) : Decidable (IsKey key) :=
  inferInstanceAs (Decidable (∀ c ∈ key, ¬ isBlank c ∧ ¬ IsSpecial c ∧ codeMark? c = some .code))

theorem isKey_source : IsKey "source" := by decide

theorem isKey_version : IsKey "version" := by decide

theorem exists_assigned?_append_blank (hkey : IsKey key) (t : Text) (hw : isBlankText w) :
    ∃ w', isBlankText w' ∧ assigned? key (t ++ w) = (assigned? key t).map (· ++ w') := by
  obtain ⟨w₁, hw₁, h₁⟩ := exists_after?_trimStart (fun c hc => (hkey c hc).1) t hw
  rw [assigned?, assigned?, h₁]
  cases after? key (trimStart t) with
  | none => exact ⟨[], rfl, rfl⟩
  | some t₁ =>
    obtain ⟨w₂, hw₂, h₂⟩ := exists_after?_trimStart (l := "=") (by decide) t₁ hw₁
    simp only [Option.map_some, Option.bind_eq_bind, Option.bind_some, h₂]
    cases after? "=" (trimStart t₁) with
    | none => exact ⟨[], rfl, rfl⟩
    | some t₂ =>
      obtain ⟨w₃, hw₃, h₃⟩ := exists_trimStart_append t₂ hw₂
      exact ⟨w₃, hw₃, by simp [h₃]⟩

theorem takeWhile_ne_quote (hval : '"' ∉ val) (t : Text) :
    (val ++ '"' :: t).takeWhile (· ≠ '"') = val ∧ (val ++ '"' :: t).dropWhile (· ≠ '"')
      = '"' :: t := by
  have hne : ∀ c ∈ val, decide (c ≠ '"') := by
    intro c hc
    have : c ≠ '"' := by
      rintro rfl
      exact hval hc
    simpa using this
  rw [List.takeWhile_append_of_pos hne, List.dropWhile_append_of_pos hne]
  simp

theorem quoted?_eq_some_iff : quoted? t = some (val, rest) ↔
    '"' ∉ val ∧ t = '"' :: (val ++ '"' :: rest) := by
  constructor
  · intro h
    obtain ⟨s, hs, h⟩ := Option.bind_eq_some_iff.mp h
    obtain ⟨rest', hrest, h⟩ := Option.bind_eq_some_iff.mp h
    obtain ⟨rfl, rfl⟩ := Prod.mk.inj (Option.some.inj h)
    refine ⟨fun hq => ?_, ?_⟩
    · simpa using List.mem_takeWhile_imp hq
    · rw [after?_eq_some_iff] at hs hrest
      rw [hs, quote, List.singleton_append, List.cons_inj_right]
      conv_lhs => rw [← List.takeWhile_append_dropWhile (p := (· ≠ '"')) (l := s), hrest]
      rfl
  · rintro ⟨hval, rfl⟩
    obtain ⟨htake, hdrop⟩ := takeWhile_ne_quote hval rest
    have hopen : after? quote ('"' :: (val ++ '"' :: rest)) = some (val ++ '"' :: rest) := rfl
    have hclose : after? quote ('"' :: rest) = some rest := rfl
    rw [quoted?, hopen]
    simp only [Option.bind_eq_bind, Option.bind_some, htake, hdrop, hclose]

theorem quoted?_append_blank (t : Text) (hw : isBlankText w) :
    quoted? (t ++ w) = (quoted? t).map fun (val, rest) => (val, rest ++ w) := by
  cases h : quoted? t with
  | some v =>
    obtain ⟨val, rest⟩ := v
    obtain ⟨hval, rfl⟩ := quoted?_eq_some_iff.mp h
    exact quoted?_eq_some_iff.mpr ⟨hval, by simp⟩
  | none =>
    rw [Option.map_none, Option.eq_none_iff_forall_ne_some]
    rintro ⟨val, rest⟩ h'
    obtain ⟨hval, he⟩ := quoted?_eq_some_iff.mp h'
    have hq : '"' ∉ w := by
      intro hq
      exact absurd (isBlankText_iff.mp hw _ hq) (by decide)
    -- The closing quote does not stand among the blanks, so it is in the text itself.
    rw [← List.cons_append] at he
    rcases List.append_eq_append_iff.mp he with ⟨as, -, hsplit⟩ | ⟨bs, ht, hsplit⟩
    · exact hq (hsplit ▸ List.mem_append_right as List.mem_cons_self)
    · cases bs with
      | nil =>
        rw [List.nil_append] at hsplit
        exact hq (hsplit ▸ List.mem_cons_self)
      | cons b rest₀ =>
        obtain ⟨rfl, -⟩ := List.cons.inj hsplit
        rw [quoted?_eq_some_iff.mpr ⟨hval, ht⟩] at h
        cases h

theorem value?_append_blank (hkey : IsKey key) (t : Text) (hw : isBlankText w) :
    value? key (t ++ w) = value? key t := by
  obtain ⟨w', hw', he⟩ := exists_assigned?_append_blank hkey t hw
  rw [value?, value?, he]
  cases assigned? key t with
  | none => rfl
  | some s =>
    simp only [Option.map_some, Option.bind_eq_bind, Option.bind_some, quoted?_append_blank s hw']
    cases quoted? s <;> rfl

theorem exists_uncommented?_append_blank (t : Text) (hw : isBlankText w) :
    ∃ w', isBlankText w' ∧ uncommented? (t ++ w) = (uncommented? t).map (· ++ w') := by
  obtain ⟨w₁, hw₁, he⟩ := exists_trimStart_append t hw
  refine ⟨w₁, hw₁, ?_⟩
  rw [uncommented?, uncommented?, he, after?_append_blank (by decide) hw₁,
    after?_append_blank (by decide) hw₁]
  cases after? "#" (trimStart t) <;> rfl

theorem ofLine?_append_blank (t : Text) (hw : isBlankText w) : ofLine? (t ++ w) = ofLine? t := by
  obtain ⟨w', hw', he⟩ := exists_uncommented?_append_blank t hw
  have hsource : (uncommented? (t ++ w)).bind (value? "source")
      = (uncommented? t).bind (value? "source") := by
    rw [he]
    cases uncommented? t with
    | none => rfl
    | some s => exact value?_append_blank isKey_source s hw'
  have hversion : ((uncommented? (t ++ w)).bind (assigned? "version")).map
      (fun _ => commentedVersion)
      = ((uncommented? t).bind (assigned? "version")).map fun _ => commentedVersion := by
    rw [he]
    cases uncommented? t with
    | none => rfl
    | some s =>
      obtain ⟨w'', -, he'⟩ := exists_assigned?_append_blank isKey_version s hw'
      simp only [Option.map_some, Option.bind_some, he', Option.map_map]
      rfl
  rw [ofLine?, ofLine?, value?_append_blank isKey_source t hw,
    value?_append_blank isKey_version t hw,
    hsource, hversion]

theorem ofLine?_trimStart (t : Text) : ofLine? (trimStart t) = ofLine? t := by
  have h : trimStart (trimStart t) = trimStart t := List.dropWhile_idempotent isBlank t
  simp only [ofLine?, value?, assigned?, uncommented?, h]

theorem ofLine?_trim (t : Text) : ofLine? (trim t) = ofLine? t := by
  obtain ⟨w, hw, he⟩ := exists_eq_trimEnd_append (trimStart t)
  rw [← ofLine?_trimStart t]
  conv_rhs => rw [he]
  exact (ofLine?_append_blank _ hw).symm

theorem ofLine?_cases {a : Attribute} (h : ofLine? line = some a) :
    (∃ v, a = .source v ∧ value? "source" line = some v) ∨
      (∃ v, a = .commentedSource v ∧ (uncommented? line).isSome) ∨
      (∃ v, a = .version v ∧ value? "version" line = some v) ∨
      a = .commentedVersion ∧ (uncommented? line).isSome := by
  have hcomment {α : Type} {f : Text → Option α} {x : α} (h : (uncommented? line).bind f = some x) :
      (uncommented? line).isSome := by
    obtain ⟨t, ht, -⟩ := Option.bind_eq_some_iff.mp h
    exact Option.isSome_of_eq_some ht
  simp only [ofLine?, Option.orElse_eq_orElse, Option.orElse_eq_or, Option.or_eq_some_iff,
    Option.map_eq_some_iff] at h
  rcases h with ⟨v, hv, rfl⟩ | ⟨-, ⟨v, hv, rfl⟩ | ⟨-, ⟨v, hv, rfl⟩ | ⟨-, v, hv, rfl⟩⟩⟩
  · exact .inl ⟨v, rfl, hv⟩
  · exact .inr (.inl ⟨v, rfl, hcomment hv⟩)
  · exact .inr (.inr (.inl ⟨v, rfl, hv⟩))
  · exact .inr (.inr (.inr ⟨rfl, hcomment hv⟩))

theorem value?_of_source (h : ofLine? line = some (.source val)) :
    value? "source" line = some val := by
  rcases ofLine?_cases h with ⟨v, ⟨⟩, hv⟩ | ⟨v, ⟨⟩, -⟩ | ⟨v, ⟨⟩, -⟩ | ⟨⟨⟩, -⟩
  exact hv

theorem value?_of_version (h : ofLine? line = some (.version val)) :
    value? "version" line = some val := by
  rcases ofLine?_cases h with ⟨v, ⟨⟩, -⟩ | ⟨v, ⟨⟩, -⟩ | ⟨v, ⟨⟩, hv⟩ | ⟨⟨⟩, -⟩
  exact hv

theorem exists_of_after?_trimStart {lead : Text} (h : after? lead (trimStart t) = some rest) :
    ∃ v, isBlankText v ∧ t = v ++ lead ++ rest := by
  obtain ⟨v, hv, he⟩ := exists_eq_append_trimStart t
  rw [after?_eq_some_iff] at h
  exact ⟨v, hv, by rw [List.append_assoc, ← h]; exact he⟩

/-- The text that a pattern `key = "value"` matches. -/
structure IsPattern (key val p : Text) : Prop where
  quote_not_mem : '"' ∉ val
  eq_append : ∃ u v w, isBlankText u ∧ isBlankText v ∧ isBlankText w ∧
    p = u ++ key ++ v ++ ['='] ++ w ++ ('"' :: val ++ ['"'])

def behind? (key t : Text) : Option Text := do
  let t ← assigned? key t
  let (_, rest) ← quoted? t
  some rest

theorem exists_pattern (h : value? key line = some val) :
    ∃ p rest, behind? key line = some rest ∧ IsPattern key val p ∧ line = p ++ rest := by
  obtain ⟨t, ht, h⟩ := Option.bind_eq_some_iff.mp h
  obtain ⟨⟨val', rest⟩, hq, h⟩ := Option.bind_eq_some_iff.mp h
  obtain rfl : val' = val := Option.some.inj h
  have hbehind : behind? key line = some rest := by
    simp only [behind?, ht, Option.bind_eq_bind, Option.bind_some, hq]
  obtain ⟨t₁, h₁, h⟩ := Option.bind_eq_some_iff.mp ht
  obtain ⟨t₂, h₂, h⟩ := Option.bind_eq_some_iff.mp h
  obtain ⟨u, hu, hline⟩ := exists_of_after?_trimStart h₁
  obtain ⟨v, hv, ht₁⟩ := exists_of_after?_trimStart h₂
  obtain ⟨w, hw, ht₂⟩ := exists_eq_append_trimStart t₂
  obtain ⟨hval, ht₃⟩ := quoted?_eq_some_iff.mp hq
  have h₃ : trimStart t₂ = t := Option.some.inj h
  refine ⟨_, rest, hbehind, ⟨hval, u, v, w, hu, hv, hw, rfl⟩, ?_⟩
  rw [hline, ht₁, ht₂, h₃, ht₃]
  simp

/-- Reading the text leaves no trace but plain code. -/
def IsPlain (t : Text) : Prop := ∀ c ∈ t, ¬ IsSpecial c ∧
    (codeMark? c = none ∨ codeMark? c = some .code)

theorem isPlain_of_blank (ht : isBlankText t) : IsPlain t := fun c hc =>
  have hb := isBlankText_iff.mp ht c hc
  ⟨not_isSpecial_of_isBlank hb, .inl (codeMark?_of_isBlank hb)⟩

theorem IsKey.isPlain (h : IsKey t) : IsPlain t := fun c hc => ⟨(h c hc).2.1, .inr (h c hc).2.2⟩

theorem IsPlain.append (hs : IsPlain s) (ht : IsPlain t) : IsPlain (s ++ t) := by
  intro c hc
  rcases List.mem_append.mp hc with hc | hc
  · exact hs c hc
  · exact ht c hc

/-- Marks of code that is neither bracket nor comment. -/
def IsQuiet (ms : List (Nat × Mark)) : Prop := ∀ m ∈ ms, m.2 = .code

theorem IsQuiet.append {ms ms' : List (Nat × Mark)} (h : IsQuiet ms) (h' : IsQuiet ms') :
    IsQuiet (ms ++ ms') := by
  intro m hm
  rcases List.mem_append.mp hm with hm | hm
  · exact h m hm
  · exact h' m hm

theorem IsQuiet.balance_eq {ms : List (Nat × Mark)} (h : IsQuiet ms) : balance ms = 0 := by
  induction ms with
  | nil => rfl
  | cons m ms ih =>
    obtain ⟨o, mark⟩ := m
    obtain rfl : mark = .code := h (o, mark) List.mem_cons_self
    rw [balance_cons_code]
    exact ih fun m hm => h m (List.mem_cons_of_mem _ hm)

theorem exists_passes_plain (ht : IsPlain t) (o : Nat) (q : Text) :
    ∃ ms, IsQuiet ms ∧ Passes q .code o t ms .code := by
  induction t generalizing o with
  | nil => exact ⟨[], fun _ h => (List.not_mem_nil h).elim, .nil⟩
  | cons c t ih =>
    obtain ⟨hc, hmark⟩ := ht c List.mem_cons_self
    obtain ⟨ms, hms, hp⟩ := ih (fun d hd => ht d (List.mem_cons_of_mem _ hd)) (o + c.utf8Size)
    refine ⟨_, IsQuiet.append ?_ hms, .cons (read_code_of_not_special hc _) hp⟩
    rcases hmark with h | h <;> simp [h, IsQuiet]

theorem exists_passes_quotation (hval : '"' ∉ val) (o : Nat) (q : Text) :
    ∃ ms r, IsQuiet ms ∧ (r = .code ∨ r = .quoted ∧ '\\' ∈ val) ∧
      Passes q .code o ('"' :: val ++ ['"']) ms r := by
  obtain ⟨r₁, r₂, hr₂, hpass, hclose⟩ : ∃ r₁ r₂, (r₂ = .code ∨ r₂ = .quoted ∧ '\\' ∈ val) ∧
      (∀ o q, Passes q .quoted o val [] r₁) ∧ read r₁ '"' q = .go none r₂ := by
    by_cases hb : '\\' ∈ val
    · obtain ⟨r₁, rfl | rfl, hpass⟩ := exists_passes_quoted (.inl rfl) hval
      · exact ⟨.quoted, .code, .inl rfl, hpass, rfl⟩
      · exact ⟨.escape, .quoted, .inr ⟨rfl, hb⟩, hpass, rfl⟩
    · exact ⟨.quoted, .code, .inl rfl, Passes.quoted_plain hval hb, rfl⟩
  refine ⟨[(o, .code)], r₂, by simp [IsQuiet], hr₂, ?_⟩
  have hopen : read .code '"' (val ++ ['"'] ++ q) = .go (some .code) .quoted := rfl
  have hlast (o : Nat) : Passes q r₁ o ['"'] [] r₂ := .skip hclose .nil
  have hcons := Passes.cons hopen ((hpass (o + '"'.utf8Size) _).append (hlast _))
  exact hcons

theorem exists_passes_pattern {p : Text} (hkey : IsKey key) (hp : IsPattern key val p) (q : Text) :
    ∃ ms r, IsQuiet ms ∧ (r = .code ∨ r = .quoted) ∧ Passes q .code 0 p ms r := by
  obtain ⟨u, v, w, hu, hv, hw, rfl⟩ := hp.eq_append
  have hplain : IsPlain (u ++ key ++ v ++ ['='] ++ w) :=
    ((((isPlain_of_blank hu).append hkey.isPlain).append (isPlain_of_blank hv)).append
      (by unfold IsPlain; decide)).append (isPlain_of_blank hw)
  obtain ⟨ms₁, h₁, hpass₁⟩ := exists_passes_plain hplain 0 (('"' :: val ++ ['"']) ++ q)
  obtain ⟨ms₂, r, h₂, hr, hpass₂⟩ := exists_passes_quotation hp.quote_not_mem _ q
  exact ⟨ms₁ ++ ms₂, r, h₁.append h₂, hr.imp_right And.left, hpass₁.append hpass₂⟩

theorem marks_pattern {p : Text} (hkey : IsKey key) (hp : IsPattern key val p) :
    ∃ ms, IsQuiet ms ∧ marks .code 0 p = (ms, .code) := by
  obtain ⟨ms, r, hms, hr, hpass⟩ := exists_passes_pattern hkey hp []
  have hmarks := hpass.marks_append
  rw [List.append_nil, marks, List.append_nil] at hmarks
  refine ⟨ms, hms, hmarks.trans ?_⟩
  rcases hr with rfl | rfl <;> rfl

theorem scan_pattern {p : Text} (hkey : IsKey key) (hp : IsPattern key val p) :
    Carry.code.net p = 0 ∧ Carry.code.next p = .code ∧
      (Carry.code.scan p).1.commentAt = none := by
  obtain ⟨ms, hms, hmarks⟩ := marks_pattern hkey hp
  refine ⟨?_, ?_, ?_⟩
  · rw [Carry.net_code, hmarks, hms.balance_eq]
  · rw [Carry.next_code, hmarks]
  · change (((marks .code 0 p).1).find? _).map _ = none
    rw [hmarks, Option.map_eq_none_iff, List.find?_eq_none]
    intro m hm
    simp [hms m hm]

theorem closedAt_pattern {p : Text} (hkey : IsKey key) (hp : IsPattern key val p) (d : Int) :
    (Carry.code.scanAtDepth d p).1.closedAt = none := by
  obtain ⟨ms, hms, hmarks⟩ := marks_pattern hkey hp
  rw [Carry.closedAt_eq id, Option.eq_none_iff_forall_ne_some]
  intro k hk
  change Tally.closing? d (marks .code 0 p).1 = some k at hk
  rw [hmarks] at hk
  obtain ⟨ms₁, ms₂, rfl, -⟩ := Tally.exists_of_closing?_eq_some hk
  cases hms (k, .closing) (List.mem_append_right _ List.mem_cons_self)

theorem byteLength_le_of_commentAt {key val p q : Text} {k : Nat} (hkey : IsKey key)
    (hp : IsPattern key val p) (h : (Carry.code.scan (p ++ q)).1.commentAt = some k) :
    byteLength p ≤ k := by
  obtain ⟨ms, r, hms, -, hpass⟩ := exists_passes_pattern hkey hp q
  have hquiet : ms.find? (·.2 = .comment) = none := by
    rw [List.find?_eq_none]
    intro m hm
    simp [hms m hm]
  have hcode : ¬ Carry.code.IsHeredoc := by
    intro h
    exact h
  rw [Carry.commentAt_eq hcode] at h
  change ((marks .code 0 (p ++ q)).1.find? _).map _ = _ at h
  rw [hpass.marks_append, List.find?_append, hquiet, Option.none_or, marks_offset] at h
  obtain ⟨m, hm, rfl⟩ := Option.map_eq_some_iff.mp h
  obtain ⟨m', -, rfl⟩ := List.mem_map.mp (List.mem_of_find?_eq_some hm)
  simp

theorem scan_uncommented (h : (uncommented? line).isSome) :
    Carry.code.net line = 0 ∧ Carry.code.next line = .code := by
  obtain ⟨v, hv, hline⟩ := exists_eq_append_trimStart line
  obtain ⟨c, rest, ht, hread⟩ : ∃ c rest, trimStart line = c :: rest ∧
      read .code c rest = .stop (some .comment) .code := by
    obtain ⟨t, ht⟩ := Option.isSome_iff_exists.mp h
    simp only [uncommented?, Option.orElse_eq_orElse, Option.orElse_eq_or,
      Option.or_eq_some_iff] at ht
    rcases ht with ht | ⟨-, ht⟩
    · exact ⟨'#', t, after?_eq_some_iff.mp ht, rfl⟩
    · exact ⟨'/', '/' :: t, after?_eq_some_iff.mp ht, rfl⟩
  have hmarks : marks .code 0 line = ([(byteLength v, .comment)], .code) := by
    rw [hline, ht, (Passes.code_blank hv 0 _).marks_append, marks_cons_of_stop hread]
    simp
  rw [Carry.net_code, Carry.next_code, hmarks]
  exact ⟨rfl, rfl⟩

theorem after?_trimStart_append {l u : Text} (hu : isBlankText u) (hne : l ≠ [])
    (hl : ∀ c ∈ l, ¬ isBlank c) (t : Text) :
    after? l (trimStart (u ++ l ++ t)) = some t := by
  have hstart : trimStart (u ++ l ++ t) = l ++ t := by
    rw [List.append_assoc, trimStart_append_blank hu]
    obtain ⟨c, l, rfl⟩ := List.exists_cons_of_ne_nil hne
    exact trimStart_eq_self fun d hd => Option.some.inj hd ▸ hl c List.mem_cons_self
  rw [hstart, after?_append]

theorem value?_of_pattern {p : Text} (hne : key ≠ []) (hkey : IsKey key)
    (hp : IsPattern key val p) (rest : Text) : value? key (p ++ rest) = some val := by
  obtain ⟨u, v, w, hu, hv, hw, rfl⟩ := hp.eq_append
  have hkey' : ∀ c ∈ key, ¬ isBlank c := by
    intro c hc
    exact (hkey c hc).1
  have h₁ := after?_trimStart_append hu hne hkey'
      (v ++ ['='] ++ (w ++ ('"' :: (val ++ '"' :: rest))))
  have h₂ := after?_trimStart_append (l := "=") hv (by decide) (by decide)
    (w ++ ('"' :: (val ++ '"' :: rest)))
  have h₃ : trimStart (w ++ ('"' :: (val ++ '"' :: rest))) = '"' :: (val ++ '"' :: rest) := by
    rw [trimStart_append_blank hw]
    exact trimStart_eq_self fun d hd => Option.some.inj hd ▸ by decide
  have h₄ : quoted? ('"' :: (val ++ '"' :: rest)) = some (val, rest) :=
    quoted?_eq_some_iff.mpr ⟨hp.quote_not_mem, rfl⟩
  have hsplit : u ++ key ++ v ++ ['='] ++ w ++ ('"' :: val ++ ['"']) ++ rest
      = u ++ key ++ (v ++ ['='] ++ (w ++ ('"' :: (val ++ '"' :: rest)))) := by simp
  have hassigned : assigned? key (u ++ key ++ v ++ ['='] ++ w ++ ('"' :: val ++ ['"']) ++ rest)
      = some ('"' :: (val ++ '"' :: rest)) := by
    rw [assigned?, hsplit, h₁]
    exact (congrArg (·.bind fun t => some (trimStart t)) h₂).trans (congrArg some h₃)
  rw [value?, hassigned]
  exact congrArg (·.bind fun x => some x.1) h₄

theorem ofLine?_of_source (h : value? "source" line = some val) :
    ofLine? line = some (.source val) := by
  rw [ofLine?, h]
  rfl

theorem ofLine?_of_version (h : value? "version" line = some val) :
    ofLine? line = some (.version val) := by
  have hstart : ∃ t, trimStart line = "version" ++ t := by
    obtain ⟨p, rest, -, hp, rfl⟩ := exists_pattern h
    obtain ⟨u, v, w, hu, -, -, rfl⟩ := hp.eq_append
    refine ⟨v ++ ['='] ++ w ++ ('"' :: val ++ ['"']) ++ rest, ?_⟩
    simp only [List.append_assoc]
    rw [trimStart_append_blank hu]
    rfl
  obtain ⟨t, ht⟩ := hstart
  have hsource : value? "source" line = none := by
    rw [value?, assigned?, ht]
    rfl
  have hcomment : uncommented? line = none := by
    rw [uncommented?, ht]
    rfl
  rw [ofLine?, hsource, hcomment, h]
  rfl

theorem ofLine?_source {p : Text} (hp : IsPattern "source" val p) :
    ofLine? p = some (.source val) := by
  have hval := value?_of_pattern (by decide) isKey_source hp []
  rw [List.append_nil] at hval
  exact ofLine?_of_source hval

theorem ofLine?_version {p : Text} (hp : IsPattern "version" val p) :
    ofLine? p = some (.version val) := by
  have hval := value?_of_pattern (by decide) isKey_version hp []
  rw [List.append_nil] at hval
  exact ofLine?_of_version hval

end Attribute

namespace Header

variable {line : Text} {h : Header}

theorem exists_eq_append (hh : ofLine? line = some h) :
    ∃ v w x, isBlankText h.indent ∧ isBlankText v ∧ isBlankText w ∧ isBlankText x ∧ '"' ∉ h.name ∧
      line = h.indent ++ "module" ++ v ++ ('"' :: h.name ++ ['"']) ++ w ++ ('{' :: x) := by
  obtain ⟨t₁, h₁, hh⟩ := Option.bind_eq_some_iff.mp hh
  obtain ⟨-, -, hh⟩ := Option.bind_eq_some_iff.mp hh
  obtain ⟨⟨name, t₂⟩, h₂, hh⟩ := Option.bind_eq_some_iff.mp hh
  obtain ⟨-, -, hh⟩ := Option.bind_eq_some_iff.mp hh
  obtain ⟨x, h₃, hh⟩ := Option.bind_eq_some_iff.mp hh
  obtain ⟨_, hx, hh⟩ := Option.bind_eq_some_iff.mp hh
  obtain rfl := Option.some.inj hh
  obtain ⟨v, hv, ht₁⟩ := exists_eq_append_trimStart t₁
  obtain ⟨hname, hquoted⟩ := Attribute.quoted?_eq_some_iff.mp h₂
  obtain ⟨w, hw, ht₂⟩ := Attribute.exists_of_after?_trimStart h₃
  refine ⟨v, w, x, List.all_takeWhile, hv, hw, (Option.guard_eq_some' _).mp hx, hname, ?_⟩
  have hline : line = line.takeWhile isBlank ++ trimStart line :=
    List.takeWhile_append_dropWhile.symm
  rw [after?_eq_some_iff.mp h₁, ht₁, hquoted, ht₂] at hline
  simpa using hline

/-- The bracket of a header counts unless the name ends in a backslash, which hides its quote. -/
theorem marks_eq (hh : ofLine? line = some h) :
    ∃ ms, Attribute.IsQuiet ms ∧ ((∃ k, marks .code 0 line = (ms ++ [(k, .opening)], .code)) ∨
      marks .code 0 line = (ms, .code) ∧ '\\' ∈ h.name) := by
  obtain ⟨v, w, x, hu, hv, hw, hx, hname, hline⟩ := exists_eq_append hh
  have hplain : Attribute.IsPlain (h.indent ++ "module" ++ v) :=
    ((Attribute.isPlain_of_blank hu).append (by unfold Attribute.IsPlain; decide)).append
      (Attribute.isPlain_of_blank hv)
  obtain ⟨ms₁, h₁, hp₁⟩ := Attribute.exists_passes_plain hplain 0
    ('"' :: h.name ++ ['"'] ++ (w ++ '{' :: x))
  obtain ⟨ms₂, r, h₂, hr, hp₂⟩ := Attribute.exists_passes_quotation hname
    (0 + byteLength (h.indent ++ "module" ++ v)) (w ++ '{' :: x)
  have hpass := hp₁.append hp₂
  have hline' : line = h.indent ++ "module" ++ v ++ ('"' :: h.name ++ ['"'])
      ++ (w ++ '{' :: x) := by
    rw [hline]
    simp
  refine ⟨ms₁ ++ ms₂, h₁.append h₂, ?_⟩
  rw [hline', hpass.marks_append]
  rcases hr with rfl | ⟨rfl, hname⟩
  · left
    have hopen (t : Text) : read .code '{' t = .go (some .opening) .code :=
      read_code_of_not_special (by decide) t
    rw [(Passes.code_blank hw _ _).marks_append, marks_cons_of_go (hopen x), marks_of_blank _ _ hx]
    exact ⟨_, rfl⟩
  · right
    have hquote : '"' ∉ w ++ '{' :: x := by
      intro hq
      rcases List.mem_append.mp hq with hq | hq
      · exact absurd (isBlankText_iff.mp hw _ hq) (by decide)
      · rcases List.mem_cons.mp hq with hq | hq
        · exact absurd hq (by decide)
        · exact absurd (isBlankText_iff.mp hx _ hq) (by decide)
    obtain ⟨r', hr', hpass'⟩ := exists_passes_quoted (.inl rfl) hquote
    have hend (o : Nat) : marks .quoted o (w ++ '{' :: x) = ([], r'.carry) := by
      simpa [marks] using (hpass' o []).marks_append
    rw [hend, List.append_nil]
    rcases hr' with rfl | rfl <;> exact ⟨rfl, hname⟩

theorem next_code (hh : ofLine? line = some h) : Carry.code.next line = .code := by
  obtain ⟨ms, -, ⟨k, he⟩ | ⟨he, -⟩⟩ := marks_eq hh <;> rw [Carry.next_code, he]

theorem net_code_cases (hh : ofLine? line = some h) :
    Carry.code.net line = 1 ∨ Carry.code.net line = 0 ∧ '\\' ∈ h.name := by
  obtain ⟨ms, hms, ⟨k, he⟩ | ⟨he, hname⟩⟩ := marks_eq hh
  · left
    rw [Carry.net_code, he, balance_append, hms.balance_eq]
    rfl
  · right
    rw [Carry.net_code, he, hms.balance_eq]
    exact ⟨rfl, hname⟩

end Header

end SourceSwitch
