import SourceSwitch.Proofs.Bracket.Tally

namespace SourceSwitch

open Text

namespace Bracket

variable {r r' r'' : Region} {p p' q : Text} {d d' : Int} {c : Char} {mark : Option Mark}

def change : Option Mark → Int
  | some .opening => 1
  | some .closing => -1
  | _ => 0

theorem balance_toList (o : Nat) (mark : Option Mark) :
    balance (mark.toList.map (o, ·)) = change mark := by
  cases mark with
  | none => rfl
  | some m => cases m <;> rfl

/-- Reading `p` in front of `q` adds `d` to the depth, at whatever offset `p` stands. -/
def Shifts (q : Text) (r : Region) (d : Int) (p : Text) (r' : Region) : Prop :=
  ∀ o, ∃ ms, balance ms = d ∧ Passes q r o p ms r'

namespace Shifts

theorem nil : Shifts q r 0 [] r := fun _ => ⟨[], rfl, .nil⟩

theorem cons (hread : read r c (p ++ q) = .go mark r') (h : Shifts q r' d p r'') :
    Shifts q r (change mark + d) (c :: p) r'' := by
  intro o
  obtain ⟨ms, hms, hpass⟩ := h (o + c.utf8Size)
  refine ⟨_, ?_, .cons hread hpass⟩
  rw [balance_append, balance_toList, hms]

theorem append (h : Shifts (p' ++ q) r d p r') (h' : Shifts q r' d' p' r'') :
    Shifts q r (d + d') (p ++ p') r'' := by
  intro o
  obtain ⟨ms, hms, hpass⟩ := h o
  obtain ⟨ms', hms', hpass'⟩ := h' (o + byteLength p)
  refine ⟨ms ++ ms', ?_, hpass.append hpass'⟩
  rw [balance_append, hms, hms']

theorem quiet (hread : read r c (p ++ q) = .go mark r') (hmark : change mark = 0)
    (h : Shifts q r' d p r'') : Shifts q r d (c :: p) r'' := by
  have hcons := cons hread h
  rwa [hmark, Int.zero_add] at hcons

theorem quoted (hquote : c ≠ '"') (hescape : c ≠ '\\') (h : Shifts q .quoted d p r) :
    Shifts q .quoted d (c :: p) r := by
  have hread : read .quoted c (p ++ q) = .go none .quoted := by
    simp [read, hquote, hescape]
  exact quiet hread rfl h

theorem scan (h : Shifts [] .code d p r) :
    Carry.code.net p = d ∧ Carry.code.next p = r.carry := by
  obtain ⟨ms, hms, hpass⟩ := h 0
  have hmarks := hpass.marks_append
  rw [List.append_nil, marks, List.append_nil] at hmarks
  rw [Carry.net_code, Carry.next_code, hmarks]
  exact ⟨hms, rfl⟩

end Shifts

end Bracket

namespace Template

open SourceSwitch.Bracket

/-- Where a character stands: among the items of a template, or in an interpolation's expression. -/
inductive Setting where
  | items
  | expression
deriving DecidableEq, Repr

def IsPair (o c : Char) : Prop := o = '{' ∧ c = '}' ∨ o = '[' ∧ c = ']' ∨ o = '(' ∧ c = ')'

/-- What a character of a string adds to the depth if it is read as code. -/
def excess (exposed : Bool) (c : Char) : Int :=
  if exposed ∧ isOpening c then 1 else if exposed ∧ isClosing c then -1 else 0

@[simp] theorem excess_false (c : Char) : excess false c = 0 := by
  simp [excess]

/-- The text in a setting. The flag tells whether the scanner, which takes the quotes in turn, reads
it as code; the number is the excess of the strings that it reads so. Single characters may be
restricted by what stands behind them. -/
inductive Inside (Admits : Setting → Bool → Char → Text → Prop) :
    Setting → Bool → Int → Text → Prop where
  | nil {s : Setting} {e : Bool} : Inside Admits s e 0 []
  | literal {e : Bool} {n : Int} {c : Char} {t : Text} : c ≠ '"' → c ≠ '\\' →
      ¬ (c = '$' ∧ t.head? = some '{') → Admits .items e c t → Inside Admits .items e n t →
      Inside Admits .items e (excess e c + n) (c :: t)
  | escape {e : Bool} {n : Int} {c : Char} {t : Text} : Admits .items e c t →
      Inside Admits .items e n t → Inside Admits .items e (excess e c + n) ('\\' :: c :: t)
  | interpolation {e : Bool} {m n : Int} {v t : Text} : Inside Admits .expression e m v →
      Inside Admits .items e n t → Inside Admits .items e (m + n) ('$' :: ('{' :: v ++ '}' :: t))
  | ordinary {e : Bool} {n : Int} {c : Char} {t : Text} : c ≠ '"' → ¬ isOpening c →
      ¬ isClosing c → Admits .expression e c t → Inside Admits .expression e n t →
      Inside Admits .expression e n (c :: t)
  | brackets {e : Bool} {m n : Int} {o c : Char} {v t : Text} : IsPair o c →
      Inside Admits .expression e m v → Inside Admits .expression e n t →
      Inside Admits .expression e (m + n) (o :: v ++ c :: t)
  | template {e : Bool} {m n : Int} {v t : Text} : Inside Admits .items (!e) m v →
      Inside Admits .expression e n t → Inside Admits .expression e (m + n) ('"' :: v ++ '"' :: t)

def IsContent (t : Text) : Prop := ∃ n, Inside (fun _ _ _ _ => True) .items false n t

/-- A character that starts neither a string nor a comment when it is read as code. -/
def IsBare (c : Char) (t : Text) : Prop :=
  c ≠ '"' ∧ c ≠ '#' ∧ ¬ (c = '/' ∧ (t.head? = some '/' ∨ t.head? = some '*'))

instance (c : Char) (t : Text) : Decidable (IsBare c t) :=
  inferInstanceAs (Decidable (c ≠ '"' ∧ c ≠ '#' ∧
    ¬ (c = '/' ∧ (t.head? = some '/' ∨ t.head? = some '*'))))

/-- No character hides a quote from the scanner, or shows it one that is none. -/
def IsSafe : Setting → Bool → Char → Text → Prop
  | _, true, c, t => IsBare c t
  | .expression, false, c, _ => c ≠ '\\'
  | .items, false, _, _ => True

def HasExcess (t : Text) (n : Int) : Prop := Inside IsSafe .items false n t

variable {Admits Admits' : Setting → Bool → Char → Text → Prop} {s : Setting} {e : Bool} {m n : Int}
  {t q v : Text} {o c : Char}

theorem Inside.mono (hle : ∀ s e c t, Admits s e c t → Admits' s e c t)
    (h : Inside Admits s e n t) : Inside Admits' s e n t := by
  induction h with
  | nil => exact .nil
  | literal hquote hescape hopener hc _ ih =>
    exact .literal hquote hescape hopener (hle _ _ _ _ hc) ih
  | escape hc _ ih => exact .escape (hle _ _ _ _ hc) ih
  | interpolation _ _ ihv iht => exact .interpolation ihv iht
  | ordinary hquote hopening hclosing hc _ ih =>
    exact .ordinary hquote hopening hclosing (hle _ _ _ _ hc) ih
  | brackets hpair _ _ ihv iht => exact .brackets hpair ihv iht
  | template _ _ ihv iht => exact .template ihv iht

theorem HasExcess.isContent (h : HasExcess t n) : IsContent t :=
  ⟨n, h.mono fun _ _ _ _ _ => trivial⟩

/-- Text without characters that could hide a quote from the scanner, or show it one that is none.
Only what is read as code can, and that is so in strings only. -/
structure IsTame (e : Bool) (t : Text) : Prop where
  escape : '\\' ∉ t
  comment : e = true ∨ '"' ∈ t → '#' ∉ t ∧ '/' ∉ t

theorem IsTame.of_subset {v : Text} (h : IsTame e t) (hsub : v ⊆ t) : IsTame e v := by
  refine ⟨fun hv => h.escape (hsub hv), fun he => ?_⟩
  obtain ⟨hhash, hslash⟩ := h.comment (he.imp_right fun hv => hsub hv)
  exact ⟨fun hv => hhash (hsub hv), fun hv => hslash (hsub hv)⟩

theorem IsTame.flip {v : Text} (h : IsTame e t) (hquote : '"' ∈ t) (hsub : v ⊆ t) :
    IsTame (!e) v := by
  refine ⟨fun hv => h.escape (hsub hv), fun _ => ?_⟩
  obtain ⟨hhash, hslash⟩ := h.comment (.inr hquote)
  exact ⟨fun hv => hhash (hsub hv), fun hv => hslash (hsub hv)⟩

theorem IsTame.isSafe {c : Char} (h : IsTame e (c :: t)) (hquote : c ≠ '"') (s : Setting) :
    IsSafe s e c t := by
  cases e with
  | true =>
    obtain ⟨hhash, hslash⟩ := h.comment (.inl rfl)
    have hbare : IsBare c t := by
      refine ⟨hquote, ?_, ?_⟩
      · rintro rfl
        exact hhash List.mem_cons_self
      · rintro ⟨rfl, -⟩
        exact hslash List.mem_cons_self
    cases s <;> exact hbare
  | false =>
    cases s with
    | items => trivial
    | expression =>
      rintro rfl
      exact h.escape List.mem_cons_self

theorem Inside.isSafe {Admits : Setting → Bool → Char → Text → Prop} (h : Inside Admits s e n t)
    (htame : IsTame e t) : Inside IsSafe s e n t := by
  induction h with
  | nil => exact .nil
  | literal hquote hescape hopener _ _ ih =>
    exact .literal hquote hescape hopener (htame.isSafe hquote _)
      (ih (htame.of_subset (List.subset_cons_self _ _)))
  | escape => exact absurd List.mem_cons_self htame.escape
  | interpolation _ _ ihv iht =>
    exact .interpolation (ihv (htame.of_subset fun x hx => by simp [hx]))
      (iht (htame.of_subset fun x hx => by simp [hx]))
  | ordinary hquote hopening hclosing _ _ ih =>
    exact .ordinary hquote hopening hclosing (htame.isSafe hquote _)
      (ih (htame.of_subset (List.subset_cons_self _ _)))
  | brackets hpair _ _ ihv iht =>
    exact .brackets hpair (ihv (htame.of_subset fun x hx => by simp [hx]))
      (iht (htame.of_subset fun x hx => by simp [hx]))
  | template _ _ ihv iht =>
    exact .template (ihv (htame.flip (by simp) fun x hx => by simp [hx]))
      (iht (htame.of_subset fun x hx => by simp [hx]))

theorem IsContent.exists_hasExcess (h : IsContent t) (htame : IsTame false t) :
    ∃ n, HasExcess t n := by
  obtain ⟨n, hn⟩ := h
  exact ⟨n, hn.isSafe htame⟩

theorem hasExcess_of_plain (hquote : '"' ∉ t) (hescape : '\\' ∉ t) (hdollar : '$' ∉ t) :
    HasExcess t 0 := by
  induction t with
  | nil => exact .nil
  | cons c t ih =>
    rw [List.mem_cons, not_or] at hquote hescape hdollar
    have hrest := ih hquote.2 hescape.2 hdollar.2
    have hliteral : HasExcess (c :: t) (excess false c + 0) :=
      .literal (Ne.symm hquote.1) (Ne.symm hescape.1) (fun h => hdollar.1 h.1.symm) trivial hrest
    rwa [excess_false, Int.add_zero] at hliteral

def call (c : Char) : Text := ['$', '{', 'f', '(', '"', c, '"', ')', '}']

theorem hasExcess_call (hquote : c ≠ '"') (hescape : c ≠ '\\') (hc : IsBare c []) :
    HasExcess (call c) (excess true c) := by
  have hcall : 'f' ≠ '\\' := by decide
  have hstring : Inside IsSafe .items true (excess true c + 0) [c] :=
    .literal hquote hescape (by simp) hc .nil
  have hargument : Inside IsSafe .expression false (excess true c + 0 + 0) ['"', c, '"'] :=
    .template (v := [c]) (t := []) hstring .nil
  have hexpression : Inside IsSafe .expression false (excess true c + 0 + 0 + 0)
      ['f', '(', '"', c, '"', ')'] :=
    .ordinary (by decide) (by decide) (by decide) hcall
      (.brackets (v := ['"', c, '"']) (t := []) (.inr (.inr ⟨rfl, rfl⟩)) hargument .nil)
  have hcontent : Inside IsSafe .items false (excess true c + 0 + 0 + 0 + 0) (call c) :=
    .interpolation (v := ['f', '(', '"', c, '"', ')']) (t := []) hexpression .nil
  simpa only [HasExcess, Int.add_zero] using hcontent

def region (exposed : Bool) : Region := if exposed then .code else .quoted

/-- What stands behind some text of a template: at least a quote, and nothing that would make a
slash a comment. -/
structure IsBehind (q : Text) : Prop where
  quote_mem : '"' ∈ q
  slash : q.head? ≠ some '/'
  star : q.head? ≠ some '*'

theorem IsBehind.cons (hslash : c ≠ '/') (hstar : c ≠ '*') (hq : '"' ∈ c :: q) :
    IsBehind (c :: q) :=
  ⟨hq, by simpa using hslash, by simpa using hstar⟩

theorem IsBehind.of_quote (q : Text) : IsBehind ('"' :: q) :=
  .cons (by decide) (by decide) List.mem_cons_self

theorem IsBehind.of_isPair (hpair : IsPair o c) (t : Text) (hq : IsBehind q) :
    IsBehind (c :: t ++ q) := by
  have hmem : '"' ∈ c :: (t ++ q) :=
    List.mem_cons_of_mem c (List.mem_append_right t hq.quote_mem)
  rcases hpair with ⟨-, rfl⟩ | ⟨-, rfl⟩ | ⟨-, rfl⟩ <;> exact .cons (by decide) (by decide) hmem

theorem head?_append_eq_some {d : Char} (hq : q.head? ≠ some d) (h : (t ++ q).head? = some d) :
    t.head? = some d := by
  cases t with
  | nil => exact absurd h hq
  | cons c t => exact h

theorem read_of_isBare (hc : IsBare c t) (hq : IsBehind q) :
    Bracket.read .code c (t ++ q) = .go (codeMark? c) .code := by
  obtain ⟨hquote, hhash, hslash⟩ := hc
  have hline : ¬ (c = '/' ∧ (t ++ q).head? = some '/') := by
    rintro ⟨hc, hhead⟩
    exact hslash ⟨hc, .inl (head?_append_eq_some hq.slash hhead)⟩
  have hblock : ¬ (c = '/' ∧ (t ++ q).head? = some '*') := by
    rintro ⟨hc, hhead⟩
    exact hslash ⟨hc, .inr (head?_append_eq_some hq.star hhead)⟩
  -- The quote behind the text keeps a here-document from opening.
  have hmarker : marker? (c :: (t ++ q)) = none :=
    marker?_eq_none_of_mem (by decide) (by decide) (by decide)
      (List.mem_cons_of_mem c (List.mem_append_right t hq.quote_mem))
  simp only [Bracket.read, readCode, hhash, hline, hblock, hquote, hmarker, or_self, if_false]

theorem change_codeMark? (c : Char) : change (codeMark? c) = excess true c := by
  by_cases hopening : isOpening c
  · simp [codeMark?, excess, hopening, change]
  · by_cases hclosing : isClosing c
    · simp [codeMark?, excess, hopening, hclosing, change]
    · by_cases hblank : isBlank c <;> simp [codeMark?, excess, hopening, hclosing, hblank, change]

theorem shifts_bare {r : Region} (hc : IsBare c t) (hq : IsBehind q) (h : Shifts q .code n t r) :
    Shifts q .code (excess true c + n) (c :: t) r := by
  rw [← change_codeMark?]
  exact .cons (read_of_isBare hc hq) h

theorem shifts_brackets (hpair : IsPair o c) (hv : Shifts (c :: t ++ q) (region e) m v (region e))
    (ht : Shifts q (region e) n t (region e)) :
    Shifts q (region e) (m + n) (o :: v ++ c :: t) (region e) := by
  cases e with
  | false =>
    have hplain : (o ≠ '"' ∧ o ≠ '\\') ∧ c ≠ '"' ∧ c ≠ '\\' := by
      rcases hpair with ⟨rfl, rfl⟩ | ⟨rfl, rfl⟩ | ⟨rfl, rfl⟩ <;> decide
    exact .quoted hplain.1.1 hplain.1.2 (.append hv (.quoted hplain.2.1 hplain.2.2 ht))
  | true =>
    have hread : (∀ t, Bracket.read .code o t = .go (some .opening) .code) ∧
        ∀ t, Bracket.read .code c t = .go (some .closing) .code := by
      rcases hpair with ⟨rfl, rfl⟩ | ⟨rfl, rfl⟩ | ⟨rfl, rfl⟩ <;>
        exact ⟨fun t => read_code_of_not_special (by decide) t,
          fun t => read_code_of_isClosing (by decide) t⟩
    have hshifts := Shifts.cons (hread.1 _) (.append hv (.cons (hread.2 _) ht))
    have hsum : change (some .opening) + (m + (change (some .closing) + n)) = m + n := by
      simp only [change]
      omega
    rwa [hsum] at hshifts

/-- A string inside is read the other way round: code in a string, and a string in code. -/
theorem shifts_template (hv : Shifts ('"' :: t ++ q) (region !e) m v (region !e))
    (ht : Shifts q (region e) n t (region e)) :
    Shifts q (region e) (m + n) ('"' :: v ++ '"' :: t) (region e) := by
  cases e with
  | false => exact .quiet rfl rfl (.append hv (.quiet rfl rfl ht))
  | true => exact .quiet rfl rfl (.append hv (.quiet rfl rfl ht))

/-- Reading the text changes the depth by its excess, and the region not at all. -/
theorem Inside.shifts (h : Inside IsSafe s e n t) (hq : IsBehind q) :
    Shifts q (region e) n t (region e) := by
  induction h generalizing q with
  | nil => exact .nil
  | @literal e n c t hquote hescape _ hc _ ih =>
    cases e with
    | false =>
      rw [excess_false, Int.zero_add]
      exact .quoted hquote hescape (ih hq)
    | true => exact shifts_bare hc hq (ih hq)
  | @escape e n c t hc _ ih =>
    cases e with
    | false =>
      rw [excess_false, Int.zero_add]
      exact .quiet rfl rfl (.quiet rfl rfl (ih hq))
    | true => exact .quiet rfl rfl (shifts_bare hc hq (ih hq))
  | @interpolation e m n v t _ _ ihv iht =>
    have hpair : IsPair '{' '}' := .inl ⟨rfl, rfl⟩
    have hbrackets : Shifts q (region e) (m + n) ('{' :: v ++ '}' :: t) (region e) :=
      shifts_brackets hpair (ihv (.of_isPair hpair t hq)) (iht hq)
    cases e with
    | false => exact .quoted (by decide) (by decide) hbrackets
    | true => exact .quiet (read_code_of_not_special (by decide) _) rfl hbrackets
  | @ordinary e n c t hquote hopening hclosing hc _ ih =>
    cases e with
    | false => exact .quoted hquote hc (ih hq)
    | true =>
      have hbare := shifts_bare hc hq (ih hq)
      rwa [excess, if_neg (by simp [hopening]), if_neg (by simp [hclosing]), Int.zero_add] at hbare
  | brackets hpair _ _ ihv iht => exact shifts_brackets hpair (ihv (.of_isPair hpair _ hq)) (iht hq)
  | template _ _ ihv iht => exact shifts_template (ihv (.of_quote _)) (iht hq)

end Template

end SourceSwitch
