import SourceSwitch.Proofs.Registry.Cache
import SourceSwitch.Proofs.Rewrite.Isolation

namespace SourceSwitch

section Quiet

def Edit.quiet (e : Edit) : Edit := { e with events := [] }

def Transformation.quiet (t : Transformation) : Transformation := { t with events := [] }

variable {σ : Type} {ask : Lookup σ} {reply : Coordinates → Reply} {kind : σ → Prop} {s : σ}

theorem Edit.splice_quiet (cursor : Nat) (lines : List Text) (es : List Edit) :
    Edit.splice cursor lines (es.map Edit.quiet) = Edit.splice cursor lines es := by
  induction es generalizing cursor lines with
  | nil => rfl
  | cons e es ih =>
    rw [List.map_cons, splice, splice, ih]
    rfl

theorem Transformation.quiet_ofEdits (content : Text) (es : List Edit) :
    (ofEdits content es).quiet = (ofEdits content (es.map Edit.quiet)).quiet := by
  simp only [quiet, ofEdits, Edit.splice_quiet, List.any_map, List.filterMap_map]
  rfl

theorem Transformation.quiet_ofEdits_congr {es es' : List Edit}
    (h : es.map Edit.quiet = es'.map Edit.quiet) (content : Text) :
    (ofEdits content es).quiet = (ofEdits content es').quiet := by
  rw [quiet_ofEdits, h, ← quiet_ofEdits]

theorem Edit.quiet_of (mode : Mode) (reply : Coordinates → Reply) (lines : List Text)
    (b : ModuleBlock) :
    (Edit.of mode reply lines b).quiet = ⟨b, b.slice lines, mode.verdict reply b, []⟩ := by
  rw [quiet, verdict_of]
  rfl

theorem Edit.plan_of_gives (h : ask.Gives kind reply) (mode : Mode) (lines : List Text)
    (bs : List ModuleBlock) (hs : kind s) : (Edit.plan ask mode lines bs s).1.map quiet
      = (bs.map (Edit.of mode reply lines)).map quiet ∧ kind (Edit.plan ask mode lines bs s).2 := by
  induction bs generalizing s with
  | nil => exact ⟨rfl, hs⟩
  | cons b bs ih =>
    obtain ⟨hverdict, hs'⟩ := Mode.run_plan_of_gives h mode b hs
    obtain ⟨hrest, hkind⟩ := ih hs'
    refine ⟨?_, hkind⟩
    change (⟨b, b.slice lines, ((mode.plan b).run ask b s).1.1, []⟩ : Edit) ::
      (Edit.plan ask mode lines bs ((mode.plan b).run ask b s).2).1.map quiet = _
    rw [hrest, hverdict, ← quiet_of]
    rfl

theorem transform_of_gives (h : ask.Gives kind reply) (mode : Mode) (content : Text) (hs : kind s) :
    (transform ask mode content s).1.quiet
        = (transform (.constant reply) mode content ()).1.quiet ∧
      kind (transform ask mode content s).2 := by
  obtain ⟨hedits, hkind⟩ := Edit.plan_of_gives h mode (Text.lines content)
    (readBlocks (Text.lines content)) hs
  refine ⟨?_, hkind⟩
  rw [transform_eq (Lookup.isConstant_constant reply)]
  exact Transformation.quiet_ofEdits_congr hedits content

def transformAll (ask : Lookup σ) : List (Mode × Text) → σ → List Transformation × σ
  | [], s => ([], s)
  | (mode, content) :: rest, s =>
    let (t, s) := transform ask mode content s
    let (ts, s) := transformAll ask rest s
    (t :: ts, s)

theorem transformAll_of_gives (h : ask.Gives kind reply) (jobs : List (Mode × Text)) (hs : kind s) :
    (transformAll ask jobs s).1.map Transformation.quiet
        = jobs.map (fun job => (transform (.constant reply) job.1 job.2 ()).1.quiet) ∧
      kind (transformAll ask jobs s).2 := by
  induction jobs generalizing s with
  | nil => exact ⟨rfl, hs⟩
  | cons job jobs ih =>
    obtain ⟨hfirst, hs'⟩ := transform_of_gives h job.1 job.2 hs
    obtain ⟨hrest, hkind⟩ := ih hs'
    refine ⟨?_, hkind⟩
    rw [List.map_cons, ← hfirst, ← hrest]
    rfl

end Quiet

section Cached

variable {σ : Type} {inner : Lookup σ} {reply : Coordinates → Reply} {cache : Cache}

/-- What is cached is what the registry would answer. -/
def Cache.IsTruthful (cache : Cache) (reply : Coordinates → Reply) : Prop :=
  ∀ c r, cache.get? c = some r → (reply c).answer = .ok r

theorem Cache.isTruthful_empty (reply : Coordinates → Reply) : Cache.empty.IsTruthful reply := by
  intro c r h
  cases h

theorem Cache.IsTruthful.insert (h : cache.IsTruthful reply) {c : Coordinates} {r : Release}
    (hr : (reply c).answer = .ok r) : (cache.insert c r).IsTruthful reply := by
  intro d r' hr'
  rw [Cache.get?_insert] at hr'
  split at hr'
  · next hd => rw [hd, hr, Option.some.inj hr']
  · exact h d r' hr'

/-- The cache is truthful, and every call with success is remembered and was the only one for its
coordinates. -/
structure IsThrifty (reply : Coordinates → Reply) (state : Cache × List Call × σ) : Prop where
  truthful : state.1.IsTruthful reply
  known : ∀ c ∈ Call.successes state.2.1, ∃ r, state.1.get? c = some r
  nodup : (Call.successes state.2.1).Nodup

theorem isThrifty_start (reply : Coordinates → Reply) (s : σ) :
    IsThrifty reply (Cache.empty, [], s) := by
  constructor
  · exact Cache.isTruthful_empty reply
  · intro c hc
    cases hc
  · exact List.nodup_nil

theorem gives_cached_logged (h : inner.IsConstant reply) :
    inner.logged.cached.Gives (IsThrifty reply) reply := by
  rintro c ⟨cache, calls, s⟩ hs
  rw [Lookup.cached]
  cases hget : cache.get? c with
  | some r => exact ⟨(hs.truthful c r hget).symm, hs⟩
  | none =>
    simp only [Lookup.logged, h c s]
    cases hanswer : (reply c).answer with
    | error e =>
      refine ⟨hanswer, hs.truthful, ?_, ?_⟩ <;> rw [Call.successes_append_of_error hanswer]
      · exact hs.known
      · exact hs.nodup
    | ok r =>
      refine ⟨hanswer, hs.truthful.insert hanswer, ?_, ?_⟩ <;>
        rw [Call.successes_append_of_ok hanswer]
      · intro d hd
        rw [Cache.get?_insert]
        split
        · exact ⟨r, rfl⟩
        · next hne =>
          rcases List.mem_append.mp hd with hd | hd
          · exact hs.known d hd
          · exact absurd (List.mem_singleton.mp hd) hne
      · apply List.nodup_append.mpr
        refine ⟨hs.nodup, List.pairwise_singleton _ c, ?_⟩
        -- A call with success would have left its release in the cache.
        rintro d hd _ hc rfl
        obtain rfl := List.mem_singleton.mp hc
        obtain ⟨r', hr'⟩ := hs.known d hd
        rw [hget] at hr'
        cases hr'

def transformCached (inner : Lookup σ) (jobs : List (Mode × Text)) (s : σ) :
    List Transformation × Cache × List Call × σ :=
  transformAll inner.logged.cached jobs (.empty, [], s)

/-- Each lookup through a cache repeats the first release found for its coordinates, or is one call
of the registry if there is none yet, whatever becomes of the registry meanwhile. If that always
answers alike, rewriting any contents through the cache comes to the same as without it. -/
theorem cached_memoizes (inner : Lookup σ) (s : σ) :
    (∀ (turns : List (Turn σ)) (earlier : List Exchange) (x : Exchange) (later : List Exchange),
      inner.session turns .empty s = earlier ++ x :: later → x.IsMemoized earlier ∧
        (∀ c, c ∈ x.before.keys ↔
          ∃ y ∈ earlier, y.coordinates = c ∧ ∃ r, y.reply.answer = .ok r) ∧
        ∀ c, c ∈ x.after.keys ↔
          ∃ y ∈ earlier ++ [x], y.coordinates = c ∧ ∃ r, y.reply.answer = .ok r) ∧
    ∀ reply, inner.IsConstant reply → ∀ jobs : List (Mode × Text),
      (transformCached inner jobs s).1.map Transformation.quiet
          = (transformAll inner jobs s).1.map Transformation.quiet ∧
        (Call.successes (transformCached inner jobs s).2.2.1).Nodup := by
  constructor
  · intro turns earlier x later hsession
    have hx := Lookup.isMemoized_of_mem_session Cache.remembers_empty hsession
    exact ⟨hx, fun _ => hx.remembers_before.mem_keys_iff, fun _ => hx.remembers_after.mem_keys_iff⟩
  · intro reply hinner jobs
    obtain ⟨hthrough, hkind⟩ :=
      transformAll_of_gives (gives_cached_logged hinner) jobs (isThrifty_start reply s)
    obtain ⟨hdirect, -⟩ := transformAll_of_gives hinner.gives jobs trivial
    exact ⟨hthrough.trans hdirect.symm, hkind.nodup⟩

/-- A registry that counts up: nothing is published at first, and then one release after another. -/
def countingRegistry : Lookup Nat := fun c n =>
  (⟨if n = 0 then .error (.notFound c.text) else .ok ⟨Text.ofNat n ++ ".0.0", n⟩, []⟩, n)

def jobsTwice : List (Mode × Text) :=
  List.replicate 2 (.refresh ["acme/"] "registry.terraform.io", twoModules)

theorem cached_memoizes_countingRegistry :
    let c : Coordinates := ⟨"registry.terraform.io", "acme", "vnet", "azure"⟩
    let turns : List (Turn Nat) :=
      [.lookup c, .change (· + 1), .lookup c, .change (· + 1), .lookup c]
    let session := countingRegistry.session turns .empty 0
    let ask := Lookup.constant vnetOnly
    (∃ x, session = session.take 2 ++ x :: [] ∧ x.IsMemoized (session.take 2) ∧
      ∀ d, d ∈ x.after.keys ↔
        ∃ y ∈ session.take 2 ++ [x], y.coordinates = d ∧ ∃ r, y.reply.answer = .ok r) ∧
    firstRelease? (session.take 2) c = some ⟨"1.0.0", 1⟩ ∧
    ask.IsConstant vnetOnly ∧
    (transformCached ask jobsTwice ()).1.map Transformation.quiet
      = (transformAll ask jobsTwice ()).1.map Transformation.quiet ∧
    (Call.successes (transformCached ask jobsTwice ()).2.2.1).Nodup ∧
    Call.successes (transformCached ask jobsTwice ()).2.2.1 = [c] := by
  intro c turns session ask
  have hsession : ∃ x, session = session.take 2 ++ x :: [] := ⟨_, rfl⟩
  obtain ⟨x, hx⟩ := hsession
  have hask : ask.IsConstant vnetOnly := Lookup.isConstant_constant vnetOnly
  obtain ⟨hmemoized, -, hkeys⟩ := (cached_memoizes countingRegistry 0).1 turns _ x [] hx
  obtain ⟨hquiet, hnodup⟩ := (cached_memoizes ask ()).2 vnetOnly hask jobsTwice
  have hfirst : firstRelease? (session.take 2) c = some ⟨"1.0.0", 1⟩ := by decide
  exact ⟨⟨x, hx, hmemoized, hkeys⟩, hfirst, hask, hquiet, hnodup, by decide +kernel⟩

end Cached

end SourceSwitch
