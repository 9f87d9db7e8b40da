import SourceSwitch.Registry.Cache

namespace SourceSwitch

structure Call where
  coordinates : Coordinates
  reply : Reply

namespace Call

def successes (calls : List Call) : List Coordinates :=
  (calls.filter fun call => call.reply.answer.toOption.isSome).map (·.coordinates)

variable {calls : List Call} {c : Coordinates} {reply : Reply}

theorem successes_append_of_error {e : LookupError} (h : reply.answer = .error e) :
    successes (calls ++ [⟨c, reply⟩]) = successes calls := by
  simp [successes, h, Except.toOption]

theorem successes_append_of_ok {r : Release} (h : reply.answer = .ok r) :
    successes (calls ++ [⟨c, reply⟩]) = successes calls ++ [c] := by
  simp [successes, h, Except.toOption]

end Call

namespace Cache

variable {cache : Cache} {c : Coordinates} {r : Release}

def keys (cache : Cache) : List Coordinates := cache.entries.map (·.1)

theorem mem_keys_iff : c ∈ cache.keys ↔ ∃ r, cache.get? c = some r := by
  rw [← Option.isSome_iff_exists, get?, List.lookup_isSome_iff, keys, List.mem_map]
  apply exists_congr
  intro e
  rw [beq_iff_eq, eq_comm (a := c)]

theorem nodup_keys_insert (h : cache.keys.Nodup) (c : Coordinates) (r : Release) :
    (cache.insert c r).keys.Nodup := by
  apply List.nodup_cons.mpr
  constructor
  · intro hmem
    obtain ⟨e, he, hc⟩ := List.mem_map.mp hmem
    exact of_decide_eq_true (List.mem_filter.mp he).2 hc
  · exact h.sublist (List.filter_sublist.map _)

end Cache

/-- A lookup through a cache: the calls that it made, and what was cached before and after. -/
structure Exchange where
  coordinates : Coordinates
  reply : Reply
  calls : List Call
  before : Cache
  after : Cache

inductive Turn (σ : Type) where
  | lookup (c : Coordinates)
  /-- The registry comes into another state, in which any of its answers may differ. -/
  | change (f : σ → σ)

def firstRelease? (history : List Exchange) (c : Coordinates) : Option Release :=
  history.findSome? fun x => if x.coordinates = c then x.reply.answer.toOption else none

/-- The cache holds what lookups found, each release under its coordinates. -/
structure Cache.Remembers (cache : Cache) (history : List Exchange) : Prop where
  get?_eq : ∀ c, cache.get? c = firstRelease? history c
  nodup : cache.keys.Nodup

/-- The lookup repeats the first release found before it, or else calls the registry once. -/
structure Exchange.IsMemoized (earlier : List Exchange) (x : Exchange) : Prop where
  hit : ∀ r, firstRelease? earlier x.coordinates = some r → x.reply.answer = .ok r ∧ x.calls = []
  miss : firstRelease? earlier x.coordinates = none → x.calls = [⟨x.coordinates, x.reply⟩]
  failure : ∀ e, x.reply.answer = .error e → x.after = x.before
  remembers_before : x.before.Remembers earlier
  remembers_after : x.after.Remembers (earlier ++ [x])

section History

variable {history : List Exchange} {c : Coordinates} {cache : Cache}

theorem exists_firstRelease?_iff : (∃ r, firstRelease? history c = some r) ↔
    ∃ x ∈ history, x.coordinates = c ∧ ∃ r, x.reply.answer = .ok r := by
  rw [← Option.isSome_iff_exists, firstRelease?, List.findSome?_isSome_iff]
  constructor
  · rintro ⟨x, hx, hsome⟩
    split at hsome
    · next hc =>
      cases hanswer : x.reply.answer with
      | error e => rw [hanswer] at hsome; cases hsome
      | ok r => exact ⟨x, hx, hc, r, hanswer⟩
    · cases hsome
  · rintro ⟨x, hx, hc, r, hanswer⟩
    refine ⟨x, hx, ?_⟩
    rw [if_pos hc, hanswer]
    rfl

theorem firstRelease?_append (x : Exchange) (c : Coordinates) : firstRelease? (history ++ [x]) c
    = (firstRelease? history c).or
        (if x.coordinates = c then x.reply.answer.toOption else none) := by
  rw [firstRelease?, List.findSome?_append]
  congr 1
  rw [List.findSome?_cons, List.findSome?_nil]
  split <;> simp_all

namespace Cache

theorem Remembers.mem_keys_iff (h : cache.Remembers history) :
    c ∈ cache.keys ↔ ∃ x ∈ history, x.coordinates = c ∧ ∃ r, x.reply.answer = .ok r := by
  rw [Cache.mem_keys_iff, h.get?_eq, exists_firstRelease?_iff]

theorem remembers_empty : empty.Remembers [] := ⟨fun _ => rfl, List.nodup_nil⟩

namespace Remembers

variable {x : Exchange} {r : Release}

theorem append_of_known (h : cache.Remembers history) (hknown : cache.get? x.coordinates = some r) :
    cache.Remembers (history ++ [x]) := by
  refine ⟨fun c => ?_, h.nodup⟩
  rw [firstRelease?_append, ← h.get?_eq]
  by_cases hc : x.coordinates = c
  · rw [← hc, hknown, Option.some_or]
  · rw [if_neg hc, Option.or_none]

theorem append_of_error {e : LookupError} (h : cache.Remembers history)
    (hx : x.reply.answer = .error e) : cache.Remembers (history ++ [x]) := by
  refine ⟨fun c => ?_, h.nodup⟩
  simp only [firstRelease?_append, hx, Except.toOption, ite_self, Option.or_none, h.get?_eq]

theorem insert (h : cache.Remembers history) (hc : x.coordinates = c) (hnew : cache.get? c = none)
    (hx : x.reply.answer = .ok r) : (cache.insert c r).Remembers (history ++ [x]) := by
  refine ⟨fun d => ?_, nodup_keys_insert h.nodup c r⟩
  rw [get?_insert, firstRelease?_append, ← h.get?_eq, hc, hx]
  by_cases hd : d = c
  · rw [if_pos hd, if_pos hd.symm, hd, hnew, Option.none_or]
    rfl
  · rw [if_neg hd, if_neg (Ne.symm hd), Option.or_none]

end Remembers

end Cache

end History

namespace Lookup

variable {σ : Type}

def logged (inner : Lookup σ) : Lookup (List Call × σ) := fun c (calls, s) =>
  ((inner c s).1, (calls ++ [⟨c, (inner c s).1⟩], (inner c s).2))

/-- Calls that a registry answers one after another, and the states before and behind them. -/
inductive Answers (ask : Lookup σ) : σ → List Call → σ → Prop where
  | nil {s : σ} : Answers ask s [] s
  | cons {s s' : σ} {c : Coordinates} {calls : List Call} : Answers ask (ask c s).2 calls s' →
      Answers ask s (⟨c, (ask c s).1⟩ :: calls) s'

theorem Answers.append {ask : Lookup σ} {s s' s'' : σ} {calls calls' : List Call}
    (h : ask.Answers s calls s') (h' : ask.Answers s' calls' s'') :
    ask.Answers s (calls ++ calls') s'' := by
  induction h with
  | nil => exact h'
  | cons _ ih => exact .cons (ih h')

def exchange (inner : Lookup σ) (c : Coordinates) (cache : Cache) (s : σ) : Exchange × σ :=
  let (reply, (after, (calls, s))) := inner.logged.cached c (cache, ([], s))
  (⟨c, reply, calls, cache, after⟩, s)

def session (inner : Lookup σ) : List (Turn σ) → Cache → σ → List Exchange
  | [], _, _ => []
  | .lookup c :: rest, cache, s =>
    let (x, s) := inner.exchange c cache s
    x :: session inner rest x.after s
  | .change f :: rest, cache, s => session inner rest cache (f s)

variable {inner : Lookup σ} {c : Coordinates} {cache : Cache} {s : σ} {history : List Exchange}

theorem exchange_of_hit {r : Release} (h : cache.get? c = some r) (inner : Lookup σ) (s : σ) :
    ∃ events, inner.exchange c cache s = (⟨c, ⟨.ok r, events⟩, [], cache, cache⟩, s) := by
  rw [exchange, cached]
  simp only [h]
  exact ⟨_, rfl⟩

theorem exchange_of_miss (h : cache.get? c = none) : inner.exchange c cache s
    = (⟨c, (inner c s).1, [⟨c, (inner c s).1⟩], cache,
        match (inner c s).1.answer with
        | .ok r => cache.insert c r
        | .error _ => cache⟩, (inner c s).2) := by
  rw [exchange, cached]
  simp only [h, logged, List.nil_append]
  cases (inner c s).1.answer <;> rfl

theorem isMemoized_exchange (h : cache.Remembers history) (inner : Lookup σ) (c : Coordinates)
    (s : σ) : (inner.exchange c cache s).1.IsMemoized history := by
  have hfirst := h.get?_eq c
  cases hget : cache.get? c with
  | some r =>
    obtain ⟨events, hx⟩ := exchange_of_hit hget inner s
    rw [hget] at hfirst
    rw [hx]
    constructor
    · intro r' hr'
      exact ⟨congrArg Except.ok (Option.some.inj (hfirst.trans hr')), rfl⟩
    · intro hnone
      cases hfirst.trans hnone
    · intro e _
      rfl
    · exact h
    · exact h.append_of_known hget
  | none =>
    rw [hget] at hfirst
    rw [exchange_of_miss hget]
    constructor
    · intro r hr
      cases hfirst.trans hr
    · intro _
      rfl
    · intro e he
      simp only at he ⊢
      rw [he]
    · exact h
    · cases hanswer : (inner c s).1.answer with
      | error e => exact h.append_of_error hanswer
      | ok r => exact h.insert rfl hget hanswer

theorem isMemoized_of_mem_session {turns : List (Turn σ)} {earlier later : List Exchange}
    {x : Exchange} (h : cache.Remembers history)
    (hsession : inner.session turns cache s = earlier ++ x :: later) :
    x.IsMemoized (history ++ earlier) := by
  induction turns generalizing cache s history earlier with
  | nil => simp [session] at hsession
  | cons turn turns ih =>
    cases turn with
    | change f => exact ih h hsession
    | lookup c =>
      have hfirst := isMemoized_exchange h inner c s
      cases earlier with
      | nil =>
        obtain ⟨rfl, -⟩ := List.cons.inj hsession
        rwa [List.append_nil]
      | cons y earlier =>
        obtain ⟨rfl, hrest⟩ := List.cons.inj hsession
        have hx := ih hfirst.remembers_after hrest
        rwa [List.append_assoc] at hx

end Lookup

end SourceSwitch
