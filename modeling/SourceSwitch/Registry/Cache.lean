import SourceSwitch.Registry.Lookup

namespace SourceSwitch

/-- Releases by coordinates, each address once. -/
structure Cache where
  entries : List (Coordinates × Release)
deriving DecidableEq, Repr

namespace Cache

def empty : Cache := ⟨[]⟩

instance : Inhabited Cache := ⟨empty⟩

def get? (cache : Cache) (c : Coordinates) : Option Release := cache.entries.lookup c

def insert (cache : Cache) (c : Coordinates) (r : Release) : Cache :=
  ⟨(c, r) :: cache.entries.filter (·.1 ≠ c)⟩

def size (cache : Cache) : Nat := cache.entries.length

theorem get?_insert (cache : Cache) (c d : Coordinates) (r : Release) :
    (cache.insert c r).get? d = if d = c then some r else cache.get? d := by
  simp only [get?, insert, List.lookup_cons]
  by_cases h : d = c
  · simp [h]
  · simp only [beq_eq_false_iff_ne.mpr h, h, if_false]
    induction cache.entries with
    | nil => rfl
    | cons e es ih =>
      obtain ⟨k, v⟩ := e
      by_cases hk : k = c
      · have hd : (d == k) = false := beq_eq_false_iff_ne.mpr (hk ▸ h)
        rw [List.filter_cons_of_neg (by simp [hk]), ih, List.lookup_cons, hd]
      · rw [List.filter_cons_of_pos (by simp [hk]), List.lookup_cons, List.lookup_cons, ih]

end Cache

/-- Asks for what is not in the cache yet. Only successes are kept. -/
def Lookup.cached {σ : Type} (inner : Lookup σ) : Lookup (Cache × σ) := fun c (cache, s) =>
  match cache.get? c with
  | some r =>
    (⟨.ok r, [.debug .cache ("Cache hit for " ++ c.text ++ ": " ++ r.version)]⟩, (cache, s))
  | none =>
    let (reply, s) := inner c s
    match reply.answer with
    | .ok r => (reply, (cache.insert c r, s))
    | .error _ => (reply, (cache, s))

end SourceSwitch
