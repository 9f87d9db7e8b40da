import SourceSwitch.Text.Basic

namespace SourceSwitch

inductive ModuleSource where
  | inTree (subpath : Option Text)
  | published (base : Text) (subpath : Option Text)
deriving DecidableEq, Repr

namespace ModuleSource

/-- The root of the project's tree as seen from one of its examples. -/
def treeRoot : Text := "../../"

def separator : Text := "//"

def subpath? (t : Text) : Option Text := Text.nonempty? (Text.strip '/' t)

def treeRemainder? (raw : Text) : Option Text :=
  if raw = "../.." then some [] else Text.after? treeRoot raw

/-- Base and sub-path around the first `//`. One behind a colon belongs to a scheme, as in
`https://`, and the search goes on behind it. -/
def splitSubpath? : Text → Option (Text × Text)
  | [] => none
  | ':' :: '/' :: '/' :: rest =>
    (splitSubpath? rest).map fun (base, subpath) => (':' :: '/' :: '/' :: base, subpath)
  | '/' :: '/' :: rest => some ([], rest)
  | c :: rest => (splitSubpath? rest).map fun (base, subpath) => (c :: base, subpath)

def classify (raw : Text) : ModuleSource :=
  let raw := Text.trim raw
  match treeRemainder? raw with
  | some rest => .inTree (subpath? rest)
  | none =>
    match splitSubpath? raw with
    | some (base, subpath) => .published (Text.stripEnd '/' base) (subpath? subpath)
    | none => .published (Text.stripEnd '/' raw) none

def subpath : ModuleSource → Option Text
  | inTree subpath => subpath
  | published _ subpath => subpath

def isInTree : ModuleSource → Bool
  | inTree _ => true
  | published .. => false

def base? : ModuleSource → Option Text
  | inTree _ => none
  | published base _ => some base

/-- `../../`, or `../../subpath/`. -/
def treeText : Option Text → Text
  | some subpath => treeRoot ++ subpath ++ ['/']
  | none => treeRoot

/-- `base`, or `base//subpath`. -/
def publishedText (base : Text) : Option Text → Text
  | some subpath => base ++ separator ++ subpath
  | none => base

def text : ModuleSource → Text
  | inTree subpath => treeText subpath
  | published base subpath => publishedText base subpath

theorem eq_append_of_splitSubpath? {t base subpath : Text}
    (h : splitSubpath? t = some (base, subpath)) : t = base ++ separator ++ subpath := by
  fun_induction splitSubpath? t generalizing base subpath with
  | case1 => simp at h
  | case2 rest ih =>
    obtain ⟨⟨b, s⟩, hb, heq⟩ := Option.map_eq_some_iff.mp h
    obtain ⟨rfl, rfl⟩ := Prod.mk.inj heq
    rw [ih hb]; rfl
  | case3 rest => obtain ⟨rfl, rfl⟩ := Prod.mk.inj (Option.some.inj h); rfl
  | case4 c rest _ _ ih =>
    obtain ⟨⟨b, s⟩, hb, heq⟩ := Option.map_eq_some_iff.mp h
    obtain ⟨rfl, rfl⟩ := Prod.mk.inj heq
    rw [ih hb]; rfl

end ModuleSource

end SourceSwitch
