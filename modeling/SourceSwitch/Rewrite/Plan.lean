import SourceSwitch.Block.Basic
import SourceSwitch.ModuleSource
import SourceSwitch.Registry.Lookup
import SourceSwitch.Rewrite.Mode
import SourceSwitch.Version.Constraint

namespace SourceSwitch

namespace ModuleBlock

/-- What the declaration's source refers to. A commented source does not count. -/
def reference? (b : ModuleBlock) : Option ModuleSource := b.source.map ModuleSource.classify

def label (b : ModuleBlock) : Text := " \"" ++ b.name ++ "\" at line " ++ Text.ofNat b.startLine

end ModuleBlock

namespace ModuleSource

/-- Refers to the project's own module, in the tree or published. -/
def isOwn (expectedBase : Text) (m : ModuleSource) : Bool :=
  m.isInTree || m.base? == some expectedBase

end ModuleSource

inductive Plan where
  | keep
  | rewrite (source : Text)
  /-- Writes the source with the version pinned to the latest release. -/
  | pin (source : Text) (coordinates : Coordinates) (events : List Log.Event)
  /-- The source has no coordinates. -/
  | reject (base : Text) (cause : LookupError)
deriving DecidableEq, Repr

namespace Mode

def commentedSourceEvents (b : ModuleBlock) : List Log.Event :=
  match b.source, b.commentedSource with
  | none, some commented =>
    [.debug .rewriting ("Module" ++ b.label ++ " only has a commented source (" ++ commented
      ++ "), treating it as missing")]
  | _, _ => []

def plan (mode : Mode) (b : ModuleBlock) : Plan :=
  match mode with
  | toTree expectedBase =>
    match b.reference? with
    | some m => if m.isOwn expectedBase then .rewrite (ModuleSource.treeText m.subpath) else .keep
    | none => .keep
  | toRegistry expectedBase coordinates =>
    if b.reference?.all (·.isOwn expectedBase) then
      .pin (ModuleSource.publishedText expectedBase (b.reference?.bind (·.subpath))) coordinates
        (commentedSourceEvents b)
    else .keep
  | refresh leads defaultHost =>
    match b.reference?.bind (·.base?) with
    | none => .keep
    | some base =>
      if leads.any (·.isPrefixOf base) then
        match Coordinates.ofBase defaultHost base with
        | .ok coordinates => .pin (b.source.getD []) coordinates []
        | .error cause => .reject base cause
      else .keep

end Mode

/-- Why a declaration that a mode applies to was left alone. -/
inductive Reason where
  | notPublished
  | invalidSource
  | registryError (message : Text)
deriving DecidableEq, Repr

namespace Reason

def text : Reason → Text
  | notPublished => "not published"
  | invalidSource => "invalid source"
  | registryError message => "registry error: " ++ message

def ofError (e : LookupError) : Reason :=
  match e with
  | .notFound _ => notPublished
  | .network _ | .invalidResponse _ => registryError e.message
  | .invalidSource _ => invalidSource

end Reason

structure Unresolved where
  name : Text
  line : Nat
  /-- The coordinates or the base that gave no release. -/
  target : Text
  reason : Reason
deriving DecidableEq, Repr

def Unresolved.of (b : ModuleBlock) (target : Text) (e : LookupError) : Unresolved :=
  ⟨b.name, b.startLine, target, .ofError e⟩

inductive Verdict where
  | keep
  | rewrite (source : Text) (version : Option Text)
  | unresolved (entry : Unresolved)
deriving DecidableEq, Repr

def Answer.constraint (answer : Answer) : Except LookupError Constraint := do
  let r ← answer
  match Constraint.pin r.version r.major with
  | .ok c => return c
  | .error e => throw (.invalidResponse (.malformedVersion e))

namespace Plan

def failureEvent (b : ModuleBlock) (c : Coordinates) (e : LookupError) : Log.Event :=
  let start := "Module" ++ b.label ++ " left unchanged: "
  match e with
  | .notFound _ => .warn .rewriting (start ++ c.text ++ " is not published")
  | e => .error .rewriting (start ++ "failed to resolve " ++ c.text ++ ": " ++ e.message)

def settle (b : ModuleBlock) (source : Text) (c : Coordinates) (reply : Reply) :
    Verdict × List Log.Event :=
  match reply.answer.constraint with
  | .ok k => (.rewrite source (some k.text), reply.events)
  | .error e => (.unresolved (.of b c.text e), reply.events ++ [failureEvent b c e])

def run {σ : Type} (ask : Lookup σ) (b : ModuleBlock) (s : σ) :
    Plan → (Verdict × List Log.Event) × σ
  | keep => ((.keep, []), s)
  | rewrite source => ((.rewrite source none, []), s)
  | pin source c events =>
    let (reply, s) := ask c s
    let (verdict, more) := settle b source c reply
    ((verdict, events ++ more), s)
  | reject base cause =>
    ((.unresolved (.of b base cause),
      [.warn .rewriting ("Skipping module" ++ b.label ++ ": " ++ cause.message)]), s)

end Plan

end SourceSwitch
