import SourceSwitch.Version.Basic

namespace SourceSwitch.Version

/-- The better of a choice and a further text; an equal version does not replace the choice. -/
def choose (best : Option (Text × Version)) (raw : Text) :
    Except MalformedVersion (Option (Text × Version)) := do
  let v ← parse raw
  match best with
  | some (_, w) => return if compare v w = .gt then some (raw, v) else best
  | none => return some (raw, v)

/-- The earliest of the highest versions as it is spelt, with its numbers. One malformed entry
fails the whole list. -/
def latest? (texts : List Text) : Except MalformedVersion (Option (Text × Version)) :=
  texts.foldlM choose none

end SourceSwitch.Version
