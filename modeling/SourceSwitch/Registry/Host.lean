import SourceSwitch.Text.Basic

namespace SourceSwitch.Host

def default : Text := "registry.terraform.io"

def withoutScheme (t : Text) : Text :=
  (Text.after? "https://" t <|> Text.after? "http://" t).getD t

/-- Without blanks, scheme and final slashes; nothing left means the public registry. -/
def normalize (t : Text) : Text :=
  (Text.nonempty? (Text.stripEnd '/' (withoutScheme (Text.trim t)))).getD default

theorem normalize_ne_nil (host : Text) : normalize host ≠ [] := by
  unfold normalize
  cases h : Text.nonempty? (Text.stripEnd '/' (withoutScheme (Text.trim host))) with
  | none => decide
  | some t => exact (Text.nonempty?_eq_some_iff.mp h).2

/-- `TF_TOKEN_` and the host, a dash written as two underscores and a dot as one. -/
def tokenVariable (host : Text) : Text :=
  "TF_TOKEN_" ++ Text.replace '.' "_" (Text.replace '-' "__" host)

end SourceSwitch.Host
