import SourceSwitch.Text.Basic

namespace SourceSwitch.Log

inductive Level where
  | error | warn | info | debug | trace
deriving DecidableEq, Repr

namespace Level

def name : Level → Text
  | .error => "ERROR"
  | .warn => "WARN"
  | .info => "INFO"
  | .debug => "DEBUG"
  | .trace => "TRACE"

def rank : Level → Nat
  | .error => 1
  | .warn => 2
  | .info => 3
  | .debug => 4
  | .trace => 5

end Level

inductive Origin where
  | batch | discovery | rewriting | client | cache | credentials
deriving DecidableEq, Repr

def Origin.target : Origin → Text
  | .batch => "tf_bounce::bounce::batch"
  | .discovery => "tf_bounce::bounce::discovery"
  | .rewriting => "tf_bounce::bounce::transformer"
  | .client => "tf_bounce::version::registries::terraform"
  | .cache => "tf_bounce::version::cache"
  | .credentials => "tf_bounce::version::credentials"

structure Event where
  origin : Origin
  level : Level
  message : Text
deriving DecidableEq, Repr

namespace Event

def error (origin : Origin) (message : Text) : Event := ⟨origin, .error, message⟩

def warn (origin : Origin) (message : Text) : Event := ⟨origin, .warn, message⟩

def info (origin : Origin) (message : Text) : Event := ⟨origin, .info, message⟩

def debug (origin : Origin) (message : Text) : Event := ⟨origin, .debug, message⟩

end Event

end SourceSwitch.Log
