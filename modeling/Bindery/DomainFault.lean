/-!
# Words that do not read

Two kinds of words come from users: class names and feature names.
-/

namespace Bindery

/-- A word of the input that denotes nothing. -/
inductive DomainFault where
  | invalidClassName (name message : String)
  | unknownFeature (message : String)
  deriving DecidableEq, Repr

namespace DomainFault

def kind : DomainFault → String
  | invalidClassName .. => "InvalidClassName"
  | unknownFeature .. => "UnknownFeature"

def message : DomainFault → String
  | invalidClassName name message => s!"Invalid class name '{name}': {message}"
  | unknownFeature message => s!"Unknown feature: {message}"

def declaration? : DomainFault → Option String
  | invalidClassName name _ => some name
  | unknownFeature _ => none

end DomainFault

end Bindery
