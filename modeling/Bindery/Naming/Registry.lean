import Bindery.ClassName
import Bindery.Fault
import Bindery.OrderedMap

/-!
# Claimed names

Two generators may derive the same name. The registry holds the names that a run has claimed, with
the generator and the declaration that claimed each, and refuses a second claim.
-/

namespace Bindery

/-- Who claimed a name, and for which declaration. -/
structure Claim where
  generator : String
  origin : String
  deriving DecidableEq

abbrev NameRegistry := OrderedMap ClassName Claim

namespace NameRegistry

def claim (r : NameRegistry) (name : ClassName) (c : Claim) : Except Fault NameRegistry :=
  match r.get? name with
  | some first => .error (Cause.nameCollision name.canonical
      ("claimed by " ++ first.generator ++ " for " ++ first.origin ++ " and again by " ++
        c.generator ++ " for " ++ c.origin))
  | none => .ok (r.insert name c)

end NameRegistry

end Bindery
