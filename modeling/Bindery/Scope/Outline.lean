import Bindery.Scope.Graph

/-!
# The outline of a scope graph

The forest of scopes as lines: every scope that hangs below a root stands once, inside the block of
its parent, and siblings stand in the order of their names.
-/

namespace Bindery

/-- A line of the outline: a scope and how many configured scopes are above it. -/
structure OutlineLine where
  depth : Nat
  scope : ScopeConfiguration
  deriving DecidableEq

namespace OutlineLine

def indent : Nat → String
  | 0 => ""
  | depth + 1 => "  " ++ indent depth

/-- The line with the features that the scope itself enables. -/
def text (l : OutlineLine) : String :=
  indent l.depth ++ l.scope.scope.canonical ++ " [" ++
    ", ".intercalate (l.scope.features.toList.map Feature.name) ++ "]"

end OutlineLine

namespace ScopeGraph

/-- The block of a scope. Every level of the recursion leaves a configured scope behind that is not
met again, so the number of these bounds the levels. -/
def block (g : ScopeGraph) : Nat → Nat → ScopeConfiguration → List OutlineLine
  | 0, _, _ => []
  | bound + 1, depth, c =>
    ⟨depth, c⟩ :: (g.childrenOf c.scope).flatMap (g.block bound (depth + 1))

/-- The blocks of all roots. -/
def outline (g : ScopeGraph) : List OutlineLine := g.roots.flatMap (g.block g.size 0)

end ScopeGraph

end Bindery
