import Bindery.Log.Note
import Bindery.Scope.Configuration

/-!
# The scope graph

The configured scopes of a compilation with their links to parents. Nothing keeps the links from
forming a cycle, or from leading to a scope without configuration; every walk along them ends all
the same, because it stops at a scope that it has met before.
-/

namespace Bindery

/-- The configured scopes by name. -/
structure ScopeGraph where
  byName : OrderedMap ClassName ScopeConfiguration
  keyed : ∀ e ∈ byName.entries, e.2.scope = e.1

namespace ScopeGraph

def empty : ScopeGraph := ⟨.empty, fun _ h => by cases h⟩

instance : Inhabited ScopeGraph := ⟨empty⟩

def insert (g : ScopeGraph) (c : ScopeConfiguration) : ScopeGraph where
  byName := g.byName.insert c.scope c
  keyed e h := by
    rcases OrderedMap.mem_place h with rfl | h
    · rfl
    · exact g.keyed e h

/-- What the configuration annotations of a table say, in the order of the declarations. -/
def readings (t : SymbolTable) : List (Declaration × Except Fault ScopeConfiguration) :=
  t.declarations.filterMap fun d =>
    (d.annotationOf? WellKnown.scopeConfiguration).map fun a => (d, ScopeConfiguration.read d a)

def faultsOf (l : List (Declaration × Except Fault ScopeConfiguration)) : List Fault :=
  l.filterMap fun
    | (_, .error fault) => some fault
    | (_, .ok _) => none

/-- The graph of the scopes whose configuration can be read, and the faults of the others, which
count as scopes without configuration. -/
def build (t : SymbolTable) : ScopeGraph × List Fault :=
  let all := readings t
  let configured := all.filterMap fun
    | (_, .ok c) => some c
    | (_, .error _) => none
  (configured.foldl insert empty, faultsOf all)

def noteTarget : String := "sealant_kernel::scope"

def buildNotes (t : SymbolTable) : List Note :=
  (readings t).map fun
    | (_, .ok _) =>
      { level := .debug, target := noteTarget, message := "Scope configured"
        fields := ["scope", "parent"] }
    | (_, .error fault) =>
      { level := .warn, target := noteTarget, message := fault.message, fields := ["scope"] }

def configuration? (g : ScopeGraph) (s : ClassName) : Option ScopeConfiguration := g.byName.get? s

def scopes (g : ScopeGraph) : List ScopeConfiguration := g.byName.values

def size (g : ScopeGraph) : Nat := g.byName.size

def parentOf? (g : ScopeGraph) (s : ClassName) : Option ClassName :=
  (g.configuration? s).bind (·.parent)

/-- The scopes that name a scope as their parent, in the order of their names. -/
def childrenOf (g : ScopeGraph) (s : ClassName) : List ScopeConfiguration :=
  g.scopes.filter fun c => c.parent = some s

def isRoot (g : ScopeGraph) (c : ScopeConfiguration) : Bool :=
  match c.parent with
  | none => true
  | some p => (g.configuration? p).isNone

def roots (g : ScopeGraph) : List ScopeConfiguration := g.scopes.filter g.isRoot

/-- Whether a scope itself enables a feature; its ancestors do not matter. -/
def enabled (g : ScopeGraph) (s : ClassName) (f : Feature) : Bool :=
  match g.configuration? s with
  | none => false
  | some c => c.enables f

/-- The fault of a path that returns to a scope on it. -/
def cycle (path : List ClassName) : Fault :=
  Cause.scopeCycle (" -> ".intercalate (path.map ClassName.canonical))

/-- The chain of parents above the last scope of a path. The bound is met because every step but
the last leaves a configured scope for the first time. -/
def climb (g : ScopeGraph) : Nat → List ClassName → ClassName → Except Fault (List ClassName)
  | 0, path, _ => .error (cycle path)
  | bound + 1, path, s =>
    match g.parentOf? s with
    | none => .ok []
    | some p =>
      if path.contains p then .error (cycle (path ++ [p]))
      else (g.climb bound (path ++ [p]) p).map (p :: ·)

/-- The chain of parents of a scope, nearest first. -/
def ancestors (g : ScopeGraph) (s : ClassName) : Except Fault (List ClassName) :=
  g.climb (g.size + 1) [s] s

/-- The first scope above the last one of a path that itself enables a feature. -/
def search (g : ScopeGraph) (f : Feature) :
    Nat → List ClassName → ClassName → Except Fault (Option ClassName)
  | 0, path, _ => .error (cycle path)
  | bound + 1, path, s =>
    match g.parentOf? s with
    | none => .ok none
    | some p =>
      if path.contains p then .error (cycle (path ++ [p]))
      else if g.enabled p f then .ok (some p)
      else g.search f bound (path ++ [p]) p

def nearestEnabling (g : ScopeGraph) (s : ClassName) (f : Feature) :
    Except Fault (Option ClassName) :=
  g.search f (g.size + 1) [s] s

/-- Checks scopes one after the other; those met on an earlier walk need no walk of their own. -/
def validateFrom (g : ScopeGraph) (cleared : List ClassName) :
    List ClassName → Except Fault Unit
  | [] => .ok ()
  | s :: rest =>
    if cleared.contains s then g.validateFrom cleared rest
    else (g.ancestors s).bind fun chain => g.validateFrom (s :: chain ++ cleared) rest

/-- Checks that the links to parents form a forest. -/
def validate (g : ScopeGraph) : Except Fault Unit := g.validateFrom [] g.byName.keys

end ScopeGraph

end Bindery
