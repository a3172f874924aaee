import TypedModels.Model.Instance
import TypedModels.Model.Operation

/-!
# Workspaces

A workspace is a catalog together with the cache that computations over it have filled so far.

## Main definitions

* `Workspace` : models and their compiled forms.
* `Workspace.register` : adds a model and keeps the cache.
* `Workspace.enroll` : registration as a change of a workspace in place.
* `Workspace.run` : runs a session and keeps what it filled.
-/

namespace TypedModels

structure Workspace where
  catalog : Catalog := {}
  cache : Cache := []

namespace Workspace

def size (w : Workspace) : Nat := w.catalog.models.length

/-- Adds a model, unless its name is taken. -/
def register (w : Workspace) (m : Model) : Except ConfigError Workspace := do
  return { w with catalog := ← w.catalog.register m }

/-- Registers a model in place. A model whose name is taken is rejected. -/
def enroll (n : Model) : ExceptT ConfigError (StateM Workspace) PUnit := do
  match (← get).register n with
  | .ok w => set w
  | .error e => throw e

theorem run_enroll (w : Workspace) (n : Model) :
    (enroll n).run w =
      match w.register n with
      | .ok w' => (.ok ⟨⟩, w')
      | .error e => (.error e, w) := by
  have step : (enroll n).run w = (match w.register n with
    | .ok w' => set w'
    | .error e => throw e : ExceptT ConfigError (StateM Workspace) PUnit).run w := rfl
  rw [step]
  cases w.register n <;> rfl

/-- Runs a session. What it filled stays, whether it fails or not. -/
def run {ε α : Type} (w : Workspace) (session : Catalog → Session ε α) : Except ε α × Workspace :=
  let (result, cache) := (session w.catalog).run w.cache
  (result, { w with cache })

def isCompiled (w : Workspace) (name : String) : Bool := (w.cache.lookup name).isSome

/-- The names of the compiled models in order of registration. -/
def compiledNames (w : Workspace) : List String := w.catalog.names.filter w.isCompiled

end Workspace

end TypedModels
