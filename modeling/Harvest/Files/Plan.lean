import Harvest.Files.Tree

/-!
Plans of file operations. What a plan does after an operation depends on how the operation ended. A
plan says nothing about what happens in between, so that it can be followed step by step.
-/
namespace Harvest.Files

inductive Action where
  | makeDirectory (p : Path)
  | checkDirectory (p : Path)
  | create (p : Path)
  | write (p : Path) (content : String)
  /-- Waits until the content of a file is safe. -/
  | sync (p : Path)
  | rename (source target : Path)
deriving DecidableEq, Repr

def Tree.perform (t : Tree) : Action → Except IoError Tree
  | .makeDirectory p => t.makeDirectory p
  | .checkDirectory p => t.checkDirectory p
  | .create p => t.create p
  | .write p content => t.write p content
  | .sync _ => .ok t
  | .rename source target => t.rename source target

inductive Plan where
  | finish (result : Except IoError Unit)
  | perform (a : Action) (next : Except IoError Unit → Plan)

namespace Plan

/-- An action that must succeed for the plan to go on. -/
def require (a : Action) (next : Plan) : Plan :=
  .perform a fun
    | .ok () => next
    | .error e => .finish (.error e)

/-- Goes on if there is a directory, and fails with an earlier error if not. -/
def requireDirectory (p : Path) (e : IoError) (next : Plan) : Plan :=
  .perform (.checkDirectory p) fun
    | .ok () => next
    | .error _ => .finish (.error e)

/-- Makes a directory and those above it, given by the names up from it, unless they are there. -/
def makeDirectories : List String → Plan → Plan
  | [], next => next
  | name :: above, next =>
    let here : Path := { parts := (name :: above).reverse, slashed := false }
    .perform (.makeDirectory here) fun
      | .ok () => next
      | .error e =>
        if e = .notFound then
          makeDirectories above (.perform (.makeDirectory here) fun
            | .ok () => next
            | .error e => requireDirectory here e next)
        else requireDirectory here e next

/-- The result of a plan and the tree it leaves. -/
def run : Plan → Tree → Except IoError Unit × Tree
  | .finish result, t => (result, t)
  | .perform a next, t =>
    match t.perform a with
    | .ok t => run (next (.ok ())) t
    | .error e => run (next (.error e)) t

end Plan
end Harvest.Files
