import Harvest.Source

/-!
Responses kept by their addresses. A response that is kept is not asked for again, failures are not
kept. Looking up and storing are separate steps, between which others may use the cache.
-/
namespace Harvest

structure Cache where
  entries : List (String × String) := []
deriving DecidableEq, Repr

namespace Cache

def lookUp (c : Cache) (url : String) : Option String := c.entries.lookup url

def store (c : Cache) (url body : String) : Cache :=
  ⟨(url, body) :: c.entries.filter fun entry => entry.1 != url⟩

def clear (_ : Cache) : Cache := {}

def size (c : Cache) : Nat := c.entries.length

def isEmpty (c : Cache) : Bool := c.entries.isEmpty

/-- What is kept after an answer to a request. -/
def keep (c : Cache) (url : String) : Except Error String → Cache
  | .ok body => c.store url body
  | .error _ => c

/-- The source behind a cache. -/
def inFront {σ : Type} (source : Source σ) : Source (Cache × σ) := fun url (c, state) =>
  match c.lookUp url with
  | some body => { answer := .ok body, state := (c, state) }
  | none =>
    let reply := source url state
    { answer := reply.answer, state := (c.keep url reply.answer, reply.state),
      raised := reply.raised }

end Cache
end Harvest
