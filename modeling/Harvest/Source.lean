import Harvest.Error

/-!
Where responses come from. A source answers a request for an address and moves on to its next state,
so that it may answer the same request otherwise the next time. While it answers, the flag that
aborts a harvest may be raised.
-/
namespace Harvest

structure Reply (σ : Type) where
  answer : Except Error String
  state : σ
  /-- Whether the abort flag was raised in the meantime. -/
  raised : Bool := false

abbrev Source (σ : Type) := String → σ → Reply σ

/-- A source in use, with the abort flag. -/
structure Session (σ : Type) where
  state : σ
  aborted : Bool

def Session.request {σ : Type} (source : Source σ) (url : String) (s : Session σ) :
    Except Error String × Session σ :=
  let reply := source url s.state
  (reply.answer, { state := reply.state, aborted := s.aborted || reply.raised })

namespace Source

/-- A source whose answer depends on the address alone. -/
def fixed (answers : String → Except Error String) : Source Unit := fun url _ =>
  { answer := answers url, state := () }

/-- A source that answers nothing. -/
def unreachable : Source Unit := fixed fun _ => .error (.retriesExhausted 3 "unreachable")

/-- The source with a list of all requests made to it, the last one first. -/
def recorded {σ : Type} (source : Source σ) : Source (List String × σ) := fun url (log, state) =>
  let reply := source url state
  { answer := reply.answer, state := (url :: log, reply.state), raised := reply.raised }

end Source
end Harvest
