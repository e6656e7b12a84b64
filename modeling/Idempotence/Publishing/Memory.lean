/-
  A sink in memory, which keeps every delivery.
-/
import Idempotence.Publishing.Publisher

namespace Idempotence

/-- **The deliveries** so far; a message that was sent alone is a delivery of its own. -/
abbrev Deliveries := List (List Message)

/-- **A sink that keeps what it gets.** -/
def Sink.memory {ε : Type} (part : Part ε Deliveries) : Sink ε where
  send m := do
    Action.change part (· ++ [[m]])
    return .ok ()
  sendAll messages := do
    Action.change part (· ++ [messages])
    return .ok ()

end Idempotence
