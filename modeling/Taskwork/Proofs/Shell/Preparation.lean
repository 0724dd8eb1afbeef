/-
Simple commands. Before it is run a simple command is prepared: its words are expanded, its assignments
evaluated and its streams redirected, in this order. What it does from then on is decided by what came of that.
-/
import Taskwork.Proofs.Stateful
import Taskwork.Shell.Interpreter

namespace Taskwork.Shell

/-- What is had of a simple command before it is run. -/
structure Prepared where
  arguments : List String
  assigned : List (String × String)
  streams : Except (String × FileFault) Streams

namespace Run

variable (h : Handlers) (streams : Streams)

/-- Everything that is done of a simple command before it is run. -/
def preparation (assigns : List Assign) (words : List Word) (redirects : List Redirect) : Act Prepared := do
  let arguments ← fields h words
  let assigned ← values h assigns
  let redirected ← redirections h streams redirects
  return ⟨arguments, assigned, redirected⟩

theorem command_simple (assigns : List Assign) (words : List Word) (redirects : List Redirect) :
    command h streams (.simple assigns words redirects) =
      preparation h streams assigns words redirects >>= fun prepared =>
        Act.withStreams streams prepared.streams (Act.perform h prepared.arguments prepared.assigned) := by
  rw [command, preparation]
  simp only [bind_assoc, pure_bind]

/-- A command whose redirections open goes on with the streams that they lead to. -/
theorem command_of_preparation {h : Handlers} {streams streams' : Streams} {assigns : List Assign}
    {words : List Word} {redirects : List Redirect} {arguments : List String} {assigned : List (String × String)}
    {w w' : World}
    (hprepared : preparation h streams assigns words redirects w = (.ok ⟨arguments, assigned, .ok streams'⟩, w')) :
    command h streams (.simple assigns words redirects) w = Act.perform h arguments assigned streams' w' := by
  rw [command_simple, Stateful.bind_ok hprepared]
  rfl

end Run
end Taskwork.Shell
