import Spinny.Handlers.Browse
import Spinny.Handlers.Pl
import Spinny.Handlers.Streams

/-!
# `handlers::link_up`

The registered handlers, in the order of their construction, and `handle_request` over them.
-/

namespace Handlers

open Spinny Sqlite Ews

variable [Affinity]

/-- `link_up`. -/
def linkUp : List RequestHandler := [pl, index, tree, files, login, users, info, xspf, song]

/-- `handle_request` with the handlers of `link_up`. -/
def respond (env : Env) (req : Request) : Run Unit := handleRequest linkUp env req

/-- The order in which the handlers are tried. -/
theorem inPhases_linkUp :
    inPhases linkUp = [login, users, xspf, song, pl, index, tree, info, files] := rfl

end Handlers
