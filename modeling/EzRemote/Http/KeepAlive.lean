import EzRemote.Http.ProcessRequest
import EzRemote.Http.SocketStream

/-!
# Requests over one connection

`detail::process_server_socket`: every request is read through a `SocketStream` of
its own, and what the last one had read ahead is gone with it.
-/

namespace EzRemote.Http

/-- `keep_alive`: the socket becomes readable, also by being closed. -/
def keepAlive (sock : Socket) : Bool := !sock.arriving.isEmpty || sock.closes

section

variable (running : Nat → Bool) (parser : MultipartParser) (payloadMaxLength : Nat)
  (peer : Headers) (write : Bool → Outcome → Bool)

/-- The requests that are answered: as many as are allowed on one connection, up to the first that
closes it or whose response cannot be written. -/
def served : Nat → List (WireRequest peer) → List (WireRequest peer)
  | 0, _ => []
  | _ + 1, [] => []
  | count + 1, r :: requests =>
    if running (count + 1) then
      r :: if write (count + 1 = 1) (r.answer payloadMaxLength) = false ∨ r.closes then []
        else served count requests
    else []

end

section

variable {running : Nat → Bool} {parser : MultipartParser} {payloadMaxLength : Nat}
  {peer : Headers} {write : Bool → Outcome → Bool}

end

end EzRemote.Http
