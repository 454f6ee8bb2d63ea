import BandChain.Lib.Http
import BandChain.Listener.Abi
import BandChain.Store.GraphSet

/-! `store/graph_cayley.cc`: the requests by which a graph server is told of an edge. -/

namespace BandChain

namespace GraphStoreCayley

def createBodyMsg (subject predicate object label : ByteString) : ByteString :=
  let j := assignKey (ascii "subject") (.string subject) []
  let j := assignKey (ascii "predicate") (.string predicate) j
  let j := assignKey (ascii "object") (.string object) j
  let j := assignKey (ascii "label") (.string label) j
  ascii "[" ++ (Json.Value.object j).dump ++ ascii "]"

/-- What `send_request_and_get_response` writes to its socket. -/
def requestText (hostname : ByteString) (port : UInt16) (path data : ByteString) : ByteString :=
  ascii "POST " ++ path ++ ascii " HTTP/1.1\r\n" ++
  ascii "Host: " ++ hostname ++ ascii ":" ++ Json.digits port.toNat ++ ascii "\r\n" ++
  ascii "Content-Type: application/json\r\n" ++
  ascii "accept: application/json\r\n" ++
  ascii "Content-Length: " ++ Json.digits data.length ++ ascii "\r\n" ++
  ascii "Connection: close\r\n\r\n" ++
  data

/-- The request of `add_edge` or `delete_edge`. -/
def callText (hostname : ByteString) (port : UInt16) : GraphStoreSet.Call → ByteString
  | .add e => requestText hostname port (ascii "/api/v2/write") (createBodyMsg e.subject e.predicate e.object e.label)
  | .delete e => requestText hostname port (ascii "/api/v2/delete") (createBodyMsg e.subject e.predicate e.object e.label)

/-! ### The requests as requests of HTTP -/

def request (hostname : ByteString) (port : UInt16) (path data : ByteString) : Http.Request where
  method := ascii "POST"
  target := path
  headers :=
    [(ascii "Host", hostname ++ ascii ":" ++ Json.digits port.toNat), (ascii "Content-Type", ascii "application/json"),
     (ascii "accept", ascii "application/json"), (Http.contentLength, Json.digits data.length), (ascii "Connection", ascii "close")]
  body := data

variable {hostname path data : ByteString} {port : UInt16}

theorem requestText_eq : requestText hostname port path data = (request hostname port path data).write := by
  have texts : ascii " HTTP/1.1\r\n" = 32 :: (Http.version ++ Http.crlf) ∧ ascii "POST " = ascii "POST" ++ [32] ∧
      ascii "Host: " = ascii "Host" ++ [58, 32] ∧ ascii "\r\n" = Http.crlf ∧
      ascii "Content-Type: application/json\r\n" = ascii "Content-Type" ++ [58, 32] ++ ascii "application/json" ++ Http.crlf ∧
      ascii "accept: application/json\r\n" = ascii "accept" ++ [58, 32] ++ ascii "application/json" ++ Http.crlf ∧
      ascii "Content-Length: " = Http.contentLength ++ [58, 32] ∧
      ascii "Connection: close\r\n\r\n" = ascii "Connection" ++ [58, 32] ++ ascii "close" ++ Http.crlf ++ Http.crlf := by decide
  obtain ⟨version, post, host, line, type, accept, length, close⟩ := texts
  rw [requestText, version, post, host, line, type, accept, length, close]
  simp only [request, Http.Request.write, Http.Request.start, Http.field, List.map_cons, List.map_nil, List.flatten_cons,
    List.flatten_nil, List.append_assoc, List.cons_append, List.nil_append]

theorem digits_clear (n : Nat) : (13 : UInt8) ∉ Json.digits n := by
  intro mem
  obtain ⟨c, decimal, same⟩ := List.mem_map.mp mem
  have digit := (Json.digitByte (Nat.isDigit_of_mem_toDigits (by decide) (by decide) decimal)).2
  rw [same] at digit
  exact absurd digit (by decide)

theorem request_wellFormed (host : (13 : UInt8) ∉ hostname) (space : (32 : UInt8) ∉ path) (line : (13 : UInt8) ∉ path) :
    (request hostname port path data).WellFormed where
  method := by
    have post : (32 : UInt8) ∉ ascii "POST" ∧ (13 : UInt8) ∉ ascii "POST" := by decide
    exact post
  target := ⟨space, line⟩
  names := by
    have names : ∀ name ∈ [ascii "Host", ascii "Content-Type", ascii "accept", Http.contentLength, ascii "Connection"],
        (58 : UInt8) ∉ name ∧ (13 : UInt8) ∉ name := by decide
    intro header mem
    exact names header.1 (List.mem_map_of_mem (f := Prod.fst) mem)
  values := by
    have colon : (13 : UInt8) ∉ ascii ":" ∧ (13 : UInt8) ∉ ascii "application/json" ∧ (13 : UInt8) ∉ ascii "close" := by decide
    obtain ⟨colon, json, close⟩ := colon
    simp only [request, List.forall_mem_cons, List.not_mem_nil, false_imp_iff, implies_true, and_true, List.mem_append, not_or]
    exact ⟨⟨⟨host, colon⟩, digits_clear _⟩, json, json, digits_clear _, close⟩
  length := by
    have others : (Http.contentLength == ascii "Host") = false ∧ (Http.contentLength == ascii "Content-Type") = false ∧
        (Http.contentLength == ascii "accept") = false := by decide
    obtain ⟨host, type, accept⟩ := others
    simp only [request, List.lookup_cons, host, type, accept, beq_self_eq_true]

end GraphStoreCayley

end BandChain
