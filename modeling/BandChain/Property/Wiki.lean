import BandChain.Property.Interface
import BandChain.Store.GraphCayley

/-! A server that reads HTTP and JSON, and knows the two paths, recovers each edge from its request. -/

namespace BandChain

namespace GraphServer

open Client (items member string)

/-- The parts of a quad, by the names of its members. -/
def readEdge (quad : Json.Value) : Option GraphStoreSet.Edge := do
  let part (key : ByteString) : Option ByteString := member key quad >>= string
  return { subject := ← part (ascii "subject"), predicate := ← part (ascii "predicate"), object := ← part (ascii "object"),
           label := ← part (ascii "label") }

/-- What a request asks for, if it is one quad sent to one of the two paths. -/
def receive (text : ByteString) : Option GraphStoreSet.Call := do
  let (request, _) ← Http.read text
  let edge ← readEdge (← (← items (← Json.parse request.body)).head?)
  if request.method ≠ ascii "POST" then none
  else if request.target = ascii "/api/v2/write" then return .add edge
  else if request.target = ascii "/api/v2/delete" then return .delete edge
  else none

end GraphServer

open GraphStoreCayley GraphServer

/-- The quad of an edge, with its members in the order of their names. -/
def quad (e : GraphStoreSet.Edge) : Json.Value :=
  .object [(ascii "label", .string e.label), (ascii "object", .string e.object), (ascii "predicate", .string e.predicate),
    (ascii "subject", .string e.subject)]

theorem createBodyMsg_eq (e : GraphStoreSet.Edge) :
    createBodyMsg e.subject e.predicate e.object e.label = (Json.Value.array [quad e]).dump := by
  have order (v w x y : Json.Value) :
      assignKey (ascii "label") y (assignKey (ascii "object") x (assignKey (ascii "predicate") w (assignKey (ascii "subject") v []))) =
        [(ascii "label", y), (ascii "object", x), (ascii "predicate", w), (ascii "subject", v)] := rfl
  rw [createBodyMsg, order, Json.Value.dump, Json.dumpItems]
  rfl

theorem readEdge_quad (e : GraphStoreSet.Edge) : readEdge (quad e) = some e := rfl

/-- Every edge arrives as it was sent. -/
theorem receive_callText {hostname : ByteString} (host : (13 : UInt8) ∉ hostname) (port : UInt16) (call : GraphStoreSet.Call) :
    receive (callText hostname port call) = some call := by
  have arrives {path data : ByteString} (space : (32 : UInt8) ∉ path) (line : (13 : UInt8) ∉ path) :
      Http.read (requestText hostname port path data) = some (request hostname port path data, []) := by
    have wellFormed : (request hostname port path data).WellFormed := request_wellFormed host space line
    have whole := Http.read_write wellFormed []
    rwa [List.append_nil, ← requestText_eq] at whole
  cases call with
  | add e =>
    have text : callText hostname port (.add e) = requestText hostname port (ascii "/api/v2/write") (Json.Value.array [quad e]).dump := by
      rw [callText, createBodyMsg_eq]
    rw [receive, text, arrives (by decide) (by decide)]
    simp only [request, Json.parse_dump, Option.bind_eq_bind, Option.bind_some, Client.items, List.head?_cons, readEdge_quad]
    rfl
  | delete e =>
    have text : callText hostname port (.delete e) = requestText hostname port (ascii "/api/v2/delete") (Json.Value.array [quad e]).dump := by
      rw [callText, createBodyMsg_eq]
    rw [receive, text, arrives (by decide) (by decide)]
    simp only [request, Json.parse_dump, Option.bind_eq_bind, Option.bind_some, Client.items, List.head?_cons, readEdge_quad]
    rfl

end BandChain
