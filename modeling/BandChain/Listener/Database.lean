import BandChain.Lib.Transaction
import BandChain.Listener.Explorer
import BandChain.Store.GraphCayley

/-!
`listener/explorer.cc` and `listener/cayley.cc` at work: the session of the database that the rows go to, and the
requests that the graph server is sent.
-/

namespace BandChain

open Transaction (Database Op)

/-- The database, whether `tx` holds a transaction of it, and the requests that were written whole to the sockets of the graph server. -/
structure Outside (δ : Type) where
  database : δ
  tx : Bool := false
  sent : List ByteString := []

/-- How far a request to the graph server gets. -/
inductive Delivery where
  /-- It is not written, or not all of it. -/
  | unsent
  /-- It is written, and no answer is read, or one that is not 200. -/
  | unanswered
  | answered

/-- A database, and what becomes of a request after those that were sent before. -/
structure Services (δ : Type) where
  database : Database Values δ
  deliver : List ByteString → ByteString → Delivery

/-- What leaves a listener. -/
inductive Fault where
  /-- A call through the empty `tx`. -/
  | noTransaction
  /-- `soci_error` -/
  | refused
  /-- "Failed in reading response", "Invalid response", "Response returned with status code {}", or what the sockets throw -/
  | unanswered

variable {δ : Type}

def Services.execute (services : Services δ) (op : Op Values) : Exec Fault (Outside δ) Unit := fun out =>
  match services.database.execute op out.database with
  | (true, database) => (.ok (), { out with database })
  | (false, database) => (.error .refused, { out with database })

/-- `send_request_and_get_response`. -/
def Services.request (services : Services δ) (text : ByteString) : Exec Fault (Outside δ) Unit := fun out =>
  match services.deliver out.sent text with
  | .unsent => (.error .unanswered, out)
  | .unanswered => (.error .unanswered, { out with sent := out.sent ++ [text] })
  | .answered => (.ok (), { out with sent := out.sent ++ [text] })

namespace ExplorerListener

/-- `tx.reset()` with a transaction that was not committed: its destructor rolls back, and swallows an exception. -/
def resetTx (services : Services δ) : Exec Fault (Outside δ) Unit := Exec.modify fun out =>
  if out.tx then { out with database := (services.database.execute .rollback out.database).2, tx := false } else out

def begin (services : Services δ) : Exec Fault (Outside δ) Unit := do
  resetTx services
  services.execute .begin
  Exec.modify fun out => { out with tx := true }

def commit (services : Services δ) : Exec Fault (Outside δ) Unit := do
  if (← Exec.get).tx then
    services.execute .commit
    Exec.modify fun out => { out with tx := false }
  else Exec.stop .noTransaction

def tell (services : Services δ) : Notice → Exec Fault (Outside δ) Unit
  | .init _ => return ()
  | .begin _ => begin services
  | .commit _ => commit services
  | .handle blk hdr msg res => (rows (.handle blk hdr msg res)).forM fun row => services.execute (.insert row.toBase)

end ExplorerListener

namespace CayleyListener

def handleAddWikiEdge (msg : WikiEdgeMsg) : GraphStoreSet.Call :=
  .add { subject := msg.subject.rawdata, predicate := msg.predicate.rawdata, object := msg.object.rawdata, label := msg.label.rawdata }

def handleRemoveWikiEdge (msg : WikiEdgeMsg) : GraphStoreSet.Call :=
  .delete { subject := msg.subject.rawdata, predicate := msg.predicate.rawdata, object := msg.object.rawdata, label := msg.label.rawdata }

/-- An edge is sent when its message is executed, in a block or not. -/
def calls : Notice → List GraphStoreSet.Call
  | .handle _ _ (.addWikiEdge msg) _ => [handleAddWikiEdge msg]
  | .handle _ _ (.removeWikiEdge msg) _ => [handleRemoveWikiEdge msg]
  | .handle _ _ _ _ | .init _ | .begin _ | .commit _ => []

/-- The graph server of `main/bandexplorer.cc`. -/
def text (call : GraphStoreSet.Call) : ByteString := GraphStoreCayley.callText (ascii "localhost") 64210 call

def tell (services : Services δ) (notice : Notice) : Exec Fault (Outside δ) Unit :=
  (calls notice).forM fun call => services.request (text call)

end CayleyListener

end BandChain
