import BandChain.Listener.Database
import BandChain.Net.Abci

/-! `main/bandexplorer.cc`: the application with the two listeners of its manager. -/

namespace BandChain

structure Explorer (σ δ : Type) where
  app : TendermintApplication σ := { manager := { primary := none } }
  outside : Outside δ

namespace Explorer

/-- What ends the process. -/
inductive Abort where
  | request (e : Abci.Abort)
  | listener (e : Fault)

variable {σ δ : Type} [Storage σ] [Sha256] [Memory]

/-- The listeners in the order in which they were added. -/
def tell (services : Services δ) (notice : Notice) : Exec Fault (Outside δ) Unit := do
  ExplorerListener.tell services notice
  CayleyListener.tell services notice

/-- A request, and what the manager has told its listeners during it. Nothing that leaves a listener is caught. -/
def process (services : Services δ) (req : Abci.Request) : Exec Abort (Explorer σ δ) Abci.Response := fun s =>
  match TendermintApplication.process (bandExplorer σ) req s.app with
  | (.error e, app) => (.error (.request e), { s with app })
  | (.ok res, app) =>
    match (app.manager.notices.drop s.app.manager.notices.length).forM (tell services) s.outside with
    | (.error e, outside) => (.error (.listener e), { app, outside })
    | (.ok _, outside) => (.ok res, { app, outside })

/-- Requests one after the other, up to one that ends the process. -/
def processAll (services : Services δ) : List Abci.Request → Exec Abort (Explorer σ δ) (List Abci.Response)
  | [] => return []
  | req :: reqs => do
    let res ← process services req
    return res :: (← processAll services reqs)

end Explorer

end BandChain
