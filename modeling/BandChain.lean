import BandChain.Contract.Ledger
import BandChain.Property.Accounting
import BandChain.Property.Atomicity
import BandChain.Property.Isolation
import BandChain.Property.Nonce
import BandChain.Property.Rejection
import BandChain.Property.FiniteSet
import BandChain.Property.Balance
import BandChain.Property.Blocks
import BandChain.Property.Replay
import BandChain.Property.Answers
import BandChain.Property.Framing
import BandChain.Property.Edges
import BandChain.Property.Existence
import BandChain.Property.Varints
import BandChain.Property.Curves
import BandChain.Property.Cache
import BandChain.Property.Selection
import BandChain.Property.Vectors
import BandChain.Property.Persistence
import BandChain.Property.Rows
import BandChain.Property.RoundTrip
import BandChain.Property.Paths
import BandChain.Property.Solvency
import BandChain.Property.Grounds
import BandChain.Property.Ownership
import BandChain.Property.Connections
import BandChain.Listener.Abi
import BandChain.Net.Abci
import BandChain.Property.Interface
import BandChain.Property.Genesis
import BandChain.Property.Requests
import BandChain.Property.Replicas
import BandChain.Property.Mempool
import BandChain.Property.Explorer
import BandChain.Property.Chain
import BandChain.Property.Orders
import BandChain.Property.Signatures
