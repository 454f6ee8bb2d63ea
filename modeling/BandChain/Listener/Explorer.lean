import BandChain.Lib.Calendar
import BandChain.Listener.Manager
import BandChain.Util.Digits

/-! `listener/explorer.cc`: the rows that are inserted for a transaction, and how a row is written and read. -/

namespace BandChain

structure TokenTransaction where
  srcUserID : Ident
  dstUserID : Ident
  tokenID : Ident
  value : UInt256 := 0
  txType : ByteString
  txHash : Hash
  createdAt : UInt64 := 0
  blockNo : UInt64 := 0
  deriving DecidableEq

namespace ExplorerListener

def handleMintToken (blk : BlockMsg) (hdr : HeaderMsg) (msg : MintTokenMsg) : List TokenTransaction :=
  [{ srcUserID := default, dstUserID := hdr.user, tokenID := msg.token, value := msg.value, txType := ascii "mint",
     txHash := hdr.hash, createdAt := blk.timestamp, blockNo := blk.height }]

def handleTransferToken (blk : BlockMsg) (hdr : HeaderMsg) (msg : TransferTokenMsg) : List TokenTransaction :=
  [{ srcUserID := hdr.user, dstUserID := msg.dest, tokenID := msg.token, value := msg.value, txType := ascii "transfer",
     txHash := hdr.hash, createdAt := blk.timestamp, blockNo := blk.height }]

def handleBuyToken (blk : BlockMsg) (hdr : HeaderMsg) (msg : BuyTokenMsg) (res : BuyTokenResponse) : List TokenTransaction :=
  [{ srcUserID := hdr.user, dstUserID := default, tokenID := res.baseToken, value := res.spent, txType := ascii "buy",
     txHash := hdr.hash, createdAt := blk.timestamp, blockNo := blk.height },
   { srcUserID := default, dstUserID := hdr.user, tokenID := msg.token, value := msg.value, txType := ascii "buy",
     txHash := hdr.hash, createdAt := blk.timestamp, blockNo := blk.height }]

def handleSellToken (blk : BlockMsg) (hdr : HeaderMsg) (msg : SellTokenMsg) (res : SellTokenResponse) : List TokenTransaction :=
  [{ srcUserID := hdr.user, dstUserID := default, tokenID := msg.token, value := msg.value, txType := ascii "sell",
     txHash := hdr.hash, createdAt := blk.timestamp, blockNo := blk.height },
   { srcUserID := default, dstUserID := hdr.user, tokenID := res.baseToken, value := res.received, txType := ascii "sell",
     txHash := hdr.hash, createdAt := blk.timestamp, blockNo := blk.height }]

/-- The rows for what a listener is told. The manager pairs a message with the response of its own type. -/
def rows : Notice → List TokenTransaction
  | .handle blk hdr (.mintToken msg) _ => handleMintToken blk hdr msg
  | .handle blk hdr (.transferToken msg) _ => handleTransferToken blk hdr msg
  | .handle blk hdr (.buyToken msg) (.buyToken res) => handleBuyToken blk hdr msg res
  | .handle blk hdr (.sellToken msg) (.sellToken res) => handleSellToken blk hdr msg res
  | .handle _ _ _ _ | .init _ | .begin _ | .commit _ => []

end ExplorerListener

/-! ### Broken-down time -/

/-- The fields of `std::tm` that `mktime` reads. -/
structure Tm where
  sec : Int
  min : Int
  hour : Int
  mday : Int
  mon : Int
  year : Int
  isdst : Int
  deriving DecidableEq

/-- `gmtime_r`, with years without bound. -/
def gmtime (time : Int) : Tm :=
  let (year, month, day) := Calendar.dateOfDays (time / 86400)
  { sec := time % 60
    min := time / 60 % 60
    hour := time / 3600 % 24
    mday := day
    mon := month - 1
    year := year - 1900
    isdst := 0 }

/-- The time of which it is the break-down in UTC. -/
def Tm.time (tm : Tm) : Int :=
  Calendar.daysOfDate (tm.year + 1900) (tm.mon + 1) tm.mday * 86400 + tm.hour * 3600 + tm.min * 60 + tm.sec

/-- The zone a process runs in: how many seconds its clocks are ahead of UTC when they show a time. -/
structure TimeZone where
  offset : Tm → Int

def mktime (zone : TimeZone) (tm : Tm) : Int :=
  let time := tm.time - zone.offset tm
  if -2 ^ 63 ≤ time ∧ time < 2 ^ 63 then time else -1

theorem time_gmtime (time : Int) : (gmtime time).time = time := by
  have days := Calendar.daysOfDate_dateOfDays (time / 86400)
  simp only [gmtime, Tm.time, Int.sub_add_cancel, days]
  omega

/-! ### Rows -/

/-- A row as it is handed to the database, with `none` for a null. -/
structure Values where
  srcUserID : Option ByteString
  dstUserID : Option ByteString
  tokenID : ByteString
  value : ByteString
  txType : ByteString
  txHash : ByteString
  createdAt : Tm
  blockNo : UInt64

namespace TokenTransaction

/-- An empty identifier becomes a null. -/
def toBase (tx : TokenTransaction) : Values where
  srcUserID := if tx.srcUserID.rawdata.isEmpty then none else some tx.srcUserID.rawdata
  dstUserID := if tx.dstUserID.rawdata.isEmpty then none else some tx.dstUserID.rawdata
  tokenID := tx.tokenID.rawdata
  value := tx.value.str
  txType := tx.txType
  txHash := tx.txHash.toString
  createdAt := gmtime tx.createdAt.toInt64.toInt
  blockNo := tx.blockNo

def fromBase (zone : TimeZone) (v : Values) : Except Stop TokenTransaction := do
  let srcUserID ← Str.validate (v.srcUserID.getD [])
  let dstUserID ← Str.validate (v.dstUserID.getD [])
  let tokenID ← Str.validate v.tokenID
  let value ← UInt256.ofString v.value
  let txHash ← Bytes.hex 32 v.txHash
  return { srcUserID, dstUserID, tokenID, value, txType := v.txType, txHash, createdAt := UInt64.ofInt (mktime zone v.createdAt),
           blockNo := v.blockNo }

end TokenTransaction

end BandChain
