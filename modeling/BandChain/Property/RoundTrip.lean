import BandChain.Listener.Explorer

/-! What is read back as it was written: messages and responses, and rows of the explorer, which are written in UTC and read in the
local zone. -/

namespace BandChain

/-! ### Messages -/

theorem format_round_trip {msg : Msg} (whole : msg.Intact) (res : Response) (rest : ByteString) :
    Msg.read msg.type (msg.write ++ rest) = (.ok msg, rest) ∧ Response.read res.type (res.write ++ rest) = (.ok res, rest) :=
  ⟨Msg.read_write whole rest, Response.read_write res rest⟩

/-- A token over itself with the curve `300 * x ^ 2`. -/
def squareToken : Msg :=
  .createToken
    { baseToken := ⟨ascii "sq", by decide +kernel⟩
      createdToken := ⟨ascii "sq", by decide +kernel⟩
      curve := ⟨some (.binary .mul (.constant 300) (.binary .exp .var (.constant 2)))⟩ }

theorem format_round_trip_square :
    Msg.read .createToken (squareToken.write ++ [0xff]) = (.ok squareToken, [0xff]) ∧
      Response.read .sellToken (Response.write (.sellToken ⟨default, 300⟩) ++ [0xff]) = (.ok (.sellToken ⟨default, 300⟩), [0xff]) :=
  format_round_trip (show squareToken.Intact from rfl) (.sellToken ⟨default, 300⟩) [0xff]

/-! ### Rows -/

/-- A null reads as the empty identifier that it was written for. -/
theorem validate_getD {maxLength : Nat} {letterCase : StringCase} (s : Str maxLength letterCase) :
    Str.validate ((if s.rawdata.isEmpty then none else some s.rawdata).getD []) = .ok s := by
  by_cases empty : s.rawdata.isEmpty = true
  · rw [if_pos empty, Option.getD_none, ← List.isEmpty_iff.mp empty]
    exact Str.validate_rawdata s
  · rw [if_neg empty]
    exact Str.validate_rawdata s

/-- A row reads back with another time of creation at most. -/
theorem fromBase_toBase (zone : TimeZone) (tx : TokenTransaction) :
    TokenTransaction.fromBase zone tx.toBase =
      .ok { tx with createdAt := UInt64.ofInt (mktime zone (gmtime tx.createdAt.toInt64.toInt)) } := by
  simp only [TokenTransaction.fromBase, TokenTransaction.toBase, validate_getD, Str.validate_rawdata, ofString_str, hex_toString, bind,
    Except.bind, pure, Except.pure]

theorem toInt64_of_lt {n : UInt64} (small : n.toNat < 2 ^ 63) : n.toInt64.toInt = n.toNat := by
  have bound : 2 * n.toBitVec.toNat < 2 ^ 64 := by
    rw [UInt64.toNat_toBitVec]
    omega
  exact BitVec.toInt_eq_toNat_of_lt bound

theorem toNat_ofInt (i : Int) : ((UInt64.ofInt i).toNat : Int) = i % 2 ^ 64 := by
  rw [UInt64.ofInt, UInt64.toNat_ofNat']
  omega

/-- No time that `mktime` can return but the right one reads as a time of creation, neither -1 nor a negative one. -/
theorem ofInt_mktime {zone : TimeZone} {n : UInt64} (small : n.toNat < 2 ^ 63) :
    UInt64.ofInt (mktime zone (gmtime n.toNat)) = n ↔ zone.offset (gmtime n.toNat) = 0 := by
  rw [← UInt64.toNat_inj, ← Int.ofNat_inj, toNat_ofInt, mktime, time_gmtime]
  show (if -2 ^ 63 ≤ (n.toNat : Int) - zone.offset (gmtime n.toNat) ∧ (n.toNat : Int) - zone.offset (gmtime n.toNat) < 2 ^ 63 then
    (n.toNat : Int) - zone.offset (gmtime n.toNat) else -1) % 2 ^ 64 = n.toNat ↔ _
  split
  · omega
  · omega

/-- A row reads back as it was written if and only if the local zone takes the time of creation for a time in UTC. -/
theorem row_round_trip_iff (zone : TimeZone) {tx : TokenTransaction} (representable : tx.createdAt.toNat < 2 ^ 63) :
    TokenTransaction.fromBase zone tx.toBase = .ok tx ↔ zone.offset (gmtime tx.createdAt.toNat) = 0 := by
  rw [fromBase_toBase, toInt64_of_lt representable, ← ofInt_mktime representable]
  constructor
  · intro same
    exact congrArg TokenTransaction.createdAt (Except.ok.inj same)
  · intro same
    rw [same]

/-- Indochina time, seven hours ahead of UTC the whole year. -/
def TimeZone.indochina : TimeZone where
  offset := fun _ => 25200

def newYearRow : TokenTransaction where
  srcUserID := ⟨ascii "alice", by decide +kernel⟩
  dstUserID := ⟨ascii "bob", by decide +kernel⟩
  tokenID := ⟨ascii "band", by decide +kernel⟩
  value := 250
  txType := ascii "transfer"
  txHash := ⟨List.replicate 32 0x7f, List.length_replicate⟩
  createdAt := 1546300800
  blockNo := 1

theorem row_round_trip_newYearRow : TokenTransaction.fromBase ⟨fun _ => 0⟩ newYearRow.toBase = .ok newYearRow :=
  (row_round_trip_iff ⟨fun _ => 0⟩ (by decide)).mpr rfl

theorem row_drifts : ¬ ∀ (zone : TimeZone) (tx : TokenTransaction), tx.createdAt.toNat < 2 ^ 63 →
    TokenTransaction.fromBase zone tx.toBase = .ok tx := by
  intro every
  have same := every .indochina newYearRow (by decide)
  rw [fromBase_toBase] at same
  have times := congrArg TokenTransaction.createdAt (Except.ok.inj same)
  exact absurd times (by decide)

end BandChain
