import BandChain.Listener.Books
import BandChain.Listener.Explorer
import BandChain.Property.Accounting

/-! The rows of the explorer against the balances of the token contracts. -/

namespace BandChain

/-- The sum of the values that went to `w`. -/
def received (t w : Ident) (rows : List TokenTransaction) : Nat :=
  ((rows.filter fun row => row.tokenID = t ∧ row.dstUserID = w).map fun row => row.value.val).sum

/-- The sum of the values that came from `w`. -/
def sent (t w : Ident) (rows : List TokenTransaction) : Nat :=
  ((rows.filter fun row => row.tokenID = t ∧ row.srcUserID = w).map fun row => row.value.val).sum

section

variable {t w : Ident}

theorem received_append (rows more : List TokenTransaction) : received t w (rows ++ more) = received t w rows + received t w more := by
  simp [received]

theorem sent_append (rows more : List TokenTransaction) : sent t w (rows ++ more) = sent t w rows + sent t w more := by
  simp [sent]

theorem received_cons (row : TokenTransaction) (rows : List TokenTransaction) :
    (received t w (row :: rows) : ℤ) = (if row.tokenID = t ∧ row.dstUserID = w then (row.value.val : ℤ) else 0) + received t w rows := by
  unfold received
  rw [List.filter_cons]
  by_cases same : row.tokenID = t ∧ row.dstUserID = w
  · rw [if_pos (decide_eq_true same), if_pos same, List.map_cons, List.sum_cons]
    push_cast
    rfl
  · rw [if_neg (by simpa using same), if_neg same, zero_add]

theorem sent_cons (row : TokenTransaction) (rows : List TokenTransaction) :
    (sent t w (row :: rows) : ℤ) = (if row.tokenID = t ∧ row.srcUserID = w then (row.value.val : ℤ) else 0) + sent t w rows := by
  unfold sent
  rw [List.filter_cons]
  by_cases same : row.tokenID = t ∧ row.srcUserID = w
  · rw [if_pos (decide_eq_true same), if_pos same, List.map_cons, List.sum_cons]
    push_cast
    rfl
  · rw [if_neg (by simpa using same), if_neg same, zero_add]

theorem received_nil : (received t w [] : ℤ) = 0 := rfl

theorem sent_nil : (sent t w [] : ℤ) = 0 := rfl

/-- The rows for a notice say what its entry does to a balance. -/
theorem rows_entry (l : Ledger Ident Ident) (named : w ≠ default) (notice : Notice) :
    (notice.entry.toList.foldl Ledger.post l).balance t w =
      l.balance t w + received t w (ExplorerListener.rows notice) - sent t w (ExplorerListener.rows notice) := by
  have outside (token : Ident) : ¬ (token = t ∧ default = w) := fun same => named same.2.symm
  cases notice with
  | init _ | begin _ | commit _ => simp [Notice.entry, ExplorerListener.rows, received_nil, sent_nil, Ledger.post, Ledger.create]
  | handle blk hdr msg res =>
    cases msg with
    | createAccount _ | createToken _ | addWikiEdge _ | removeWikiEdge _ =>
      simp [Notice.entry, Msg.entry, ExplorerListener.rows, received_nil, sent_nil, Ledger.post, Ledger.create]
    | mintToken m =>
      change ((l.credit m.token hdr.user m.value.val).balance t w : ℤ) = _
      rw [Ledger.credit_balance, ExplorerListener.rows, ExplorerListener.handleMintToken, received_cons, sent_cons, received_nil,
        sent_nil, if_neg (outside m.token)]
      ring
    | transferToken m =>
      change (((l.credit m.token hdr.user (-m.value.val)).credit m.token m.dest m.value.val).balance t w : ℤ) = _
      rw [Ledger.credit_balance, Ledger.credit_balance, ExplorerListener.rows, ExplorerListener.handleTransferToken, received_cons,
        sent_cons, received_nil, sent_nil]
      split_ifs <;> ring
    | buyToken m =>
      cases res with
      | buyToken res =>
        change (((l.credit res.baseToken hdr.user (-res.spent.val)).credit m.token hdr.user m.value.val).balance t w : ℤ) = _
        rw [Ledger.credit_balance, Ledger.credit_balance, ExplorerListener.rows, ExplorerListener.handleBuyToken, received_cons,
          received_cons, sent_cons, sent_cons, received_nil, sent_nil, if_neg (outside res.baseToken), if_neg (outside m.token)]
        split_ifs <;> ring
      | _ => simp [Notice.entry, Msg.entry, ExplorerListener.rows, received_nil, sent_nil]
    | sellToken m =>
      cases res with
      | sellToken res =>
        change (((l.credit res.baseToken hdr.user (- -res.received.val)).credit m.token hdr.user (-m.value.val)).balance t w : ℤ) = _
        rw [Ledger.credit_balance, Ledger.credit_balance, ExplorerListener.rows, ExplorerListener.handleSellToken, received_cons,
          received_cons, sent_cons, sent_cons, received_nil, sent_nil, if_neg (outside res.baseToken), if_neg (outside m.token)]
        split_ifs <;> ring
      | _ => simp [Notice.entry, Msg.entry, ExplorerListener.rows, received_nil, sent_nil]

def rowsOf (notices : List Notice) : List TokenTransaction := notices.flatMap ExplorerListener.rows

theorem rows_ledger (named : w ≠ default) (notices : List Notice) :
    (ledgerOf notices).balance t w = received t w (rowsOf notices) - sent t w (rowsOf notices) := by
  induction notices using List.reverseRecOn with
  | nil => rfl
  | append_singleton notices notice ih =>
    have last : entries [notice] = notice.entry.toList := by
      rcases told : notice.entry with _ | e <;> simp [entries, told]
    have more : rowsOf (notices ++ [notice]) = rowsOf notices ++ ExplorerListener.rows notice := by simp [rowsOf]
    rw [ledgerOf_append, last, rows_entry _ named, ih, more, received_append, sent_append]
    push_cast
    ring

end

variable {K : Type} [DecidableEq K] {L : Layout K}

/-- After every call, the rows that came to a user less those that left give the user's balance, where it has a key of its own. -/
theorem rows_reproduce_ledger [Sha256] {calls : List Call} (up : ((Node.start ({} : StorageMap L)).run calls).down = false)
    {s : StorageMap L} (primary : ((Node.start ({} : StorageMap L)).run calls).manager.primary = some s) {t w : Ident}
    (own : L.Own (.balances t w)) (named : w ≠ default) :
    ∃ n : UInt256, s.kept (.balances t w) = .ok n ∧
      (Storage.Loads t s.applying → Storage.look (.balances t w) s.applying = .ok n) ∧
      (received t w (rowsOf ((Node.start ({} : StorageMap L)).run calls).manager.notices) : ℤ) -
        sent t w (rowsOf ((Node.start ({} : StorageMap L)).run calls).manager.notices) = n.val := by
  obtain ⟨related, typed, books, _⟩ := (Leads.mk up primary rfl).booked
  obtain ⟨n, value⟩ : ∃ n : UInt256, (s.overlay.on .apply).value (.balances t w) = .ok n :=
    (typed.on .apply).reads (Overlay.on_currentCache _ .apply) own rfl
  refine ⟨n, related.kept rfl value, fun loads => ?_, ?_⟩
  · rw [sim_look related.live, look_of_found (found_of_loads related.live loads)]
    exact value
  · have agreed : amount ((s.overlay.on .apply).value (.balances t w)) = _ := books.accounts.balance t w own
    rw [← rows_ledger named, ← agreed, value]
    rfl

/-- A mint, a transfer of the sender to itself, and a purchase of the token that is its own base. -/
def ownTrade : List Call :=
  let band := ListenerManager.genesis.token
  let user := ListenerManager.genesis.account
  [.initChain [], .beginBlock 0 default, applyMsg user 1 (.mintToken ⟨band, 7⟩), applyMsg user 2 (.transferToken ⟨band, user, 2⟩),
    applyMsg user 3 (.buyToken ⟨band, 3⟩), .commitBlock]

theorem rows_reproduce_ledger_ownTrade :
    ∃ n : UInt256, (freeStorage ownTrade).kept (.balances ListenerManager.genesis.token ListenerManager.genesis.account) = .ok n ∧
      (Storage.Loads ListenerManager.genesis.token (freeStorage ownTrade).applying →
        Storage.look (.balances ListenerManager.genesis.token ListenerManager.genesis.account) (freeStorage ownTrade).applying = .ok n) ∧
      (received ListenerManager.genesis.token ListenerManager.genesis.account (rowsOf (freeNode ownTrade).manager.notices) : ℤ) -
        sent ListenerManager.genesis.token ListenerManager.genesis.account (rowsOf (freeNode ownTrade).manager.notices) = n.val := by
  have up : (freeNode ownTrade).down = false := by decide +kernel
  unfold freeStorage freeNode at *
  exact @rows_reproduce_ledger _ _ Layout.free zeroSha256 ownTrade up _ (@primary_of_live _ Layout.free _ zeroSha256 ownTrade up) _ _
    (fun _ same => same) (by decide +kernel)

end BandChain
