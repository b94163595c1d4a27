import Qubitcoin.Node.L2Bridge

/-! What the calls of the bridge do to the value on both of its sides, and how often a signature
can be used. -/

namespace Qubitcoin.Node.L2Bridge

namespace Utxo

def unspentAmount (u : Utxo) : ℚ := if u.spent then 0 else u.amount

end Utxo

def Store.unspent (db : Store) : ℚ := (db.utxos.map Utxo.unspentAmount).sum

def Store.balances (db : Store) : ℚ := (db.accounts.map AccountRow.balance).sum

/-- Both sides of the bridge together. -/
def Store.value (db : Store) : ℚ := db.unspent + db.balances

/-! ## Selection -/

/-- The selected rows are a part of the rows from the start on, and their sum reaches the amount
if all of them do. -/
structure Selects (amount : ℚ) (rows : List Utxo) (total : ℚ) (selection : List Utxo × ℚ) :
    Prop where
  part : selection.1 <+: rows
  sum : selection.2 = total + (selection.1.map Utxo.amount).sum
  reaches : rows ≠ [] → amount ≤ total + (rows.map Utxo.amount).sum → amount ≤ selection.2

theorem selectRows_selects (amount : ℚ) (rows : List Utxo) (total : ℚ) :
    Selects amount rows total (selectRows amount rows total) := by
  induction rows generalizing total with
  | nil => exact ⟨List.nil_prefix, by simp [selectRows], fun h => absurd rfl h⟩
  | cons r rows ih =>
    simp only [selectRows]
    split
    · next henough =>
      exact ⟨by simp, by simp, fun _ _ => henough⟩
    · next hshort =>
      obtain ⟨hpart, hsum, hreaches⟩ := ih (total + r.amount)
      constructor
      · simpa using hpart
      · simp only [List.map_cons, List.sum_cons]
        rw [hsum, add_assoc]
      · intro _ hall
        simp only [List.map_cons, List.sum_cons, ← add_assoc] at hall
        apply hreaches
        · rintro rfl
          simp at hall
          exact hshort hall
        · exact hall

/-! ## Statements -/

theorem spendRow_ok (txHash : String) {db : Store} {r : Utxo} (hr : r ∈ db.utxos)
    (hunspent : r.spent = false) :
    ∃ db', spendRow txHash db r = .ok db' ∧
      db'.utxos = Table.update Utxo.key db.utxos r.key (markSpent txHash) ∧
      db'.accounts = db.accounts ∧ db'.transactions = db.transactions ∧
      db'.unspent + r.amount = db.unspent := by
  have hguard : ∃ u ∈ db.utxos, u.key = r.key ∧ u.spent = false := ⟨r, hr, rfl, hunspent⟩
  simp only [spendRow]
  rw [if_pos hguard]
  refine ⟨_, rfl, rfl, rfl, rfl, ?_⟩
  have hsum := Table.sum_update db.utxos_nodup hr (markSpent txHash) Utxo.unspentAmount
  simp only [Utxo.unspentAmount, markSpent, hunspent] at hsum
  simpa [Store.unspent, Utxo.unspentAmount, markSpent] using hsum

/-- What the statements that spend the selected rows come to. -/
structure Spent (db db' : Store) (selected : List Utxo) : Prop where
  keys : db'.utxos.map Utxo.key = db.utxos.map Utxo.key
  accounts : db'.accounts = db.accounts
  transactions : db'.transactions = db.transactions
  unspent : db'.unspent + (selected.map Utxo.amount).sum = db.unspent

/-- Rows with different keys that are there and unspent can be spent one after the other. -/
theorem spendRows_ok (txHash : String) {db : Store} {selected : List Utxo}
    (hkeys : (selected.map Utxo.key).Nodup)
    (hrows : ∀ r ∈ selected, r ∈ db.utxos ∧ r.spent = false) :
    ∃ db', selected.foldlM (spendRow txHash) db = .ok db' ∧ Spent db db' selected := by
  induction selected generalizing db with
  | nil => exact ⟨db, rfl, rfl, rfl, rfl, by simp⟩
  | cons r selected ih =>
    obtain ⟨hnew, hkeys⟩ := List.nodup_cons.mp hkeys
    obtain ⟨hr, hrows⟩ := List.forall_mem_cons.mp hrows
    obtain ⟨db₁, hspend, hutxos, haccounts, htransactions, hunspent⟩ :=
      spendRow_ok txHash hr.1 hr.2
    have hrest : ∀ r' ∈ selected, r' ∈ db₁.utxos ∧ r'.spent = false := by
      intro r' hr'
      refine ⟨?_, (hrows r' hr').2⟩
      rw [hutxos, Table.mem_update]
      refine ⟨r', (hrows r' hr').1, if_neg ?_⟩
      intro heq
      exact hnew (heq ▸ List.mem_map_of_mem hr')
    obtain ⟨db', hfold, hspent⟩ := ih hkeys hrest
    refine ⟨db', ?_, ?_⟩
    · rw [List.foldlM_cons, hspend]
      exact hfold
    · constructor
      · rw [hspent.keys, hutxos, Table.map_key_update (key_markSpent txHash)]
      · rw [hspent.accounts, haccounts]
      · rw [hspent.transactions, htransactions]
      · rw [List.map_cons, List.sum_cons, ← hunspent, ← hspent.unspent]
        ring

theorem balances_creditAccount (db : Store) (address : String) (amount : ℚ) :
    (creditAccount db address amount).balances = db.balances + amount :=
  Table.sum_upsert db.accounts_nodup rfl fun _ => rfl

/-- An account that has no row has nothing to be taken from. -/
theorem find_of_balanceOf {db : Store} {address : String} (h : balanceOf db address ≠ 0) :
    ∃ account ∈ db.accounts, account.address = address ∧
      account.balance = balanceOf db address := by
  cases hfind : Table.find AccountRow.address db.accounts address with
  | none => exact absurd (by simp [balanceOf, hfind]) h
  | some account =>
    obtain ⟨hmem, haddress⟩ := Table.mem_of_find hfind
    exact ⟨account, hmem, haddress, by simp [balanceOf, hfind]⟩

theorem balances_debitAccount {db : Store} {address : String} (amount : ℚ)
    (h : balanceOf db address ≠ 0) :
    (debitAccount db address amount).balances = db.balances - amount := by
  obtain ⟨account, hmem, rfl, _⟩ := find_of_balanceOf h
  have hsum := Table.sum_update db.accounts_nodup hmem (addBalance (-amount)) AccountRow.balance
  change (debitAccount db account.address amount).balances + account.balance =
    db.balances + (account.balance + -amount) at hsum
  linarith

theorem insertUtxo_ok {db db' : Store} {u : Utxo} (h : insertUtxo db u = .ok db') :
    u.key ∉ db.utxos.map Utxo.key ∧ db'.utxos = db.utxos ++ [u] ∧ db'.accounts = db.accounts ∧
      db'.transactions = db.transactions := by
  unfold insertUtxo at h
  split at h
  · cases h
  · next hnew =>
    cases h
    exact ⟨hnew, rfl, rfl, rfl⟩

theorem insertTransaction_ok {db db' : Store} {row : TransactionRow}
    (h : insertTransaction db row = .ok db') :
    row.txid ∉ db.transactions.map TransactionRow.txid ∧ db'.utxos = db.utxos ∧
      db'.accounts = db.accounts := by
  unfold insertTransaction at h
  split at h
  · cases h
  · next hnew =>
    cases h
    exact ⟨hnew, rfl, rfl⟩

theorem logOperation_tables (db : Store) (row : LogRow) :
    (logOperation db row).utxos = db.utxos ∧ (logOperation db row).accounts = db.accounts := by
  unfold logOperation
  split
  · exact ⟨rfl, rfl⟩
  · exact ⟨rfl, rfl⟩

/-! ## Deposits -/

variable {host : Host} {now : Moment} {db db' : Store}

theorem mem_unspentRows {address : String} {u : Utxo} :
    u ∈ unspentRows db address ↔ u ∈ db.utxos ∧ u.address = address ∧ u.spent = false := by
  simp [unspentRows]

theorem depositRows_perm (host : Host) (db : Store) (d : Deposit) :
    (depositRows host db d).Perm (unspentRows db d.fromAddress) :=
  host.perm _ _

theorem mem_depositRows {d : Deposit} {u : Utxo} (h : u ∈ depositRows host db d) :
    u ∈ db.utxos ∧ u.spent = false := by
  rw [(depositRows_perm host db d).mem_iff, mem_unspentRows] at h
  exact ⟨h.1, h.2.2⟩

theorem depositRows_nodup (host : Host) (db : Store) (d : Deposit) :
    ((depositRows host db d).map Utxo.key).Nodup := by
  rw [((depositRows_perm host db d).map Utxo.key).nodup_iff]
  exact db.utxos_nodup.sublist (List.filter_sublist.map Utxo.key)

/-- The unspent outputs of an address, added up. -/
def funds (db : Store) (address : String) : ℚ := ((unspentRows db address).map Utxo.amount).sum

theorem sum_depositRows (host : Host) (db : Store) (d : Deposit) :
    ((depositRows host db d).map Utxo.amount).sum = funds db d.fromAddress :=
  ((depositRows_perm host db d).map Utxo.amount).sum_eq

theorem depositSelection_selects (host : Host) (db : Store) (d : Deposit) :
    Selects d.amount.value (depositRows host db d) 0 (depositSelection host db d) :=
  selectRows_selects _ _ _

/-- The rows that a deposit selects can be spent. -/
theorem spendSelection_ok (host : Host) (db : Store) (d : Deposit) (txHash : String) :
    ∃ db', (depositSelection host db d).1.foldlM (spendRow txHash) db = .ok db' ∧
      Spent db db' (depositSelection host db d).1 := by
  have hpart := (depositSelection_selects host db d).part
  apply spendRows_ok
  · exact (depositRows_nodup host db d).sublist (hpart.sublist.map Utxo.key)
  · intro r hr
    exact mem_depositRows (hpart.subset hr)

/-- What a deposit needs of its caller and of the state.  The last two say that the hash that
names it is new. -/
structure Payable (host : Host) (now : Moment) (db : Store) (d : Deposit) (a : Authorisation) :
    Prop where
  authorised : authorise host d = .ok a
  covered : d.amount.value ≤ funds db d.fromAddress
  newTransaction : depositHash host now db d ∉ db.transactions.map TransactionRow.txid
  newOutput : d.amount.value < (depositSelection host db d).2 →
    (depositHash host now db d, 0) ∉ db.utxos.map Utxo.key

theorem authorise_pos {d : Deposit} {a : Authorisation} (h : authorise host d = .ok a) :
    0 < d.amount.value :=
  (Checked.ensure_bind_eq_ok.mp h).1

theorem Payable.rows_ne_nil {d : Deposit} {a : Authorisation} (h : Payable host now db d a) :
    depositRows host db d ≠ [] := by
  intro hnil
  have hsum := sum_depositRows host db d
  rw [hnil] at hsum
  have hcovered := h.covered
  rw [← hsum] at hcovered
  exact absurd (authorise_pos h.authorised) (not_lt.mpr hcovered)

/-- What the statements of a deposit come to, once its rows are chosen. -/
structure Paid (host : Host) (db db' : Store) (d : Deposit) (txHash : String)
    (selected : List Utxo) (change : ℚ) : Prop where
  newTransaction : txHash ∉ db.transactions.map TransactionRow.txid
  newOutput : 0 < change → (txHash, 0) ∉ db.utxos.map Utxo.key
  unspent : db'.unspent + (selected.map Utxo.amount).sum = db.unspent + max change 0
  accounts : db'.accounts =
    (creditAccount db (host.l2Address d.toAddress) d.amount.value).accounts

theorem unspent_append {db db' : Store} {u : Utxo} (h : db'.utxos = db.utxos ++ [u]) :
    db'.unspent = db.unspent + u.unspentAmount := by
  simp [Store.unspent, h]

theorem accounts_creditAccount {db db' : Store} (h : db'.accounts = db.accounts) (address : String)
    (amount : ℚ) :
    (creditAccount db' address amount).accounts = (creditAccount db address amount).accounts := by
  simp only [creditAccount, h]

theorem insertChange_ok {d : Deposit} {txHash : String} {change : ℚ}
    (h : insertChange now db d txHash change = .ok db') :
    (0 < change → (txHash, 0) ∉ db.utxos.map Utxo.key) ∧
      db'.unspent = db.unspent + max change 0 ∧ db'.accounts = db.accounts ∧
      db'.transactions = db.transactions := by
  unfold insertChange at h
  split at h
  · next hchange =>
    obtain ⟨hfresh, hutxos, haccounts, htransactions⟩ := insertUtxo_ok h
    refine ⟨fun _ => hfresh, ?_, haccounts, htransactions⟩
    rw [unspent_append hutxos, max_eq_left hchange.le]
    rfl
  · next hchange =>
    cases h
    refine ⟨fun hpos => absurd hpos hchange, ?_, rfl, rfl⟩
    rw [max_eq_right (not_lt.mp hchange), add_zero]

theorem payDeposit_ok {d : Deposit} {txHash : String} {selected : List Utxo} {change : ℚ}
    {db₁ : Store} (hfold : selected.foldlM (spendRow txHash) db = .ok db₁)
    (hspent : Spent db db₁ selected)
    (h : payDeposit host now db d txHash selected change = .ok db') :
    Paid host db db' d txHash selected change := by
  unfold payDeposit at h
  rw [hfold, Checked.ok_bind] at h
  obtain ⟨db₂, hchange, h⟩ := Checked.bind_eq_ok.mp h
  obtain ⟨db₃, htransaction, h⟩ := Checked.bind_eq_ok.mp h
  cases h
  obtain ⟨hfresh, hunspent, hkept, hrecorded⟩ := insertChange_ok hchange
  obtain ⟨hnew, hutxos, haccounts⟩ := insertTransaction_ok htransaction
  obtain ⟨hlogutxos, hlogaccounts⟩ := logOperation_tables db₃ (depositEntry host now d txHash)
  constructor
  · rw [hrecorded] at hnew
    change txHash ∉ db₁.transactions.map _ at hnew
    rwa [hspent.transactions] at hnew
  · intro hpos
    rw [← hspent.keys]
    exact hfresh hpos
  · have hsame : (logOperation db₃ (depositEntry host now d txHash)).unspent = db₂.unspent := by
      rw [Store.unspent, hlogutxos, hutxos, Store.unspent]
    rw [hsame, hunspent, ← hspent.unspent]
    change db₁.unspent + _ + _ = _
    ring
  · rw [hlogaccounts, haccounts, hkept]
    exact accounts_creditAccount hspent.accounts _ _

theorem payDeposit_total (host : Host) (now : Moment) (d : Deposit) {txHash : String}
    {selected : List Utxo} {change : ℚ} {db₁ : Store} (hfold : selected.foldlM (spendRow txHash) db = .ok db₁)
    (hspent : Spent db db₁ selected)
    (hnew : txHash ∉ db.transactions.map TransactionRow.txid)
    (hfresh : 0 < change → (txHash, 0) ∉ db.utxos.map Utxo.key) :
    ∃ db', payDeposit host now db d txHash selected change = .ok db' := by
  unfold payDeposit
  rw [hfold, Checked.ok_bind]
  obtain ⟨db₂, hchange⟩ : ∃ db₂, insertChange now
      (creditAccount db₁ (host.l2Address d.toAddress) d.amount.value) d txHash change = .ok db₂ := by
    unfold insertChange
    split
    · next hpos =>
      rw [← hspent.keys] at hfresh
      exact ⟨_, dif_neg (hfresh hpos)⟩
    · exact ⟨_, rfl⟩
  have hrecorded : db₂.transactions = db.transactions :=
    (insertChange_ok hchange).2.2.2.trans hspent.transactions
  rw [← hrecorded] at hnew
  simp only [hchange, Checked.ok_bind, insertTransaction]
  rw [if_neg]
  · exact ⟨_, rfl⟩
  · exact hnew

/-- What a deposit that goes through has done. -/
structure Deposited (host : Host) (now : Moment) (db db' : Store) (d : Deposit)
    (a : Authorisation) : Prop where
  payable : Payable host now db d a
  unspent : db'.unspent + d.amount.value = db.unspent
  accounts : db'.accounts =
    (creditAccount db (host.l2Address d.toAddress) d.amount.value).accounts

theorem deposit_ok {d : Deposit} {receipt : Receipt}
    (h : deposit host now db d = .ok (db', receipt)) : ∃ a, Deposited host now db db' d a := by
  obtain ⟨a, hauthorised, h⟩ := Checked.bind_eq_ok.mp h
  obtain ⟨hrows, h⟩ := Checked.ensure_bind_eq_ok.mp h
  obtain ⟨hcovered, h⟩ := Checked.ensure_bind_eq_ok.mp h
  rw [sum_depositRows, not_lt] at hcovered
  obtain ⟨db₂, hpay, h⟩ := Checked.bind_eq_ok.mp h
  cases h
  change payDeposit host now db d _ (depositSelection host db d).1
    ((depositSelection host db d).2 - d.amount.value) = .ok db' at hpay
  obtain ⟨db₁, hfold, hspent⟩ := spendSelection_ok host db d (depositHash host now db d)
  have hpaid := payDeposit_ok hfold hspent hpay
  have hselects := depositSelection_selects host db d
  have hreaches := hselects.reaches hrows (by rwa [zero_add, sum_depositRows])
  have hsum := hselects.sum
  refine ⟨a, ⟨hauthorised, hcovered, hpaid.newTransaction, ?_⟩, ?_, hpaid.accounts⟩
  · intro hmore
    exact hpaid.newOutput (sub_pos.mpr hmore)
  · have hunspent := hpaid.unspent
    rw [max_eq_left (sub_nonneg.mpr hreaches), hsum] at hunspent
    linarith

/-- A deposit goes through exactly if it is payable. -/
theorem deposit_ok_iff {d : Deposit} :
    (∃ result, deposit host now db d = .ok result) ↔ ∃ a, Payable host now db d a := by
  constructor
  · rintro ⟨⟨db', receipt⟩, h⟩
    obtain ⟨a, hdeposited⟩ := deposit_ok h
    exact ⟨a, hdeposited.payable⟩
  · rintro ⟨a, hpayable⟩
    obtain ⟨db₁, hfold, hspent⟩ := spendSelection_ok host db d (depositHash host now db d)
    obtain ⟨db', hpay⟩ := payDeposit_total host now d hfold hspent hpayable.newTransaction
      fun hpos => hpayable.newOutput (sub_pos.mp hpos)
    exists (db', depositReceipt host d (depositHash host now db d)
      ((depositSelection host db d).2 - d.amount.value))
    apply Checked.bind_eq_ok.mpr ⟨a, hpayable.authorised, ?_⟩
    apply Checked.ensure_bind_eq_ok.mpr ⟨hpayable.rows_ne_nil, ?_⟩
    apply Checked.ensure_bind_eq_ok.mpr ⟨?_, ?_⟩
    · rw [sum_depositRows, not_lt]
      exact hpayable.covered
    · exact Checked.bind_eq_ok.mpr ⟨db', hpay, rfl⟩

/-! ## Withdrawals -/

structure Withdrawn (host : Host) (db db' : Store) (w : Withdrawal) : Prop where
  positive : 0 < w.amount.value
  covered : w.amount.value ≤ balanceOf db (host.l2Address w.fromAddress)
  unspent : db'.unspent = db.unspent + w.amount.value
  accounts : db'.accounts =
    (debitAccount db (host.l2Address w.fromAddress) w.amount.value).accounts

theorem withdraw_ok {w : Withdrawal} {receipt : Receipt}
    (h : withdraw host now db w = .ok (db', receipt)) : Withdrawn host db db' w := by
  obtain ⟨hpositive, h⟩ := Checked.ensure_bind_eq_ok.mp h
  obtain ⟨hcovered, h⟩ := Checked.ensure_bind_eq_ok.mp h
  obtain ⟨db₁, houtput, h⟩ := Checked.bind_eq_ok.mp h
  obtain ⟨db₂, htransaction, h⟩ := Checked.bind_eq_ok.mp h
  cases h
  obtain ⟨_, hutxos, haccounts, _⟩ := insertUtxo_ok houtput
  obtain ⟨_, hutxos', haccounts'⟩ := insertTransaction_ok htransaction
  obtain ⟨hlogutxos, hlogaccounts⟩ :=
    logOperation_tables db₂ (withdrawEntry host now w (withdrawHash host now w))
  refine ⟨hpositive, not_lt.mp hcovered, ?_, ?_⟩
  · have hsame : (logOperation db₂ (withdrawEntry host now w
        (withdrawHash host now w))).unspent = db₁.unspent := by
      rw [Store.unspent, hlogutxos, hutxos', Store.unspent]
    rw [hsame, unspent_append hutxos]
    rfl
  · rw [hlogaccounts, haccounts', haccounts]

/-! ## Runs -/

def Store.NonNegative (db : Store) : Prop := ∀ account ∈ db.accounts, 0 ≤ account.balance

theorem nonNegative_creditAccount (h : db.NonNegative) (address : String) {amount : ℚ}
    (hamount : 0 ≤ amount) : (creditAccount db address amount).NonNegative := by
  intro account haccount
  simp only [creditAccount, Table.upsert] at haccount
  split at haccount
  · obtain ⟨before, hbefore, rfl⟩ := Table.mem_update.mp haccount
    split
    · exact add_nonneg (h before hbefore) hamount
    · exact h before hbefore
  · rcases List.mem_append.mp haccount with hold | hnew
    · exact h account hold
    · rw [List.mem_singleton.mp hnew]
      exact hamount

theorem nonNegative_debitAccount (h : db.NonNegative) {address : String} {amount : ℚ}
    (hamount : amount ≤ balanceOf db address) (hpositive : 0 < amount) :
    (debitAccount db address amount).NonNegative := by
  intro account haccount
  obtain ⟨before, hbefore, rfl⟩ := Table.mem_update.mp haccount
  split
  · next haddress =>
    obtain ⟨found, hfound, hsame, hbalance⟩ :=
      find_of_balanceOf (hpositive.trans_le hamount).ne'
    have heq := Table.eq_of_key db.accounts_nodup hbefore hfound (haddress.trans hsame.symm)
    change 0 ≤ before.balance + -amount
    rw [heq, hbalance]
    linarith
  · exact h before hbefore

/-- A served call moves value from one side of the bridge to the other. -/
theorem step_value (host : Host) (db : Store) (call : Call) :
    (step host db call).value = db.value := by
  cases call with
  | deposit now d =>
    simp only [step, serve]
    split
    · next db' receipt h =>
      obtain ⟨a, hdeposited⟩ := deposit_ok h
      have hbalances := balances_creditAccount db (host.l2Address d.toAddress) d.amount.value
      have hunspent := hdeposited.unspent
      rw [Store.balances, ← hdeposited.accounts] at hbalances
      simp only [Store.value, Store.balances] at hbalances ⊢
      linarith
    · rfl
  | withdraw now w =>
    simp only [step, serve]
    split
    · next db' receipt h =>
      obtain ⟨hpositive, hcovered, hunspent, haccounts⟩ := withdraw_ok h
      have hbalances := balances_debitAccount w.amount.value (hpositive.trans_le hcovered).ne'
      rw [Store.balances, ← haccounts] at hbalances
      simp only [Store.value, Store.balances] at hbalances ⊢
      linarith
    · rfl

theorem step_nonNegative (host : Host) {db : Store} (h : db.NonNegative) (call : Call) :
    (step host db call).NonNegative := by
  cases call with
  | deposit now d =>
    simp only [step, serve]
    split
    · next db' receipt hok =>
      obtain ⟨a, hdeposited⟩ := deposit_ok hok
      have hamount := (authorise_pos hdeposited.payable.authorised).le
      have hcredited := nonNegative_creditAccount h (host.l2Address d.toAddress) hamount
      rwa [Store.NonNegative, ← hdeposited.accounts] at hcredited
    · exact h
  | withdraw now w =>
    simp only [step, serve]
    split
    · next db' receipt hok =>
      obtain ⟨hpositive, hcovered, _, haccounts⟩ := withdraw_ok hok
      have hdebited := nonNegative_debitAccount h hcovered hpositive
      rwa [Store.NonNegative, ← haccounts] at hdebited
    · exact h

/-- The authorisation that a call uses up, if it goes through. -/
def used (host : Host) (db : Store) : Call → List Authorisation
  | .deposit now d =>
    match deposit host now db d, authorise host d with
    | .ok _, .ok a => [a]
    | _, _ => []
  | .withdraw _ _ => []

/-- A deposit that the bridge finds authorised, covered and new. -/
def Spends (host : Host) (db : Store) (call : Call) (a : Authorisation) : Prop :=
  ∃ now d, call = .deposit now d ∧ Payable host now db d a

theorem mem_used {call : Call} {a : Authorisation} :
    a ∈ used host db call ↔ Spends host db call a := by
  cases call with
  | withdraw now w => simp [used, Spends]
  | deposit now d =>
    simp only [used, Spends]
    constructor
    · intro ha
      split at ha
      · next result b hok hauthorised =>
        obtain ⟨c, hpayable⟩ := deposit_ok_iff.mp ⟨result, hok⟩
        have hsame := hauthorised.symm.trans hpayable.authorised
        cases hsame
        rw [List.mem_singleton.mp ha]
        exact ⟨now, d, rfl, hpayable⟩
      · cases ha
    · rintro ⟨now, d, hcall, hpayable⟩
      cases hcall
      obtain ⟨result, hok⟩ := deposit_ok_iff.mpr ⟨a, hpayable⟩
      simp [hok, hpayable.authorised]

theorem used_nodup (host : Host) (db : Store) (call : Call) : (used host db call).Nodup := by
  cases call with
  | withdraw now w => exact List.nodup_nil
  | deposit now d =>
    simp only [used]
    split
    · exact List.nodup_singleton _
    · exact List.nodup_nil

/-- The authorisations of the deposits that went through. -/
def authorisations (host : Host) (db : Store) (calls : List Call) : List Authorisation :=
  Machine.history (step host) (used host) db calls

theorem mem_authorisations {calls : List Call} {a : Authorisation} :
    a ∈ authorisations host db calls ↔
      ∃ before call after, calls = before ++ call :: after ∧
        Spends host (run host db before) call a := by
  simp only [authorisations, Machine.mem_history, mem_used, run]

/-- Value is kept, balances stay at zero or more, and no authorisation serves twice. -/
structure Sound (host : Host) (db : Store) (calls : List Call) : Prop where
  value : ∀ before, before <+: calls → (run host db before).value = db.value
  nonNegative : db.NonNegative → ∀ before, before <+: calls → (run host db before).NonNegative
  once : (authorisations host db calls).Nodup

theorem run_value (host : Host) (db : Store) (calls : List Call) :
    (run host db calls).value = db.value := by
  apply Machine.run_induction (P := fun s : Store => s.value = db.value)
  · intro s call h
    rw [step_value, h]
  · rfl

theorem run_nonNegative (host : Host) {db : Store} (h : db.NonNegative) (calls : List Call) :
    (run host db calls).NonNegative :=
  Machine.run_induction (P := Store.NonNegative)
    (fun _ call h => step_nonNegative host h call) h calls

/-- A signature serves twice exactly when the sender has the funds for it twice. -/
theorem sound_iff (host : Host) (db : Store) (calls : List Call) :
    Sound host db calls ↔
      ∀ before first between second after,
        calls = before ++ first :: (between ++ second :: after) →
        ∀ a, Spends host (run host db before) first a →
          ¬Spends host (run host db (before ++ first :: between)) second a := by
  constructor
  · rintro ⟨_, _, honce⟩ before first between second after rfl a hfirst hsecond
    obtain ⟨_, hapart⟩ := Machine.history_nodup_iff.mp honce (before ++ first :: between) second
      ⟨after, by simp⟩
    apply hapart _ (mem_used.mpr hsecond)
    exact mem_authorisations.mpr ⟨before, first, between, rfl, hfirst⟩
  · intro h
    refine ⟨fun before _ => run_value host db before,
      fun hstart before _ => run_nonNegative host hstart before, ?_⟩
    apply Machine.history_nodup_iff.mpr
    rintro before second ⟨after, rfl⟩
    refine ⟨used_nodup _ _ _, ?_⟩
    intro a hbefore hsecond
    obtain ⟨start, first, between, rfl, hfirst⟩ := mem_authorisations.mp hbefore
    exact h start first between second after (by simp) a hfirst (mem_used.mp hsecond)

theorem authorise_eq_ok {d : Deposit} {pk sig : Bytes} (hpositive : 0 < d.amount.value)
    (hkey : fromHex d.publicKeyHex = some pk)
    (haddress : host.crypto.deriveAddress pk = d.fromAddress)
    (hsignature : fromHex d.signatureHex = some sig)
    (hverify : host.crypto.verify pk (depositMessage d.fromAddress d.toAddress d.amount) sig = true) :
    authorise host d = .ok (pk, depositMessage d.fromAddress d.toAddress d.amount, sig) := by
  apply Checked.ensure_bind_eq_ok.mpr ⟨hpositive, ?_⟩
  apply Checked.okOr_bind_eq_ok.mpr ⟨pk, hkey, ?_⟩
  apply Checked.ensure_bind_eq_ok.mpr ⟨haddress, ?_⟩
  apply Checked.okOr_bind_eq_ok.mpr ⟨sig, hsignature, ?_⟩
  exact Checked.ensure_bind_eq_ok.mpr ⟨hverify, rfl⟩

/-- A deposit that gets through twice. -/
theorem authorisations_twice {d : Deposit} {a : Authorisation} {now' : Moment} {receipt : Receipt}
    {result : Store × Receipt} (ha : authorise host d = .ok a)
    (hfirst : depositSession host now db d = .ok (db', receipt))
    (hsecond : depositSession host now' db' d = .ok result) :
    authorisations host db [.deposit now d, .deposit now' d] = [a, a] := by
  simp [authorisations, Machine.history, used, step, serve, deposit, ha, hfirst, hsecond]

section Sample

/-- The order by amount, up or down. -/
def ByAmount (descending : Bool) (r r' : Utxo) : Prop :=
  if descending then r'.amount ≤ r.amount else r.amount ≤ r'.amount

instance (descending : Bool) : DecidableRel (ByAmount descending) :=
  fun r r' => inferInstanceAs
    (Decidable (if descending then r'.amount ≤ r.amount else r.amount ≤ r'.amount))

instance (descending : Bool) : Std.Total (ByAmount descending) where
  total r r' := by
    cases descending with
    | true => exact le_total _ _
    | false => exact le_total _ _

instance (descending : Bool) : IsTrans Utxo (ByAmount descending) where
  trans r r' r'' h h' := by
    cases descending with
    | true => exact le_trans h' h
    | false => exact le_trans h h'

def firstHash : String := "4b87fb9378a7f5ae345caff69df0e990a0c5638c3d9341cc8cc2a59d525da9e5"

/-- The digests of the two deposits below and of the key of `sampleCrypto`, told apart by the
lengths of their preimages. -/
def sampleHost : Host where
  crypto := { sampleCrypto with
    sha256 := fun data =>
      if data.length = 114 then (fromHex firstHash).getD []
      else if data.length = 175 then
        (fromHex "7904fec6961aa962c4cb8d61676f6e1c833c2a6667e2604b9572e54b33124a71").getD []
      else sampleCrypto.sha256 data }
  lower text := String.ofList (text.toList.map Char.toLower)
  orderByAmount descending rows := rows.insertionSort (ByAmount descending)
  perm _ _ := List.perm_insertionSort _ _
  sorted descending _ := List.pairwise_insertionSort (ByAmount descending) _

/-- One unspent output of 100. -/
def sampleStore : Store where
  utxos := [{
    txid := "f0"
    vout := 0
    amount := 100
    address := sampleAddress
    blockHeight := some 10
    spent := false
    spentBy := none }]
  accounts := []
  transactions := []
  bridgeLog := []
  utxos_nodup := List.nodup_singleton _
  accounts_nodup := List.nodup_nil

def sampleDeposit : Deposit where
  fromAddress := sampleAddress
  toAddress := "0x51d3a9b12dc4667f771b2a5ce3491631251e9d41"
  amount := ⟨false, 30, 0⟩
  publicKeyHex := String.ofList (List.replicate 2624 '0')
  signatureHex := String.ofList (List.replicate 4840 '0')
  utxoStrategy := "largest_first"

def sampleReplay : List Call :=
  [.deposit ⟨"1700000000.25", 20⟩ sampleDeposit, .deposit ⟨"1700000060.5", 21⟩ sampleDeposit]

def sampleAuthorisation : Authorisation :=
  (List.replicate 1312 0, depositMessage sampleAddress sampleDeposit.toAddress sampleDeposit.amount,
    List.replicate 2420 0)

theorem sampleDeposit_authorised :
    authorise sampleHost sampleDeposit = .ok sampleAuthorisation := by
  have hkey : fromHex sampleDeposit.publicKeyHex = some (List.replicate 1312 0) :=
    fromHex_zeros 1312
  have hsignature : fromHex sampleDeposit.signatureHex = some (List.replicate 2420 0) :=
    fromHex_zeros 2420
  have hsigner : sampleHost.crypto.deriveAddress (List.replicate 1312 0) = sampleAddress := by
    decide +kernel
  have hverify : sampleHost.crypto.verify = sampleCrypto.verify := rfl
  apply authorise_eq_ok _ hkey hsigner hsignature
  · rw [hverify]
    exact sampleCrypto_verify List.length_replicate List.length_replicate _
  · decide +kernel

/-- Whether two deposits, one after the other, get through their sessions. -/
def sampleBoth : Bool :=
  match depositSession sampleHost ⟨"1700000000.25", 20⟩ sampleStore sampleDeposit with
  | .ok (db, _) => (depositSession sampleHost ⟨"1700000060.5", 21⟩ db sampleDeposit).isOk
  | .error _ => false

-- the texts of the key and the signature are long
set_option maxRecDepth 20000 in
theorem sampleBoth_eq : sampleBoth = true := by
  decide +kernel

end Sample

/-- The deposit is served again, for another 30. -/
theorem deposit_replayed : ¬Sound sampleHost sampleStore sampleReplay := by
  intro h
  have hboth := sampleBoth_eq
  unfold sampleBoth at hboth
  split at hboth
  · next db receipt hfirst =>
    cases hsecond : depositSession sampleHost ⟨"1700000060.5", 21⟩ db sampleDeposit with
    | ok result =>
      have honce := h.once
      rw [sampleReplay, authorisations_twice sampleDeposit_authorised hfirst hsecond] at honce
      exact (List.nodup_cons.mp honce).1 List.mem_cons_self
    | error e =>
      rw [hsecond] at hboth
      cases hboth
  · cases hboth

end Qubitcoin.Node.L2Bridge
