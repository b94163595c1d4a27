import Qubitcoin.Library.Keys
import Qubitcoin.Library.TextTree
import Qubitcoin.PythonVm.StateManagerLaws

/-! `compute_state_root`, and what the root tells of a database that the manager has made. -/

namespace Qubitcoin.PythonVm

open Command

/-- `hashlib.sha256(text.encode()).hexdigest()`. -/
def hexDigest (crypto : Crypto) (text : String) : String := hex (crypto.sha256 (encode text))

/-- The text of a balance, as it comes from the database. -/
structure BalanceText where
  text : ℤ → String
  inj : Function.Injective text
  colon_notMem : ∀ balance, ':' ∉ (text balance).toList

section

variable (crypto : Crypto) (balances : BalanceText)

def accountText (address : String) (row : AccountRow) : String :=
  address ++ ":" ++ toString row.nonce ++ ":" ++ balances.text row.balance ++ ":" ++
    row.codeHash ++ ":" ++ row.storageRoot

/-- The texts of the accounts, in the order of the addresses. -/
def accountTexts (t : Tables) : List String :=
  (StorageMap.orderedKeys t.accounts).map fun address =>
    accountText balances address (t.account address)

/-- `compute_state_root`. -/
def computeStateRoot (t : Tables) : String :=
  let leaves := (accountTexts balances t).map (hexDigest crypto)
  if leaves = [] then hexDigest crypto "empty_state"
  else (Merkle.build (fun a b => hexDigest crypto (a ++ b)) leaves.length leaves).headD ""

end

/-! ## Databases without a stray colon -/

theorem colon_notMem_hex (data : Bytes) : ':' ∉ (hex data).toList := by
  unfold hex
  rw [String.toList_ofList, List.mem_flatMap]
  rintro ⟨b, -, hb⟩
  have hdigit {n : ℕ} (hn : n < 16) : ':' ≠ Nat.digitChar n := by
    interval_cases n <;> decide
  have hhigh : b.toNat / 16 < 16 := by
    have := b.toNat_lt
    omega
  rw [List.mem_pair] at hb
  exact hb.elim (hdigit hhigh) (hdigit (Nat.mod_lt _ (by decide)))

/-- The fields of the accounts that are hashed have no colon, and no account has a storage root. -/
def Lucid (t : Tables) : Prop :=
  ∀ address row, t.accounts.lookup address = some row →
    ':' ∉ address.toList ∧ ':' ∉ row.codeHash.toList ∧ row.storageRoot = ""

theorem Lucid.insert {t : Tables} (h : Lucid t) {address : String} {row : AccountRow}
    (haddress : ':' ∉ address.toList)
    (hrow : ':' ∉ row.codeHash.toList ∧ row.storageRoot = "") :
    Lucid { t with accounts := t.accounts.insert address row } := by
  intro address' row' hlookup
  rw [StorageMap.lookup_insert_eq] at hlookup
  split at hlookup
  · next heq =>
    cases hlookup
    exact ⟨heq ▸ haddress, hrow⟩
  · exact h address' row' hlookup

theorem Lucid.account {t : Tables} (h : Lucid t) (address : String) :
    ':' ∉ (t.account address).codeHash.toList ∧ (t.account address).storageRoot = "" := by
  unfold Tables.account
  cases hlookup : t.accounts.lookup address with
  | none => exact ⟨by decide, rfl⟩
  | some row => exact (h address row hlookup).2

namespace Manager

variable {services : Services} {block : Block} {txIndex : ℕ} {tx : Transaction}
  {m m' : StateManager}

theorem colon_notMem_sender {fromAddr : String} (h : sender services tx = some fromAddr) :
    ':' ∉ fromAddr.toList := by
  unfold sender at h
  split at h
  · cases h
    decide
  · obtain ⟨key, -, rfl⟩ := Option.map_eq_some_iff.mp h
    rw [String.toList_ofList]
    exact fun hmem => colon_notMem_hex _ (List.mem_of_mem_take hmem)

/-- The accounts stay. -/
def sameAccounts : Guarantee StateManager := .fixing fun m => m.db.accounts

theorem keepsAccounts_checkCompliance (fromAddr : String) :
    Keeps sameAccounts (checkCompliance services block txIndex tx fromAddr) := by
  unfold checkCompliance
  split
  · exact .pure _
  · refine .bind (fun _ => rfl) fun now => ?_
    split
    · exact .pure _
    · exact .bind (.bind (fun _ => rfl) fun _ => .pure _) fun receipt => .pure _

theorem keepsAccounts_prepareCall : Keeps sameAccounts (prepareCall services block txIndex tx) := by
  refine .bind keeps_getSenderAddress fun fromAddr =>
    .bind (keepsAccounts_checkCompliance fromAddr) fun blocked => ?_
  split
  · exact .pure _
  · refine .bind (.bind (fun m => sameAccounts.refl m) fun bytecode => ?_) fun code => ?_
    · split
      · exact .pure _
      · exact keeps_parse _
    · split
      · exact .bind (.bind (fun _ => rfl) fun _ => .pure _) fun receipt => .pure _
      · exact .pure _

/-- The database stays lucid. -/
def lucid : Guarantee StateManager := .preserving fun m => Lucid m.db

theorem lucid_of_sameAccounts (m m' : StateManager) (h : sameAccounts.rel m m') :
    lucid.rel m m' := by
  intro hlucid address row hlookup
  rw [show m'.db.accounts = m.db.accounts from h] at hlookup
  exact hlucid address row hlookup

theorem lucid_createAccount {t : Tables} (h : Lucid t) {fromAddr : String}
    (hfrom : ':' ∉ fromAddr.toList) : Lucid (t.createAccount fromAddr) :=
  h.insert hfrom (h.account fromAddr)

theorem lucid_modifiesDb {f : Tables → Tables} (h : ∀ t, Lucid t → Lucid (f t)) :
    Keeps lucid (modifiesDb f) := fun m => h m.db

theorem lucid_prepareDeploy : Keeps lucid (prepareDeploy services block txIndex tx) := by
  intro m
  unfold prepareDeploy
  cases hsender : getSenderAddress services tx m with
  | error fault m' =>
    rw [bind_error hsender]
    exact keeps_getSenderAddress.of_error hsender
  | ok fromAddr m' =>
    obtain ⟨hfrom, rfl⟩ := sender_of_ok hsender
    have hcolon := colon_notMem_sender hfrom
    rw [bind_ok hsender]
    refine Keeps.bind ((keepsAccounts_checkCompliance fromAddr).imp lucid_of_sameAccounts)
      (fun blocked => ?_) m'
    split
    · exact .pure _
    · have hcreate : Keeps lucid (modifiesDb fun t => t.createAccount fromAddr) :=
        lucid_modifiesDb fun t ht => lucid_createAccount ht hcolon
      exact hcreate.bind fun _ => .bind (fun m => lucid.refl m) fun account =>
        .bind (keeps_contractAddress _ _) fun address => .pure _

theorem lucid_prepare : Keeps lucid (prepare services block txIndex tx) := by
  unfold prepare
  split
  · exact lucid_prepareDeploy
  · exact keepsAccounts_prepareCall.imp lucid_of_sameAccounts
  all_goals exact .pure _

theorem lucid_updateAccount {t : Tables} (h : Lucid t) {fromAddr : String} {row : AccountRow}
    (hfrom : ':' ∉ fromAddr.toList) (hrow : ':' ∉ row.codeHash.toList ∧ row.storageRoot = "") :
    Lucid (t.updateAccount fromAddr row) := h.insert hfrom hrow

theorem lucid_storeContract {t : Tables} (h : Lucid t) {address : String}
    (haddress : ':' ∉ address.toList) (result : ExecutionResult) :
    Lucid (storeContract services address result t) := by
  unfold storeContract
  split
  · exact h.insert haddress ⟨colon_notMem_hex _, (h.account address).2⟩
  · exact h

theorem lucid_storeCall {t : Tables} (h : Lucid t) (result : ExecutionResult) :
    Lucid (storeCall result t) := by
  unfold storeCall
  split
  · exact h
  · exact h

theorem lucid_finishCall (h : Lucid m.db) {fromAddr : String} (hfrom : ':' ∉ fromAddr.toList)
    (toAddr : String) (result : ExecutionResult) :
    Lucid (left (finishCall services block txIndex tx fromAddr toAddr result m)).db := by
  have hcreated := lucid_createAccount (lucid_storeCall h result) hfrom
  exact lucid_updateAccount hcreated hfrom (hcreated.account fromAddr)

theorem lucid_finish {plan : Plan} (hplanned : Planned services tx m plan) (h : Lucid m.db) :
    Lucid (left (finish services block txIndex tx plan m)).db := by
  cases hplanned with
  | settled receipt => exact h
  | @deploy fromAddr preimage hfrom hpreimage =>
    exact lucid_updateAccount (lucid_storeContract h (colon_notMem_hex _) _)
      (colon_notMem_sender hfrom) (h.account fromAddr)
  | @call fromAddr code hfrom =>
    exact lucid_finishCall (m := { m with qvm := _ }) h (colon_notMem_sender hfrom) _ _

theorem lucid_processTransaction (h : Lucid m.db) :
    Lucid (left (processTransaction services block txIndex tx m)).db := by
  unfold processTransaction
  cases hprepare : prepare services block txIndex tx m with
  | error fault m' =>
    rw [bind_error hprepare]
    exact lucid_prepare.of_error hprepare h
  | ok plan m' =>
    rw [bind_ok hprepare]
    exact lucid_finish (prepare_planned hprepare) (lucid_prepare.of_ok hprepare h)

theorem lucid_processTransactions (txs : List Transaction) (h : Lucid m.db) :
    Lucid (left (processTransactions services block txIndex txs m)).db := by
  induction txs generalizing txIndex m with
  | nil => exact h
  | cons tx txs ih =>
    have hfirst : Lucid (left (processTransaction services block txIndex tx m)).db :=
      lucid_processTransaction h
    rw [left_processTransactions]
    cases hrun : processTransaction services block txIndex tx m with
    | error fault m' =>
      rw [hrun] at hfirst
      exact hfirst
    | ok receipt m' =>
      rw [hrun] at hfirst
      exact ih hfirst

/-- What blocks make of a database without accounts. -/
inductive Reached (services : Services) : StateManager → Prop
  | new {m : StateManager} : m.db.accounts = ∅ → Reached services m
  | block {m : StateManager} (baseFee : ℤ) (block : Block) : Reached services m →
      Reached services (left (executeBlockTransactions services baseFee block m))

theorem Reached.lucid (h : Reached services m) : Lucid m.db := by
  induction h with
  | new hempty =>
    intro address row hlookup
    rw [hempty, Finmap.lookup_empty] at hlookup
    cases hlookup
  | block baseFee block _ ih => exact lucid_processTransactions _ ih

end Manager

/-! ## Roots -/

variable {crypto : Crypto} {balances : BalanceText} {t t' : Tables}

/-- What the text of an account tells. -/
def AccountRow.visible (row : AccountRow) : ℕ × ℤ × String × String :=
  (row.nonce, row.balance, row.codeHash, row.storageRoot)

theorem toList_accountText (address : String) (row : AccountRow) :
    (accountText balances address row).toList =
      address.toList ++ ':' :: (row.nonce.repr.toList ++ ':' ::
        ((balances.text row.balance).toList ++ ':' ::
          (row.codeHash.toList ++ ':' :: row.storageRoot.toList))) := by
  simp [accountText, String.toList_append]

/-- The text of an account tells the account. -/
theorem accountText_inj {address address' : String} {row row' : AccountRow}
    (haddress : ':' ∉ address.toList) (haddress' : ':' ∉ address'.toList)
    (hcode : ':' ∉ row.codeHash.toList) (hcode' : ':' ∉ row'.codeHash.toList)
    (h : accountText balances address row = accountText balances address' row') :
    address = address' ∧ row.visible = row'.visible := by
  have hlist := congrArg String.toList h
  rw [toList_accountText, toList_accountText, Keys.join_inj haddress haddress',
    Keys.join_inj (Keys.colon_notMem_repr _) (Keys.colon_notMem_repr _),
    Keys.join_inj (balances.colon_notMem _) (balances.colon_notMem _),
    Keys.join_inj hcode hcode'] at hlist
  obtain ⟨hsame, hnonce, hbalance, hhash, hroot⟩ := hlist
  refine ⟨String.toList_inj.mp hsame, ?_⟩
  have hnumber : row.nonce = row'.nonce := Nat.repr_injective (String.toList_inj.mp hnonce)
  have hamount := balances.inj (String.toList_inj.mp hbalance)
  rw [AccountRow.visible, AccountRow.visible, hnumber, hamount, String.toList_inj.mp hhash,
    String.toList_inj.mp hroot]

theorem nodup_accountTexts (h : Lucid t) : (accountTexts balances t).Nodup := by
  refine (StorageMap.nodup_orderedKeys t.accounts).map_on fun address hmem address' hmem' heq => ?_
  obtain ⟨row, hrow⟩ := StorageMap.mem_orderedKeys.mp hmem
  obtain ⟨row', hrow'⟩ := StorageMap.mem_orderedKeys.mp hmem'
  exact (accountText_inj (h address row hrow).1 (h address' row' hrow').1 (h.account address).1
    (h.account address').1 heq).1

/-- What the texts of a database tell is in it. -/
theorem exists_of_accountTexts (h : Lucid t) (h' : Lucid t')
    (hsame : accountTexts balances t = accountTexts balances t') {address : String}
    {row : AccountRow} (hrow : t.accounts.lookup address = some row) :
    ∃ row', t'.accounts.lookup address = some row' ∧ row'.visible = row.visible := by
  have hmem : accountText balances address (t.account address) ∈ accountTexts balances t' := by
    rw [← hsame]
    exact List.mem_map_of_mem (StorageMap.mem_orderedKeys.mpr ⟨row, hrow⟩)
  obtain ⟨address', hmem', heq⟩ := List.mem_map.mp hmem
  obtain ⟨row', hrow'⟩ := StorageMap.mem_orderedKeys.mp hmem'
  obtain ⟨rfl, hvisible⟩ := accountText_inj (h' address' row' hrow').1 (h address row hrow).1
    (h'.account address').1 (h.account address).1 heq
  have haccount : t.account address' = row := by
    rw [Tables.account, hrow]
    rfl
  have haccount' : t'.account address' = row' := by
    rw [Tables.account, hrow']
    rfl
  exact ⟨row', hrow', by rw [← haccount', ← haccount, hvisible]⟩

/-- The digest of the root, whose texts are 64 digits long. -/
def rootDigest (crypto : Crypto) (hsha : ∀ data, (crypto.sha256 data).length = 32) :
    TextTree.Digest ':' where
  hash := hexDigest crypto
  size := 64
  length_hash text := by rw [hexDigest, Manager.length_hex, hsha]
  mark_notMem text := colon_notMem_hex _

theorem computeStateRoot_eq (hsha : ∀ data, (crypto.sha256 data).length = 32) (t : Tables) :
    computeStateRoot crypto balances t =
      TextTree.root (rootDigest crypto hsha) "empty_state" (accountTexts balances t) := by
  unfold computeStateRoot TextTree.root
  simp only [List.map_eq_nil_iff]
  rfl

theorem marked_accountTexts (hsha : ∀ data, (crypto.sha256 data).length = 32) (t : Tables) :
    TextTree.Marked (rootDigest crypto hsha) "empty_state" (accountTexts balances t) where
  marked := by
    intro text htext
    obtain ⟨address, -, rfl⟩ := List.mem_map.mp htext
    rw [toList_accountText]
    simp
  empty_notMarked := by decide
  empty_length := by
    change "empty_state".toList.length < 2 * 64
    decide

def Sample.genesis : StateManager := ⟨⟨∅, ∅, ∅, []⟩, .new⟩

def Sample.balanceText : BalanceText :=
  ⟨toString, fun _ _ h => Int.repr_injective h, Keys.colon_notMem_toString⟩

/-- A block whose only call finds no contract. -/
def Sample.idleBlock : Block := ⟨1, 0, none, "01", [Sample.callOf "cc" 0]⟩

end Qubitcoin.PythonVm
