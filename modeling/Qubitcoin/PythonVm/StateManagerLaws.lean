import Qubitcoin.PythonVm.StateManager

/-! What the transactions of a block leave in the database: the writes of the frames that survive,
one more on the nonce of a sender for each execution, and contracts at addresses of their own. -/

namespace Qubitcoin.PythonVm

open Command Interpreter
open Evm (bigEndian ofBigEndian)

/-! ## The storage of an execution -/

theorem executeFully_eq (host : Host) (message : Message) (shared : Shared) :
    execute host (run host (message.gas + 2)) message shared =
      some (executeFully host message shared) := (Option.some_get _).symm

/-- The storage of a successful execution is what its surviving frames have written. -/
theorem storageChanges_eq {host : Host} {message : Message} {shared : Shared}
    (hdepth : message.depth = 0) (hsuccess : (executeFully host message shared).1.success = true)
    (address key : String) :
    Storage.get (executeFully host message shared).1.storageChanges address key =
      lastWrite address key (effects host message shared).survivors := by
  have hexecute := executeFully_eq host message shared
  have htop : ¬1024 < message.depth := by omega
  generalize executeFully host message shared = answer at hexecute hsuccess ⊢
  obtain ⟨result, shared'⟩ := answer
  rw [execute, if_neg htop] at hexecute
  obtain ⟨vm, hrun, -, hchanges⟩ := leave_success hexecute hsuccess
  have hends : run host (message.gas + 2) (.enter message shared) ≠ .unfinished := by
    rw [hrun]
    exact RunOutcome.noConfusion
  have hcache := runs_cache (runs_callTree host (message.gas + 2) hends) hrun
  have hempty : (Vm.enter message shared).shared.storageCache = ∅ :=
    congrArg Shared.storageCache (if_pos hdepth)
  rw [hchanges, hcache, effects, executionTree, if_neg htop, get_replay]
  change (lastWrite address key _).or
    (Storage.get (Vm.enter message shared).shared.storageCache address key) = _
  rw [hempty]
  exact Option.or_none

/-- A successful execution reports the logs of its own frame and of those that hand them on up to
it. -/
theorem successful_logs (host : Host) (message : Message) (shared : Shared)
    (hdepth : message.depth ≤ 1024)
    (hsuccess : (executeFully host message shared).1.success = true) :
    (executeFully host message shared).1.logs =
      keptLogs false (effects host message shared) := by
  have hexecute := executeFully_eq host message shared
  have htop : ¬1024 < message.depth := by omega
  generalize executeFully host message shared = answer at hexecute hsuccess ⊢
  obtain ⟨result, shared'⟩ := answer
  rw [execute, if_neg htop] at hexecute
  obtain ⟨vm, hrun, -, -⟩ := leave_success hexecute hsuccess
  have hends : run host (message.gas + 2) (.enter message shared) ≠ .unfinished := by
    rw [hrun]
    exact RunOutcome.noConfusion
  have hlogs := runs_logs (runs_callTree host (message.gas + 2) hends) hrun
  have hresult : result.logs = vm.ctx.logs := by
    rw [hrun] at hexecute
    cases hexecute
    rfl
  rw [hresult, hlogs, effects, executionTree, if_neg htop]
  rfl

/-! ## What a transaction changes -/

namespace Manager

variable {services : Services} {block : Block} {txIndex : ℕ} {tx : Transaction}
  {m m' : StateManager}

/-- The contracts' slots stay, and the accounts, but for empty ones that are new. -/
def untouched : Guarantee StateManager :=
  .fixing fun m => (m.db.contractStorage, m.db.account)

theorem untouched_storage (h : untouched.rel m m') :
    m'.db.contractStorage = m.db.contractStorage := congrArg Prod.fst h

theorem untouched_account (h : untouched.rel m m') : m'.db.account = m.db.account :=
  congrArg Prod.snd h

theorem account_createAccount (t : Tables) (address : String) :
    (t.createAccount address).account = t.account := by
  funext address'
  unfold Tables.account Tables.createAccount
  rw [StorageMap.lookup_insert_eq]
  split
  · next heq =>
    subst heq
    rfl
  · rfl

theorem keeps_parse {G : Guarantee StateManager} (s : String) : Keeps G (parse s) := by
  intro m
  unfold parse
  split
  · exact G.refl m
  · exact G.refl m

theorem keeps_getSenderAddress {G : Guarantee StateManager} :
    Keeps G (getSenderAddress services tx) := by
  intro m
  unfold getSenderAddress
  split
  · exact G.refl m
  · exact G.refl m

theorem keeps_contractAddress {G : Guarantee StateManager} (fromAddr : String) (nonce : ℕ) :
    Keeps G (contractAddress services fromAddr nonce) := by
  intro m
  unfold contractAddress
  split
  · exact G.refl m
  · exact G.refl m

theorem keeps_storeReceipt (receipt : TransactionReceipt) :
    Keeps untouched (storeReceipt receipt) :=
  .bind (fun _ => rfl) fun _ => .pure receipt

theorem keeps_checkCompliance (fromAddr : String) :
    Keeps untouched (checkCompliance services block txIndex tx fromAddr) := by
  unfold checkCompliance
  split
  · exact .pure _
  · refine .bind (fun _ => rfl) fun now => ?_
    split
    · exact .pure _
    · exact .bind (keeps_storeReceipt _) fun receipt => .pure _

theorem keeps_prepareDeploy : Keeps untouched (prepareDeploy services block txIndex tx) := by
  refine .bind keeps_getSenderAddress fun fromAddr =>
    .bind (keeps_checkCompliance fromAddr) fun blocked => ?_
  split
  · exact .pure _
  · refine .bind (fun m => ?_) fun _ => .bind (fun m => untouched.refl m) fun account => ?_
    · exact congrArg (m.db.contractStorage, ·) (account_createAccount m.db fromAddr)
    · exact .bind (keeps_contractAddress _ _) fun address => .pure _

theorem keeps_prepareCall : Keeps untouched (prepareCall services block txIndex tx) := by
  refine .bind keeps_getSenderAddress fun fromAddr =>
    .bind (keeps_checkCompliance fromAddr) fun blocked => ?_
  split
  · exact .pure _
  · refine .bind (.bind (fun m => untouched.refl m) fun bytecode => ?_) fun code => ?_
    · split
      · exact .pure _
      · exact keeps_parse _
    · split
      · exact .bind (keeps_storeReceipt _) fun receipt => .pure _
      · exact .pure _

theorem keeps_prepare : Keeps untouched (prepare services block txIndex tx) := by
  unfold prepare
  split
  · exact keeps_prepareDeploy
  · exact keeps_prepareCall
  all_goals exact .pure _

/-- What has been executed in a plan, with the machine and what it holds. -/
def execution (services : Services) (message : Message) (m : StateManager) :
    ExecutionResult × Shared :=
  executeFully (machine services m.db) message m.qvm

/-- What a plan writes to the contracts' slots. -/
def Plan.changes (services : Services) (m : StateManager) : Plan → Option Storage
  | .settled _ => none
  | .deploy _ _ message =>
    let result := (execution services message m).1
    if Deploys result then some result.storageChanges else none
  | .call _ message =>
    let result := (execution services message m).1
    if result.success then some result.storageChanges else none

/-- The slots after a plan has been finished. -/
theorem finish_storage (plan : Plan) (m : StateManager) :
    (left (finish services block txIndex tx plan m)).db.contractStorage =
      (plan.changes services m).elim m.db.contractStorage fun changes =>
        StorageMap.flatten changes ∪ m.db.contractStorage := by
  cases plan with
  | settled receipt => rfl
  | deploy fromAddr account message =>
    change (storeContract services message.address (execution services message m).1
      m.db).contractStorage = _
    unfold storeContract Plan.changes
    dsimp only
    split
    · rfl
    · rfl
  | call fromAddr message =>
    change (storeCall (execution services message m).1 m.db).contractStorage = _
    unfold storeCall Plan.changes
    dsimp only
    split
    · rfl
    · rfl

/-- The plans that are made, by the state they are made in. -/
inductive Planned (services : Services) (tx : Transaction) (m : StateManager) : Plan → Prop
  | settled (receipt : Option TransactionReceipt) : Planned services tx m (.settled receipt)
  | deploy {fromAddr : String} {preimage : Bytes} : sender services tx = some fromAddr →
      createPreimage fromAddr (m.db.account fromAddr).nonce = some preimage →
      Planned services tx m (.deploy fromAddr (m.db.account fromAddr)
        (topMessage fromAddr (hex ((services.host.crypto.keccak256 preimage).take 20)) (payload tx)
          [] 0 (gasLimit services tx)))
  | call {fromAddr : String} {code : Bytes} : sender services tx = some fromAddr →
      Planned services tx m (.call fromAddr (topMessage fromAddr (tx.toAddress.getD "") code
        (payload tx) (tx.outputs.headD 0) (gasLimit services tx)))

theorem sender_of_ok {fromAddr : String} (h : getSenderAddress services tx m = .ok fromAddr m') :
    sender services tx = some fromAddr ∧ m' = m := by
  unfold getSenderAddress at h
  split at h
  · next hsender =>
    cases h
    exact ⟨hsender, rfl⟩
  · cases h

theorem contractAddress_of_ok {fromAddr address : String} {nonce : ℕ}
    (h : contractAddress services fromAddr nonce m = .ok address m') :
    ∃ preimage, createPreimage fromAddr nonce = some preimage ∧
      address = hex ((services.host.crypto.keccak256 preimage).take 20) ∧ m' = m := by
  unfold contractAddress at h
  split at h
  · next preimage hpreimage =>
    cases h
    exact ⟨preimage, hpreimage, rfl, rfl⟩
  · cases h

theorem prepareDeploy_planned {plan : Plan}
    (h : prepareDeploy services block txIndex tx m = .ok plan m') :
    Planned services tx m' plan := by
  obtain ⟨fromAddr, m₁, hsender, hscreened⟩ := of_bind_ok h
  have hfrom := (sender_of_ok hsender).1
  obtain ⟨blocked, m₂, -, hrest⟩ := of_bind_ok hscreened
  split at hrest
  · cases hrest
    exact .settled _
  · obtain ⟨_, m₃, -, hread⟩ := of_bind_ok hrest
    obtain ⟨account, m₄, haccount, hcreate⟩ := of_bind_ok hread
    cases haccount
    obtain ⟨address, m₅, haddress, hplan⟩ := of_bind_ok hcreate
    obtain ⟨preimage, hpreimage, rfl, rfl⟩ := contractAddress_of_ok haddress
    cases hplan
    exact .deploy hfrom hpreimage

theorem prepareCall_planned {plan : Plan}
    (h : prepareCall services block txIndex tx m = .ok plan m') :
    Planned services tx m' plan := by
  obtain ⟨fromAddr, m₁, hsender, hscreened⟩ := of_bind_ok h
  have hfrom := (sender_of_ok hsender).1
  obtain ⟨blocked, m₂, -, hrest⟩ := of_bind_ok hscreened
  split at hrest
  · cases hrest
    exact .settled _
  · obtain ⟨code, m₃, -, hplan⟩ := of_bind_ok hrest
    split at hplan
    · obtain ⟨receipt, m₄, -, hsettled⟩ := of_bind_ok hplan
      cases hsettled
      exact .settled _
    · cases hplan
      exact .call hfrom

theorem prepare_planned {plan : Plan} (h : prepare services block txIndex tx m = .ok plan m') :
    Planned services tx m' plan := by
  unfold prepare at h
  generalize tx.txType = txType at h
  cases txType
  case contractDeploy => exact prepareDeploy_planned h
  case contractCall => exact prepareCall_planned h
  all_goals
    cases h
    exact .settled none

theorem Planned.depth {plan : Plan} (h : Planned services tx m plan) {message : Message}
    (hmessage : plan.message = some message) : message.depth = 0 := by
  cases h with
  | settled receipt => cases hmessage
  | deploy hfrom hpreimage =>
    cases hmessage
    rfl
  | call hfrom =>
    cases hmessage
    rfl

/-- What is written is what a successful execution has changed. -/
theorem Plan.changes_eq {plan : Plan} {changes : Storage}
    (h : plan.changes services m = some changes) :
    ∃ message, plan.message = some message ∧ (execution services message m).1.success = true ∧
      changes = (execution services message m).1.storageChanges := by
  cases plan with
  | settled receipt => cases h
  | deploy fromAddr account message =>
    simp only [Plan.changes] at h
    split at h
    · next hdeploys =>
      cases h
      exact ⟨message, rfl, hdeploys.1, rfl⟩
    · cases h
  | call fromAddr message =>
    simp only [Plan.changes] at h
    split at h
    · next hsuccess =>
      cases h
      exact ⟨message, rfl, hsuccess, rfl⟩
    · cases h

theorem bind_lookup (storage : Storage) (address key : String) :
    ((storage.lookup address).bind fun slots => slots.lookup key) =
      Storage.get storage address key := by
  unfold Storage.get StorageMap.value
  cases storage.lookup address with
  | none => rw [Option.bind_none, Option.getD_none, Finmap.lookup_empty]
  | some slots => rfl

/-- The writes of a transaction that last: those of the surviving frames of its execution, if it
succeeds and, for a deployment, leaves a contract. -/
def lastingWrites (services : Services) (block : Block) (txIndex : ℕ) (tx : Transaction)
    (m : StateManager) : List Effect :=
  match prepare services block txIndex tx m with
  | .error _ _ => []
  | .ok plan m' =>
    match plan.changes services m', plan.message with
    | some _, some message => (effects (machine services m'.db) message m'.qvm).survivors
    | _, _ => []

/-- The slots after a transaction: what it has lastingly written over what was there. -/
theorem processTransaction_storage (services : Services) (block : Block) (txIndex : ℕ)
    (tx : Transaction) (m : StateManager) (address key : String) :
    (left (processTransaction services block txIndex tx m)).db.contractStorage.lookup
        (address, key) =
      (lastWrite address key (lastingWrites services block txIndex tx m)).or
        (m.db.contractStorage.lookup (address, key)) := by
  have hkeeps : Keeps untouched (prepare services block txIndex tx) := keeps_prepare
  unfold processTransaction lastingWrites
  cases hprepare : prepare services block txIndex tx m with
  | error fault m' =>
    rw [bind_error hprepare]
    exact congrArg (·.lookup (address, key)) (untouched_storage (hkeeps.of_error hprepare))
  | ok plan m' =>
    rw [bind_ok hprepare, finish_storage, untouched_storage (hkeeps.of_ok hprepare)]
    dsimp only
    cases hchanges : plan.changes services m' with
    | none => rfl
    | some changes =>
      obtain ⟨message, hmessage, hsuccess, rfl⟩ := Plan.changes_eq hchanges
      have hdepth := (prepare_planned hprepare).depth hmessage
      rw [hmessage, Option.elim_some, StorageMap.lookup_union, StorageMap.lookup_flatten,
        bind_lookup]
      dsimp only
      rw [← storageChanges_eq hdepth hsuccess]
      rfl

/-- A transaction changes no slot where no execution of it succeeds. -/
theorem failed_storage {plan : Plan} (hprepare : prepare services block txIndex tx m = .ok plan m')
    (hfailed : ∀ message, plan.message = some message →
      (execution services message m').1.success = false) :
    (left (processTransaction services block txIndex tx m)).db.contractStorage =
      m.db.contractStorage := by
  unfold processTransaction
  rw [bind_ok hprepare, finish_storage]
  cases hchanges : plan.changes services m' with
  | none => exact untouched_storage (keeps_prepare.of_ok hprepare)
  | some changes =>
    obtain ⟨message, hmessage, hsuccess, -⟩ := Plan.changes_eq hchanges
    cases (hfailed message hmessage).symm.trans hsuccess

/-- Each slot of a successful execution has the last value that a surviving frame has written, and
an execution that fails leaves the slots in the database as they were. -/
theorem failed_frames_leave_no_storage :
    (∀ (host : Host) (message : Message) (shared : Shared), message.depth = 0 →
      (executeFully host message shared).1.success = true → ∀ address key : String,
        Storage.get (executeFully host message shared).1.storageChanges address key =
          lastWrite address key (effects host message shared).survivors) ∧
      ∀ (services : Services) (block : Block) (txIndex : ℕ) (tx : Transaction)
        (m m' : StateManager) (plan : Plan),
        prepare services block txIndex tx m = .ok plan m' →
        (∀ message, plan.message = some message →
          (execution services message m').1.success = false) →
        (left (processTransaction services block txIndex tx m)).db.contractStorage =
          m.db.contractStorage :=
  ⟨fun _ _ _ hdepth hsuccess => storageChanges_eq hdepth hsuccess,
    fun _ _ _ _ _ _ _ => failed_storage⟩

end Manager

def Sample.services : Services where
  host := Sample.host
  getBlock _ _ := .ok none
  sanctions := none

/-- A contract that stores 1 in its slot 0 and then fails. -/
def Sample.manager : StateManager where
  db :=
    { accounts := Finmap.singleton "cc" ⟨0, 0, "01", "", some "6001600055fe"⟩
      contractStorage := Finmap.singleton ("cc", zeroHex) (formatHex 64 7)
      receipts := ∅
      eventLogs := [] }
  qvm := .new

def Sample.block : Block := ⟨1, 0, none, "01", []⟩

/-- A call of a contract, with a limit of gas. -/
def Sample.callOf (address : String) (gasLimit : ℕ) : Transaction where
  txid := "02"
  outputs := []
  publicKey := ""
  txType := .contractCall
  toAddress := some address
  data := none
  gasLimit := gasLimit

/-- A message whose code has the writing contract called. -/
def Sample.writing : Message := { Sample.calling 0xf1 with isStatic := false }

/-- The called contract logs nothing but an empty text. -/
def Sample.loggerHost : Host :=
  { Sample.host with
    db := some { Sample.writer with getContractBytecode := fun _ _ => .ok (some "60006000a0") } }

theorem called_logs :
    (executeFully Sample.loggerHost Sample.writing .new).1.logs =
      keptLogs false (effects Sample.loggerHost Sample.writing .new) :=
  successful_logs _ _ _ (by decide) (by decide +kernel)

theorem Manager.failed_frames_sample :
    Storage.get (executeFully Sample.writerHost Sample.writing .new).1.storageChanges
        (formatHex 40 0xcc) zeroHex =
      lastWrite (formatHex 40 0xcc) zeroHex
        (effects Sample.writerHost Sample.writing .new).survivors ∧
      (left (processTransaction Sample.services Sample.block 0 (Sample.callOf "cc" 100000)
        Sample.manager)).db.contractStorage = Sample.manager.db.contractStorage :=
  ⟨failed_frames_leave_no_storage.1 _ _ _ rfl (by decide +kernel) _ _,
    failed_frames_leave_no_storage.2 Sample.services Sample.block 0 (Sample.callOf "cc" 100000)
      Sample.manager Sample.manager _ rfl (by
        rintro message ⟨⟩
        decide +kernel)⟩

/-! ## What a block changes -/

theorem lastWrite_append (address key : String) (es es' : List Effect) :
    lastWrite address key (es ++ es') =
      (lastWrite address key es').or (lastWrite address key es) := by
  induction es with
  | nil => exact Option.or_none.symm
  | cons e es ih =>
    rw [List.cons_append]
    cases e with
    | write address' key' value =>
      rw [lastWrite, ih, lastWrite, Option.or_assoc]
    | log entry => exact ih
    | start kind isStatic => exact ih

namespace Manager

/-- The lasting writes of transactions that are processed in turn, up to an exception. -/
def blockWrites (services : Services) (block : Block) :
    ℕ → List Transaction → StateManager → List Effect
  | _, [], _ => []
  | txIndex, tx :: txs, m =>
    lastingWrites services block txIndex tx m ++
      match processTransaction services block txIndex tx m with
      | .ok _ m' => blockWrites services block (txIndex + 1) txs m'
      | .error _ _ => []

theorem left_processTransactions (services : Services) (block : Block) (txIndex : ℕ)
    (tx : Transaction) (txs : List Transaction) (m : StateManager) :
    left (processTransactions services block txIndex (tx :: txs) m) =
      match processTransaction services block txIndex tx m with
      | .ok _ m' => left (processTransactions services block (txIndex + 1) txs m')
      | .error _ m' => m' := by
  rw [processTransactions]
  cases hrun : processTransaction services block txIndex tx m with
  | error fault m' => rw [bind_error hrun, left]
  | ok receipt m' =>
    rw [bind_ok hrun]
    dsimp only
    cases hrest : processTransactions services block (txIndex + 1) txs m' with
    | error fault m'' => rw [bind_error hrest, left]
    | ok receipts m'' =>
      rw [bind_ok hrest]
      rfl

/-- The slots after a block are those before it with the lasting writes of its transactions made in
order, by induction on them. -/
theorem processTransactions_storage (services : Services) (block : Block) (txIndex : ℕ)
    (txs : List Transaction) (m : StateManager) (address key : String) :
    (left (processTransactions services block txIndex txs m)).db.contractStorage.lookup
        (address, key) =
      (lastWrite address key (blockWrites services block txIndex txs m)).or
        (m.db.contractStorage.lookup (address, key)) := by
  induction txs generalizing txIndex m with
  | nil => rfl
  | cons tx txs ih =>
    have hfirst := processTransaction_storage services block txIndex tx m address key
    rw [left_processTransactions, blockWrites, lastWrite_append]
    cases hrun : processTransaction services block txIndex tx m with
    | error fault m' =>
      rw [hrun] at hfirst
      exact hfirst
    | ok receipt m' =>
      rw [hrun] at hfirst
      dsimp only
      rw [ih, Option.or_assoc, ← hfirst]
      rfl

/-- The nonce and the balance of an account. -/
def standing (t : Tables) (address : String) : ℕ × ℤ :=
  ((t.account address).nonce, (t.account address).balance)

theorem standing_insert (t : Tables) (address : String) (row : AccountRow) (address' : String) :
    standing { t with accounts := t.accounts.insert address row } address' =
      if address' = address then (row.nonce, row.balance) else standing t address' := by
  unfold standing Tables.account
  rw [StorageMap.lookup_insert_eq]
  split
  · rfl
  · rfl

theorem standing_storeContract (address : String) (result : ExecutionResult) (t : Tables) :
    standing (storeContract services address result t) = standing t := by
  unfold storeContract
  split
  · funext address'
    refine (standing_insert t address _ address').trans ?_
    split
    · next heq =>
      subst heq
      rfl
    · rfl
  · rfl

theorem standing_storeCall (result : ExecutionResult) (t : Tables) :
    standing (storeCall result t) = standing t := by
  unfold storeCall
  split
  · rfl
  · rfl

/-- Who has a plan executed. -/
def Plan.sender : Plan → Option String
  | .settled _ => none
  | .deploy fromAddr _ _ | .call fromAddr _ => some fromAddr

/-- The executions for an address that a transaction leads to. -/
def executions (services : Services) (block : Block) (txIndex : ℕ) (tx : Transaction)
    (m : StateManager) (address : String) : ℕ :=
  match prepare services block txIndex tx m with
  | .ok plan _ => if plan.sender = some address then 1 else 0
  | .error _ _ => 0

/-- The standing of the accounts after one more execution for an address. -/
def counted (fromAddr : String) (t : Tables) (address : String) : ℕ × ℤ :=
  ((standing t address).1 + (if fromAddr = address then 1 else 0), (standing t address).2)

theorem standing_updateAccount {t t' : Tables} {row : AccountRow} {fromAddr : String}
    (hrow : (row.nonce, row.balance) = standing t fromAddr) (hkeeps : standing t' = standing t) :
    standing (t'.updateAccount fromAddr { row with nonce := row.nonce + 1 }) =
      counted fromAddr t := by
  funext address
  refine (standing_insert t' fromAddr _ address).trans ?_
  unfold counted
  rw [hkeeps]
  by_cases haddress : fromAddr = address
  · subst haddress
    rw [if_pos rfl, if_pos rfl, ← hrow]
  · rw [if_neg (Ne.symm haddress), if_neg haddress]
    rfl

theorem standing_finishDeploy (fromAddr address : String) (result : ExecutionResult) :
    standing (left (finishDeploy services block txIndex tx fromAddr (m.db.account fromAddr) address
      result m)).db = counted fromAddr m.db :=
  standing_updateAccount rfl (standing_storeContract address result m.db)

theorem standing_finishCall (fromAddr toAddr : String) (result : ExecutionResult) :
    standing (left (finishCall services block txIndex tx fromAddr toAddr result m)).db =
      counted fromAddr m.db := by
  have hkeeps : standing ((storeCall result m.db).createAccount fromAddr) = standing m.db := by
    rw [← standing_storeCall result m.db]
    unfold standing
    rw [account_createAccount]
  exact standing_updateAccount (congrFun hkeeps fromAddr) hkeeps

/-- A plan that is finished adds one to the nonce of its sender and changes no balance. -/
theorem finish_standing {plan : Plan} (hplanned : Planned services tx m plan) :
    standing (left (finish services block txIndex tx plan m)).db =
      plan.sender.elim (standing m.db) fun fromAddr => counted fromAddr m.db := by
  cases hplanned with
  | settled receipt => rfl
  | @deploy fromAddr preimage hfrom hpreimage =>
    exact standing_finishDeploy (m := { m with qvm := _ }) fromAddr _ _
  | @call fromAddr code hfrom =>
    exact standing_finishCall (m := { m with qvm := _ }) fromAddr _ _

/-- The standing of the accounts after a transaction. -/
theorem processTransaction_standing (services : Services) (block : Block) (txIndex : ℕ)
    (tx : Transaction) (m : StateManager) (address : String) :
    standing (left (processTransaction services block txIndex tx m)).db address =
      ((standing m.db address).1 + executions services block txIndex tx m address,
        (standing m.db address).2) := by
  have hkeeps : Keeps untouched (prepare services block txIndex tx) := keeps_prepare
  have hstanding {m' : StateManager} (hrel : untouched.rel m m') :
      standing m'.db = standing m.db := by
    unfold standing
    rw [untouched_account hrel]
  unfold processTransaction executions
  cases hprepare : prepare services block txIndex tx m with
  | error fault m' =>
    rw [bind_error hprepare]
    exact congrFun (hstanding (hkeeps.of_error hprepare)) address
  | ok plan m' =>
    have hbefore := hstanding (hkeeps.of_ok hprepare)
    rw [bind_ok hprepare, finish_standing (prepare_planned hprepare), ← hbefore]
    cases hsender : plan.sender with
    | none => simp [hsender]
    | some fromAddr => simp [hsender, counted]

/-- The executions for an address among transactions that are processed in turn. -/
def blockExecutions (services : Services) (block : Block) :
    ℕ → List Transaction → StateManager → String → ℕ
  | _, [], _, _ => 0
  | txIndex, tx :: txs, m, address =>
    executions services block txIndex tx m address +
      match processTransaction services block txIndex tx m with
      | .ok _ m' => blockExecutions services block (txIndex + 1) txs m' address
      | .error _ _ => 0

/-- A block adds to each nonce the executions for its address and changes no balance, by induction
on the transactions. -/
theorem processTransactions_standing (services : Services) (block : Block) (txIndex : ℕ)
    (txs : List Transaction) (m : StateManager) (address : String) :
    standing (left (processTransactions services block txIndex txs m)).db address =
      ((standing m.db address).1 + blockExecutions services block txIndex txs m address,
        (standing m.db address).2) := by
  induction txs generalizing txIndex m with
  | nil => rfl
  | cons tx txs ih =>
    have hfirst := processTransaction_standing services block txIndex tx m address
    rw [left_processTransactions, blockExecutions]
    cases hrun : processTransaction services block txIndex tx m with
    | error fault m' =>
      rw [hrun] at hfirst
      exact hfirst
    | ok receipt m' =>
      rw [hrun] at hfirst
      have hstanding : standing m'.db address = _ := hfirst
      dsimp only
      rw [ih, hstanding, Nat.add_assoc]

/-- A contract that is to be created: by whom, with which nonce, and its address. -/
structure Creation where
  sender : String
  nonce : ℕ
  address : String

def created (services : Services) (block : Block) (txIndex : ℕ) (tx : Transaction)
    (m : StateManager) : Option Creation :=
  match prepare services block txIndex tx m with
  | .ok (.deploy fromAddr account message) _ => some ⟨fromAddr, account.nonce, message.address⟩
  | _ => none

/-- Those of transactions that are processed in turn. -/
def creations (services : Services) (block : Block) :
    ℕ → List Transaction → StateManager → List Creation
  | _, [], _ => []
  | txIndex, tx :: txs, m =>
    (created services block txIndex tx m).toList ++
      match processTransaction services block txIndex tx m with
      | .ok _ m' => creations services block (txIndex + 1) txs m'
      | .error _ _ => []

/-- A creation uses up the nonce of its sender, and its address is made from both. -/
structure Creation.Made (services : Services) (t : Tables) (c : Creation) : Prop where
  nonce : c.nonce = (standing t c.sender).1
  sender : ∃ tx, Manager.sender services tx = some c.sender
  address : ∃ preimage, createPreimage c.sender c.nonce = some preimage ∧
    c.address = hex ((services.host.crypto.keccak256 preimage).take 20)

theorem created_made {c : Creation} (h : created services block txIndex tx m = some c) :
    c.Made services m.db ∧ executions services block txIndex tx m c.sender = 1 := by
  unfold created at h
  split at h
  · next fromAddr account message m' hprepare =>
    cases h
    have hsame := untouched_account (keeps_prepare.of_ok hprepare)
    refine ⟨?_, ?_⟩
    · cases prepare_planned hprepare with
      | deploy hfrom hpreimage =>
        rw [hsame] at hpreimage ⊢
        exact ⟨rfl, ⟨tx, hfrom⟩, _, hpreimage, rfl⟩
    · rw [executions, hprepare]
      exact if_pos rfl
  · cases h

/-- No nonce is below the one that the account has at the start. -/
theorem nonce_le_of_mem {txs : List Transaction} {c : Creation}
    (h : c ∈ creations services block txIndex txs m) : (standing m.db c.sender).1 ≤ c.nonce := by
  induction txs generalizing txIndex m with
  | nil => cases h
  | cons tx txs ih =>
    obtain hfirst | hrest := List.mem_append.mp h
    · exact (created_made (Option.mem_toList.mp hfirst)).1.nonce.ge
    · have hstanding := processTransaction_standing services block txIndex tx m c.sender
      split at hrest
      · next receipt m' hrun =>
        rw [hrun] at hstanding
        have hnonce := congrArg Prod.fst hstanding
        have hle := ih hrest
        dsimp only [left] at hnonce
        omega
      · cases hrest

/-- What a creation is made of, whatever else the block does. -/
theorem made_of_mem {txs : List Transaction} {c : Creation}
    (h : c ∈ creations services block txIndex txs m) : ∃ t, c.Made services t := by
  induction txs generalizing txIndex m with
  | nil => cases h
  | cons tx txs ih =>
    obtain hfirst | hrest := List.mem_append.mp h
    · exact ⟨m.db, (created_made (Option.mem_toList.mp hfirst)).1⟩
    · split at hrest
      · exact ih hrest
      · cases hrest

/-- No two creations of a block use the same nonce of a sender. -/
theorem creations_pairwise (txs : List Transaction) :
    (creations services block txIndex txs m).Pairwise fun c c' =>
      c.sender = c'.sender → c.nonce ≠ c'.nonce := by
  induction txs generalizing txIndex m with
  | nil => exact .nil
  | cons tx txs ih =>
    rw [creations]
    refine List.pairwise_append.mpr ⟨?_, ?_, fun c hfirst c' hrest hsender => ?_⟩
    · cases created services block txIndex tx m with
      | none => exact .nil
      | some c => exact List.pairwise_singleton _ c
    · split
      · exact ih
      · exact .nil
    · obtain ⟨hmade, hexecuted⟩ := created_made (Option.mem_toList.mp hfirst)
      have hstanding := processTransaction_standing services block txIndex tx m c.sender
      split at hrest
      · next receipt m' hrun =>
        rw [hrun] at hstanding
        have hnonce := congrArg Prod.fst hstanding
        have hle := nonce_le_of_mem hrest
        have hown := hmade.nonce
        rw [← hsender] at hle
        dsimp only [left] at hnonce
        omega
      · cases hrest

/-- The tables of receipts and of logs. -/
def filed (t : Tables) : StorageMap String TransactionReceipt × List (String × ℕ × Log) :=
  (t.receipts, t.eventLogs)

theorem filed_storeReceipt {t t' : Tables} (h : filed t = filed t')
    (receipt : TransactionReceipt) :
    filed (t.storeReceipt receipt) = filed (t'.storeReceipt receipt) := by
  have hreceipts : t.receipts = t'.receipts := congrArg Prod.fst h
  have hlogs : t.eventLogs = t'.eventLogs := congrArg Prod.snd h
  simp only [filed, Tables.storeReceipt, hreceipts, hlogs]

/-- Nothing is filed. -/
def unfiled : Guarantee StateManager := .fixing fun m => filed m.db

theorem checkCompliance_filed {fromAddr : String} {receipt : Option TransactionReceipt}
    (h : checkCompliance services block txIndex tx fromAddr m = .ok receipt m') :
    filed m'.db = filed (receipt.elim m.db m.db.storeReceipt) := by
  unfold checkCompliance at h
  generalize services.sanctions = sanctions at h
  cases sanctions with
  | none =>
    cases h
    rfl
  | some sanctions =>
    obtain ⟨now, m₁, hmoment, hblocked⟩ := of_bind_ok h
    cases hmoment
    generalize blockedReason sanctions m.qvm.clock fromAddr = reason at hblocked
    cases reason with
    | none =>
      cases hblocked
      rfl
    | some reason =>
      obtain ⟨receipt', m₂, hstore, hreturn⟩ := of_bind_ok hblocked
      cases hreturn
      cases hstore
      rfl

/-- The receipt of a transaction that is not executed. -/
def Plan.receipt : Plan → Option TransactionReceipt
  | .settled receipt => receipt
  | .deploy _ _ _ | .call _ _ => none

theorem prepareDeploy_filed {plan : Plan}
    (h : prepareDeploy services block txIndex tx m = .ok plan m') :
    filed m'.db = filed (plan.receipt.elim m.db m.db.storeReceipt) := by
  obtain ⟨fromAddr, m₁, hsender, hscreened⟩ := of_bind_ok h
  obtain ⟨blocked, m₂, hcompliance, hrest⟩ := of_bind_ok hscreened
  have hfiled := checkCompliance_filed hcompliance
  have hsame : m₁ = m := (sender_of_ok hsender).2
  rw [hsame] at hfiled
  split at hrest
  · cases hrest
    exact hfiled
  · obtain ⟨_, m₃, hcreate, hread⟩ := of_bind_ok hrest
    obtain ⟨account, m₄, haccount, haddressed⟩ := of_bind_ok hread
    obtain ⟨address, m₅, haddress, hplan⟩ := of_bind_ok haddressed
    have hkept : unfiled.rel m₄ m₅ := (keeps_contractAddress _ _).of_ok haddress
    cases hcreate
    cases haccount
    cases hplan
    exact hkept.trans hfiled

theorem prepareCall_filed {plan : Plan}
    (h : prepareCall services block txIndex tx m = .ok plan m') :
    filed m'.db = filed (plan.receipt.elim m.db m.db.storeReceipt) := by
  obtain ⟨fromAddr, m₁, hsender, hscreened⟩ := of_bind_ok h
  obtain ⟨blocked, m₂, hcompliance, hrest⟩ := of_bind_ok hscreened
  have hfiled := checkCompliance_filed hcompliance
  have hsame : m₁ = m := (sender_of_ok hsender).2
  rw [hsame] at hfiled
  split at hrest
  · cases hrest
    exact hfiled
  · obtain ⟨code, m₃, hcode, hplan⟩ := of_bind_ok hrest
    have hkept : unfiled.rel m₂ m₃ := by
      refine Keeps.of_ok (.bind (fun m => unfiled.refl m) fun bytecode => ?_) hcode
      split
      · exact .pure _
      · exact keeps_parse _
    split at hplan
    · obtain ⟨receipt, m₄, hstore, hreturn⟩ := of_bind_ok hplan
      cases hreturn
      cases hstore
      exact filed_storeReceipt (hkept.trans hfiled) _
    · cases hplan
      exact hkept.trans hfiled

theorem prepare_filed {plan : Plan} (h : prepare services block txIndex tx m = .ok plan m') :
    filed m'.db = filed (plan.receipt.elim m.db m.db.storeReceipt) := by
  unfold prepare at h
  generalize tx.txType = txType at h
  cases txType
  case contractDeploy => exact prepareDeploy_filed h
  case contractCall => exact prepareCall_filed h
  all_goals
    cases h
    rfl

/-- A transaction files the receipt that it is answered with. -/
theorem processTransaction_filed {receipt : Option TransactionReceipt}
    (h : processTransaction services block txIndex tx m = .ok receipt m') :
    filed m'.db = filed (receipt.elim m.db m.db.storeReceipt) := by
  obtain ⟨plan, m₁, hprepare, hfinish⟩ := of_bind_ok h
  have hfiled := prepare_filed hprepare
  cases plan with
  | settled receipt' =>
    cases hfinish
    exact hfiled
  | deploy fromAddr account message =>
    cases hfinish
    refine filed_storeReceipt ?_ _
    have hcontract (address : String) (result : ExecutionResult) (t : Tables) :
        filed (storeContract services address result t) = filed t := by
      unfold storeContract
      split
      · rfl
      · rfl
    exact (hcontract _ _ _).trans hfiled
  | call fromAddr message =>
    cases hfinish
    refine filed_storeReceipt ?_ _
    have hcall (result : ExecutionResult) (t : Tables) : filed (storeCall result t) = filed t := by
      unfold storeCall
      split
      · rfl
      · rfl
    exact (hcall _ _).trans hfiled

/-- The rows of the logs of a receipt. -/
def logRows (receipt : TransactionReceipt) : List (String × ℕ × Log) :=
  receipt.logs.zipIdx.map fun e => (receipt.txid, e.2, e.1)

theorem lookup_storeReceipt (t : Tables) (receipt : TransactionReceipt) (txid : String) :
    (t.storeReceipt receipt).receipts.lookup txid =
      (t.receipts.lookup txid).or (if receipt.txid = txid then some receipt else none) := by
  unfold Tables.storeReceipt
  dsimp only
  split
  · next hmem =>
    split
    · next heq =>
      subst heq
      obtain ⟨first, hfirst⟩ := Finmap.mem_iff.mp hmem
      rw [hfirst]
      rfl
    · exact Option.or_none.symm
  · next hmem =>
    rw [StorageMap.lookup_insert_eq]
    by_cases heq : receipt.txid = txid
    · subst heq
      rw [if_pos rfl, if_pos rfl, Finmap.lookup_eq_none.mpr hmem]
      rfl
    · rw [if_neg (Ne.symm heq), if_neg heq]
      exact Option.or_none.symm

/-- The size of what `rlpEncodeLength` puts before so many bytes. -/
def prefixLength (n : ℕ) : ℕ := if n ≤ 55 then 1 else 1 + (bitLength n + 7) / 8

theorem length_rlpEncodeLength {data : Bytes} {offset : ℕ}
    (h : ¬(data.length = 1 ∧ offset = 0x80 ∧ (data.getD 0 0).toNat < 0x80)) :
    (rlpEncodeLength data offset).length = prefixLength data.length := by
  unfold rlpEncodeLength prefixLength
  rw [if_neg h]
  split
  · rfl
  · rw [List.length_cons, Evm.length_bigEndian, Nat.add_comm]

theorem prefixLength_mono : Monotone prefixLength := by
  intro a b h
  have hsize : bitLength a ≤ bitLength b := Nat.size_le_size h
  unfold prefixLength
  split
  · split
    · exact le_rfl
    · omega
  · rw [if_neg (by omega)]
    omega

/-- Bytes behind a length are told by the whole. -/
theorem prefixed_inj {data data' front front' : Bytes}
    (hfront : front.length = prefixLength data.length)
    (hfront' : front'.length = prefixLength data'.length)
    (h : front ++ data = front' ++ data') : data = data' := by
  have htotal := congrArg List.length h
  rw [List.length_append, List.length_append, hfront, hfront'] at htotal
  have hlength : data.length = data'.length := by
    rcases lt_trichotomy data.length data'.length with hlt | heq | hgt
    · have := prefixLength_mono hlt.le
      omega
    · exact heq
    · have := prefixLength_mono hgt.le
      omega
  exact (List.append_inj' h hlength).2

/-- A byte that encodes itself. -/
def Plain (data : Bytes) : Prop := data.length = 1 ∧ (data.getD 0 0).toNat < 0x80

theorem rlpEncodeBytes_plain {data : Bytes} (h : Plain data) : rlpEncodeBytes data = data :=
  if_pos h

theorem rlpEncodeBytes_prefixed {data : Bytes} (h : ¬Plain data) :
    rlpEncodeBytes data = rlpEncodeLength data 0x80 ++ data ∧
      (rlpEncodeLength data 0x80).length = prefixLength data.length :=
  ⟨if_neg h, length_rlpEncodeLength fun hplain => h ⟨hplain.1, hplain.2.2⟩⟩

theorem prefixLength_pos (n : ℕ) : 0 < prefixLength n := by
  unfold prefixLength
  split
  · exact Nat.one_pos
  · omega

/-- A plain byte is not the code of anything else. -/
theorem plain_ne_prefixed {data data' : Bytes} (h : Plain data) (h' : ¬Plain data') :
    data ≠ rlpEncodeBytes data' := by
  intro heq
  obtain ⟨hencode, hlength⟩ := rlpEncodeBytes_prefixed h'
  have htotal := congrArg List.length heq
  rw [hencode, List.length_append, hlength, h.1] at htotal
  have hpos := prefixLength_pos data'.length
  have hempty : data' = [] := List.length_eq_zero_iff.mp (by omega)
  subst hempty
  rw [heq] at h
  exact absurd h.2 (by decide)

theorem rlpEncodeBytes_inj {data data' : Bytes} (h : rlpEncodeBytes data = rlpEncodeBytes data') :
    data = data' := by
  by_cases hplain : Plain data
  · by_cases hplain' : Plain data'
    · rwa [rlpEncodeBytes_plain hplain, rlpEncodeBytes_plain hplain'] at h
    · rw [rlpEncodeBytes_plain hplain] at h
      exact absurd h (plain_ne_prefixed hplain hplain')
  · by_cases hplain' : Plain data'
    · rw [rlpEncodeBytes_plain hplain'] at h
      exact absurd h.symm (plain_ne_prefixed hplain' hplain)
    · obtain ⟨hencode, hlength⟩ := rlpEncodeBytes_prefixed hplain
      obtain ⟨hencode', hlength'⟩ := rlpEncodeBytes_prefixed hplain'
      rw [hencode, hencode'] at h
      exact prefixed_inj hlength hlength' h

theorem bigEndian_inj {a b : ℕ}
    (h : bigEndian ((bitLength a + 7) / 8) a = bigEndian ((bitLength b + 7) / 8) b) : a = b := by
  have hfits (n : ℕ) : n % 256 ^ ((bitLength n + 7) / 8) = n := by
    apply Nat.mod_eq_of_lt
    calc n < 2 ^ bitLength n := Nat.lt_size_self n
      _ ≤ 2 ^ (8 * ((bitLength n + 7) / 8)) := Nat.pow_le_pow_right (by decide) (by omega)
      _ = 256 ^ ((bitLength n + 7) / 8) := by
        rw [pow_mul]
        norm_num
  have hread := congrArg ofBigEndian h
  rwa [Evm.ofBigEndian_bigEndian, Evm.ofBigEndian_bigEndian, hfits, hfits] at hread

theorem rlpEncodeInteger_inj {a b : ℕ} (h : rlpEncodeInteger a = rlpEncodeInteger b) : a = b := by
  have hzero : bigEndian ((bitLength 0 + 7) / 8) 0 = [] := by decide
  have hencode (n : ℕ) : rlpEncodeInteger n =
      rlpEncodeBytes (bigEndian ((bitLength n + 7) / 8) n) := by
    unfold rlpEncodeInteger
    split
    · next heq => rw [heq, hzero]
    · rfl
  rw [hencode, hencode] at h
  exact bigEndian_inj (rlpEncodeBytes_inj h)

/-- What is hashed for an address tells the sender's bytes and the nonce. -/
theorem encoded_inj {sender sender' : Bytes} {nonce nonce' : ℕ} (hsender : sender.length = 20)
    (hsender' : sender'.length = 20)
    (h : rlpEncodeLength (rlpEncodeBytes sender ++ rlpEncodeInteger nonce) 0xc0 ++
        (rlpEncodeBytes sender ++ rlpEncodeInteger nonce) =
      rlpEncodeLength (rlpEncodeBytes sender' ++ rlpEncodeInteger nonce') 0xc0 ++
        (rlpEncodeBytes sender' ++ rlpEncodeInteger nonce')) :
    sender = sender' ∧ nonce = nonce' := by
  have hlist (data : Bytes) : (rlpEncodeLength data 0xc0).length = prefixLength data.length :=
    length_rlpEncodeLength (by simp)
  have hbytes {data : Bytes} (hdata : data.length = 20) : (rlpEncodeBytes data).length = 21 := by
    have hplain : ¬Plain data := by
      rintro ⟨hone, -⟩
      rw [hone] at hdata
      cases hdata
    obtain ⟨hencode, hlength⟩ := rlpEncodeBytes_prefixed hplain
    rw [hencode, List.length_append, hlength, hdata]
    rfl
  have hparts := prefixed_inj (hlist _) (hlist _) h
  obtain ⟨hfirst, hsecond⟩ := List.append_inj hparts ((hbytes hsender).trans (hbytes hsender').symm)
  exact ⟨rlpEncodeBytes_inj hfirst, rlpEncodeInteger_inj hsecond⟩

theorem hexValue_digitChar {n : ℕ} (h : n < 16) : hexValue (Nat.digitChar n) = some n := by
  interval_cases n <;> decide

theorem digitChar_notWhitespace {n : ℕ} (h : n < 16) : (Nat.digitChar n).isWhitespace = false := by
  interval_cases n <;> decide

/-- `bytes.fromhex` reads what `bytes.hex` writes. -/
theorem fromHex_hex (data : Bytes) : fromHex (hex data) = some data := by
  unfold fromHex hex
  rw [String.toList_ofList]
  induction data with
  | nil => rfl
  | cons b data ih =>
    have hhigh : b.toNat / 16 < 16 := by
      have := b.toNat_lt
      omega
    have hlow : b.toNat % 16 < 16 := Nat.mod_lt _ (by decide)
    have hbyte : UInt8.ofNat (16 * (b.toNat / 16) + b.toNat % 16) = b := by
      rw [Nat.div_add_mod]
      exact UInt8.ofNat_toNat
    rw [List.flatMap_cons]
    change readBytes (_ :: _ :: data.flatMap _) = _
    rw [readBytes, digitChar_notWhitespace hhigh, hexValue_digitChar hhigh,
      hexValue_digitChar hlow, ih]
    exact congrArg (fun b => some (b :: data)) hbyte

theorem toList_hex_take (data : Bytes) (n : ℕ) :
    (hex data).toList.take (2 * n) = (hex (data.take n)).toList := by
  unfold hex
  rw [String.toList_ofList, String.toList_ofList]
  induction data generalizing n with
  | nil => simp
  | cons b data ih =>
    cases n with
    | zero => rfl
    | succ n =>
      have hdouble : 2 * (n + 1) = 2 * n + 1 + 1 := by ring
      rw [hdouble, List.flatMap_cons, List.take_succ_cons, List.flatMap_cons]
      exact congrArg (_ :: _ :: ·) (ih n)

/-- A sender is the text of twenty bytes. -/
theorem sender_eq_hex (hsha : ∀ data, (services.host.crypto.sha256 data).length = 32)
    {fromAddr : String} (h : sender services tx = some fromAddr) :
    ∃ bytes : Bytes, bytes.length = 20 ∧ fromAddr = hex bytes := by
  unfold sender at h
  split at h
  · cases h
    exact ⟨zeros 20, rfl, by decide⟩
  · obtain ⟨key, -, rfl⟩ := Option.map_eq_some_iff.mp h
    refine ⟨(services.host.crypto.sha256 key).take 20, by simp [hsha], ?_⟩
    rw [← String.toList_inj, String.toList_ofList]
    exact toList_hex_take _ 20

theorem length_hex (data : Bytes) : (hex data).toList.length = 2 * data.length := by
  unfold hex
  rw [String.toList_ofList, List.length_flatMap]
  simp [Nat.mul_comm]

/-- What is hashed for the address of a contract of such a sender. -/
theorem createPreimage_hex {bytes : Bytes} (h : bytes.length = 20) (nonce : ℕ) :
    createPreimage (hex bytes) nonce =
      some (rlpEncodeLength (rlpEncodeBytes bytes ++ rlpEncodeInteger nonce) 0xc0 ++
        (rlpEncodeBytes bytes ++ rlpEncodeInteger nonce)) := by
  have hlength : (hex bytes).toList.length = 40 := by rw [length_hex, h]
  have hsame : String.ofList ((ljustZeros (hex bytes) 40).toList.take 40) = hex bytes := by
    rw [← String.toList_inj, String.toList_ofList, ljustZeros, String.toList_ofList, hlength,
      Nat.sub_self, List.replicate_zero, List.append_nil, List.take_of_length_le hlength.le]
  rw [createPreimage, hsame, fromHex_hex]
  rfl

end Manager

/-! ## The base fee -/

section BaseFee

variable {config : FeeConfig} {d : ℕ}

/-- A decrease by a part of the fee leaves what cannot be decreased any more. -/
theorem le_sub_div {fee part : ℕ} (hd : 2 ≤ d) (hpart : part ≤ fee) :
    min fee (d - 1) ≤ fee - part / d := by
  have hle : part / d ≤ fee / d := Nat.div_le_div_right hpart
  by_cases hsmall : fee < d
  · rw [Nat.div_eq_of_lt hsmall] at hle
    omega
  · have hmul : d * (fee / d) ≤ fee := Nat.mul_div_le fee d
    have hone : 1 ≤ fee / d := (Nat.one_le_div_iff (by omega)).mpr (Nat.le_of_not_lt hsmall)
    have hkept : (d - 1) * (fee / d) ≤ fee - fee / d := by
      rw [Nat.sub_mul, Nat.one_mul]
      omega
    have hfloor : d - 1 ≤ (d - 1) * (fee / d) := Nat.le_mul_of_pos_right _ hone
    omega

/-- One block lowers the fee to no less than the fee or one less than the denominator. -/
theorem le_calculateBaseFee (hd : 2 ≤ config.EIP1559_BASE_FEE_CHANGE_DENOMINATOR)
    (gasUsed gasLimit fee : ℕ) :
    min fee (config.EIP1559_BASE_FEE_CHANGE_DENOMINATOR - 1) ≤
      calculateBaseFee config gasUsed gasLimit fee := by
  unfold calculateBaseFee
  dsimp only
  split
  · exact min_le_left _ _
  · next htarget =>
    split
    · exact min_le_left _ _
    · split
      · exact (min_le_left _ _).trans (Nat.le_add_right _ _)
      · refine le_trans (le_sub_div hd ?_) (le_max_left _ _)
        apply Nat.div_le_of_le_mul
        rw [Nat.mul_comm]
        exact Nat.mul_le_mul_right _ (Nat.sub_le _ _)

/-- An empty block lowers a fee by a part of it. -/
theorem calculateBaseFee_idle {gasLimit : ℕ}
    (htarget : 0 < gasLimit / config.EIP1559_ELASTICITY_MULTIPLIER) (fee : ℕ) :
    calculateBaseFee config 0 gasLimit fee =
      max (fee - fee / config.EIP1559_BASE_FEE_CHANGE_DENOMINATOR) 1 := by
  unfold calculateBaseFee
  dsimp only
  rw [if_neg (by omega), if_neg (by omega), if_neg (by omega), Nat.sub_zero,
    Nat.mul_div_cancel _ htarget]

/-- Empty blocks bring the fee down to one less than the denominator and no further. -/
theorem updateBaseFees_idle (hd : 2 ≤ config.EIP1559_BASE_FEE_CHANGE_DENOMINATOR) (limits : List ℕ)
    (hlimits : ∀ l ∈ limits, 0 < l / config.EIP1559_ELASTICITY_MULTIPLIER) {fee : ℕ}
    (hfee : 0 < fee)
    (henough : fee ≤ limits.length + (config.EIP1559_BASE_FEE_CHANGE_DENOMINATOR - 1)) :
    updateBaseFees config fee (limits.map fun l => (0, l)) =
      min fee (config.EIP1559_BASE_FEE_CHANGE_DENOMINATOR - 1) := by
  induction limits generalizing fee with
  | nil =>
    rw [List.length_nil, Nat.zero_add] at henough
    exact (min_eq_left henough).symm
  | cons l limits ih =>
    obtain ⟨htarget, hrest⟩ := List.forall_mem_cons.mp hlimits
    have hstep := calculateBaseFee_idle htarget fee
    rw [List.length_cons] at henough
    change updateBaseFees config (calculateBaseFee config 0 l fee) _ = _
    by_cases hsmall : fee < config.EIP1559_BASE_FEE_CHANGE_DENOMINATOR
    · rw [Nat.div_eq_of_lt hsmall, Nat.sub_zero, max_eq_left hfee] at hstep
      rw [hstep]
      exact ih hrest hfee (by omega)
    · have hpart : 1 ≤ fee / config.EIP1559_BASE_FEE_CHANGE_DENOMINATOR :=
        (Nat.one_le_div_iff (by omega)).mpr (Nat.le_of_not_lt hsmall)
      have hkept := le_sub_div hd (le_refl fee)
      rw [ih hrest (by omega) (by omega), hstep]
      omega

/-- The fee never falls below where it started or one less than the denominator, which is where
empty blocks bring it. -/
theorem updateBaseFees_floor (config : FeeConfig)
    (hd : 2 ≤ config.EIP1559_BASE_FEE_CHANGE_DENOMINATOR) (fee : ℕ) (hfee : 0 < fee) :
    (∀ blocks, min fee (config.EIP1559_BASE_FEE_CHANGE_DENOMINATOR - 1) ≤
        updateBaseFees config fee blocks) ∧
      ∀ limits : List ℕ, (∀ l ∈ limits, 0 < l / config.EIP1559_ELASTICITY_MULTIPLIER) →
        fee ≤ limits.length → updateBaseFees config fee (limits.map fun l => (0, l)) =
          min fee (config.EIP1559_BASE_FEE_CHANGE_DENOMINATOR - 1) := by
  refine ⟨fun blocks => ?_, fun limits hlimits henough =>
    updateBaseFees_idle hd limits hlimits hfee (henough.trans (Nat.le_add_right _ _))⟩
  induction blocks generalizing fee with
  | nil => exact min_le_left _ _
  | cons block blocks ih =>
    have hstep := le_calculateBaseFee hd block.1 block.2 fee
    have hrest := ih (calculateBaseFee config block.1 block.2 fee) (by omega)
    refine le_trans ?_ hrest
    omega

/-- The settings as they are without an environment. -/
def Sample.feeConfig : FeeConfig := ⟨2, 8⟩

theorem baseFee_floor_sample :
    (∀ blocks, min 9 (8 - 1) ≤ updateBaseFees Sample.feeConfig 9 blocks) ∧
      ∀ limits : List ℕ, (∀ l ∈ limits, 0 < l / 2) → 9 ≤ limits.length →
        updateBaseFees Sample.feeConfig 9 (limits.map fun l => (0, l)) = min 9 (8 - 1) :=
  updateBaseFees_floor Sample.feeConfig (by decide) 9 (by decide)

end BaseFee

end Qubitcoin.PythonVm
