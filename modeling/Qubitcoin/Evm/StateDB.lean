import Qubitcoin.Evm.Words

/-! `pkg/state/statedb.go`: accounts, code and storage with a journal of undo
records. -/

namespace Qubitcoin.Evm

structure Account where
  address : Address
  balance : Word
  nonce : U64
  codeHash : Word
  root : Word
  deriving DecidableEq

/-- `&Account{Address: addr}`. -/
def Account.new (addr : Address) : Account where
  address := addr
  balance := 0
  nonce := 0
  codeHash := 0
  root := 0

inductive JournalEntry
  | storage (addr : Address) (key prevVal : Word)
  | balance (addr : Address) (prevAcc : Account)
  | nonce (addr : Address) (prevAcc : Account)
  | code (addr : Address) (prevAcc : Account)
  | create (addr : Address)
  deriving DecidableEq

/-- A snapshot is the length of the journal when it was taken. -/
structure StateDB where
  accounts : StorageMap Address Account
  codes : StorageMap Word Bytes
  storage : StorageMap Address (StorageMap Word Word)
  blockHashes : StorageMap U64 Word
  snapshots : List Nat
  journal : List JournalEntry

namespace StateDB

/-- `NewStateDB`. -/
def new : StateDB where
  accounts := ∅
  codes := ∅
  storage := ∅
  blockHashes := ∅
  snapshots := []
  journal := []

def getStorage (s : StateDB) (addr : Address) (key : Word) : Word :=
  (s.storage.value ∅ addr).value 0 key

def setStorage (s : StateDB) (addr : Address) (key val : Word) : StateDB :=
  { s with
    journal := s.journal ++ [.storage addr key (s.getStorage addr key)]
    storage := s.storage.insert addr ((s.storage.value ∅ addr).insert key val) }

def getBalance (s : StateDB) (addr : Address) : Int :=
  match s.accounts.lookup addr with
  | none => 0
  | some acc => acc.balance.toNat

def getNonce (s : StateDB) (addr : Address) : U64 :=
  match s.accounts.lookup addr with
  | none => 0
  | some acc => acc.nonce

def getCodeHash (s : StateDB) (addr : Address) : Word :=
  match s.accounts.lookup addr with
  | none => 0
  | some acc => acc.codeHash

def getCode (s : StateDB) (addr : Address) : Bytes :=
  match s.accounts.lookup addr with
  | none => []
  | some acc => s.codes.value [] acc.codeHash

def getCodeSize (s : StateDB) (addr : Address) : U64 := len64 (s.getCode addr)

def getBlockHash (s : StateDB) (num : U64) : Word := s.blockHashes.value 0 num

def setBlockHash (s : StateDB) (num : U64) (hash : Word) : StateDB :=
  { s with blockHashes := s.blockHashes.insert num hash }

def accountExists (s : StateDB) (addr : Address) : Bool := (s.accounts.lookup addr).isSome

/-- The account that `getOrCreateAccount` puts into the map and returns. -/
def getOrCreateAccount (s : StateDB) (addr : Address) : Account :=
  (s.accounts.lookup addr).getD (Account.new addr)

/-- What the three setters share: the account is created if need be before the
journal records it, so undoing does not remove it again. -/
def setAccount (s : StateDB) (addr : Address) (entry : Address → Account → JournalEntry)
    (change : Account → Account) : StateDB :=
  let acc := s.getOrCreateAccount addr
  { s with
    journal := s.journal ++ [entry addr acc]
    accounts := s.accounts.insert addr (change acc) }

def setBalance (s : StateDB) (addr : Address) (balance : Int) : StateDB :=
  s.setAccount addr .balance fun acc => { acc with balance := safeFillBytes balance }

def setNonce (s : StateDB) (addr : Address) (nonce : U64) : StateDB :=
  s.setAccount addr .nonce fun acc => { acc with nonce := nonce }

/-- The code is filed under its hash; `keccak256` is the imported hash function. -/
def setCode (keccak256 : Bytes → Word) (s : StateDB) (addr : Address) (code : Bytes) :
    StateDB :=
  let hash := keccak256 code
  let s := s.setAccount addr .code fun acc => { acc with codeHash := hash }
  { s with codes := s.codes.insert hash code }

def createAccount (s : StateDB) (addr : Address) : StateDB :=
  { s with
    journal := s.journal ++ [.create addr]
    accounts := s.accounts.insert addr (Account.new addr) }

def snapshot (s : StateDB) : StateDB :=
  { s with snapshots := s.snapshots ++ [s.journal.length] }

/-- The identifier that `Snapshot` returns. -/
def snapshotId (s : StateDB) : Nat := s.snapshots.length

def undo : JournalEntry → StateDB → StateDB
  | .storage addr key prevVal, s =>
    match s.storage.lookup addr with
    | none => s
    | some slots =>
      { s with
        storage := s.storage.insert addr
          (if prevVal = 0 then slots.erase key else slots.insert key prevVal) }
  | .balance addr prevAcc, s | .nonce addr prevAcc, s | .code addr prevAcc, s =>
    { s with accounts := s.accounts.insert addr prevAcc }
  | .create addr, s =>
    { s with accounts := s.accounts.erase addr, storage := s.storage.erase addr }

/-- The newest entries are undone first; an unknown identifier is ignored. -/
def revertToSnapshot (s : StateDB) (id : Nat) : StateDB :=
  match s.snapshots[id]? with
  | none => s
  | some journalLen =>
    { (s.journal.drop journalLen).foldr undo s with
      journal := s.journal.take journalLen
      snapshots := s.snapshots.take id }

def commit (s : StateDB) : StateDB := { s with journal := [], snapshots := [] }

def accountCount (s : StateDB) : Nat := Multiset.card s.accounts.entries

/-- The addresses of the accounts as numbers, in ascending order of their bytes. -/
def sortedAddrs (s : StateDB) : List Nat := (s.accounts.keys.image BitVec.toNat).sort

/-- `big.NewInt(int64(nonce)).Bytes()`: the magnitude, without leading zeros. -/
def nonceBytes (nonce : U64) : Bytes := (bigEndian 8 nonce.toInt.natAbs).dropWhile (· = 0)

def accountBytes (addr : Address) (acc : Account) : Bytes :=
  addressBytes addr ++ wordBytes acc.balance ++ nonceBytes acc.nonce ++ wordBytes acc.codeHash ++
    wordBytes acc.root

/-- What `ComputeStateRoot` writes to the hash. -/
def stateRootInput (s : StateDB) : Bytes :=
  s.sortedAddrs.flatMap fun n =>
    let addr := BitVec.ofNat 160 n
    match s.accounts.lookup addr with
    | none => []
    | some acc => accountBytes addr acc

def computeStateRoot (keccak256 : Bytes → Word) (s : StateDB) : Word :=
  keccak256 s.stateRootInput

end StateDB

/-- A call of one of the methods that change the state. -/
inductive StateOp
  | setStorage (addr : Address) (key val : Word)
  | setBalance (addr : Address) (balance : Int)
  | setNonce (addr : Address) (nonce : U64)
  | setCode (addr : Address) (code : Bytes)
  | setBlockHash (num : U64) (hash : Word)
  | createAccount (addr : Address)
  | snapshot
  | revertToSnapshot (id : Nat)
  | commit

def StateOp.apply (keccak256 : Bytes → Word) (s : StateDB) : StateOp → StateDB
  | .setStorage addr key val => s.setStorage addr key val
  | .setBalance addr balance => s.setBalance addr balance
  | .setNonce addr nonce => s.setNonce addr nonce
  | .setCode addr code => s.setCode keccak256 addr code
  | .setBlockHash num hash => s.setBlockHash num hash
  | .createAccount addr => s.createAccount addr
  | .snapshot => s.snapshot
  | .revertToSnapshot id => s.revertToSnapshot id
  | .commit => s.commit

end Qubitcoin.Evm
