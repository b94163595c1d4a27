import Qubitcoin.Evm.Words
import Qubitcoin.Library.Solidity
import Qubitcoin.Library.StorageMap

/-! The reserve pool: the assets it has registered, and what it says it holds of each. -/

namespace Qubitcoin.Contracts

open Solidity Checked
open Evm (Address)

structure AssetInfo where
  symbol : String := ""
  decimals : Nat := 0
  active : Bool := false
  totalDeposited : Nat := 0
  totalWithdrawn : Nat := 0
  currentBalance : Nat := 0

structure QUSDReserve where
  owner : Address
  governance : Address
  debtLedger : Address := 0
  oracleAddress : Address
  assets : StorageMap Address AssetInfo := ∅
  assetList : List Address := []
  assetOracles : StorageMap Address Address := ∅
  totalReserveValueUSD : Nat := 0
  paused : Bool := false

namespace QUSDReserve

def initial (sender governance oracle : Address) : QUSDReserve where
  owner := sender
  governance := governance
  oracleAddress := oracle

variable (self : QUSDReserve)

def asset (a : Address) : AssetInfo := self.assets.value {} a

def assetOracle (a : Address) : Address := self.assetOracles.value 0 a

def setAsset (a : Address) (info : AssetInfo) : QUSDReserve :=
  { self with assets := self.assets.insert a info }

def onlyOwner (sender : Address) : Except String Unit :=
  ensure (sender = self.owner) "QUSDReserve: not owner"

def onlyGovernance (sender : Address) : Except String Unit :=
  ensure (sender = self.governance) "QUSDReserve: not governance"

def whenNotPaused : Except String Unit := ensure (self.paused = false) "QUSDReserve: paused"

def registerAsset (sender a : Address) (symbol : String) (assetDecimals : BitVec 8) :
    Except String QUSDReserve := do
  self.onlyOwner sender
  ensure ((self.asset a).active = false) "QUSDReserve: already registered"
  .ok { self.setAsset a { symbol := symbol, decimals := assetDecimals.toNat, active := true } with
    assetList := self.assetList ++ [a] }

def deactivateAsset (sender a : Address) : Except String QUSDReserve := do
  self.onlyOwner sender
  ensure ((self.asset a).active = true) "QUSDReserve: not active"
  .ok (self.setAsset a { self.asset a with active := false })

/-- `deposit` up to the call to the debt ledger.  `transferred` is what the token answers. -/
def deposit (a : Address) (amount usdValue : Nat) (transferred : Bool) :
    Except String QUSDReserve := do
  self.whenNotPaused
  ensure ((self.asset a).active = true) "QUSDReserve: asset not registered"
  ensure (0 < amount) "QUSDReserve: zero amount"
  ensure (transferred = true) "QUSDReserve: transfer failed"
  let totalDeposited ← add (self.asset a).totalDeposited amount
  let currentBalance ← add (self.asset a).currentBalance amount
  let totalReserveValueUSD ← add self.totalReserveValueUSD usdValue
  .ok { self.setAsset a
          { self.asset a with totalDeposited := totalDeposited, currentBalance := currentBalance } with
    totalReserveValueUSD := totalReserveValueUSD }

def withdraw (sender a recipient : Address) (amount : Nat) (transferred : Bool) :
    Except String QUSDReserve := do
  self.onlyGovernance sender
  self.whenNotPaused
  ensure (amount ≤ (self.asset a).currentBalance) "QUSDReserve: insufficient"
  ensure (recipient ≠ 0) "QUSDReserve: zero recipient"
  let currentBalance ← sub (self.asset a).currentBalance amount
  let totalWithdrawn ← add (self.asset a).totalWithdrawn amount
  ensure (transferred = true) "QUSDReserve: transfer failed"
  .ok (self.setAsset a
    { self.asset a with currentBalance := currentBalance, totalWithdrawn := totalWithdrawn })

def revalue (sender : Address) (newTotalUSD : Nat) : Except String QUSDReserve := do
  self.onlyOwner sender
  .ok { self with totalReserveValueUSD := newTotalUSD }

def setAssetOracle (sender a oracle : Address) : Except String QUSDReserve := do
  self.onlyOwner sender
  ensure ((self.asset a).active = true) "QUSDReserve: asset not registered"
  ensure (oracle ≠ 0) "QUSDReserve: zero oracle address"
  .ok { self with assetOracles := self.assetOracles.insert a oracle }

def scale (decimals : Nat) : Except String Nat :=
  if 10 ^ decimals < 2 ^ 256 then .ok (10 ^ decimals) else .error "Panic(0x11)"

/-- One round of the loop over the assets.  `prices` is what the oracles answer, if they do. -/
def addValue (prices : Address → Option Nat) (total : Nat) (a : Address) : Except String Nat :=
  if (self.asset a).active = false ∨ self.assetOracle a = 0 then .ok total
  else match prices (self.assetOracle a) with
    | none => .ok total
    | some price =>
      if 0 < price then do
        let scaled ← mul (self.asset a).currentBalance price
        let base ← scale (self.asset a).decimals
        let value ← div scaled base
        add total value
      else .ok total

def computeTotalReserveValueUSD (prices : Address → Option Nat) : Except String QUSDReserve := do
  let total ← self.assetList.foldlM (self.addValue prices) 0
  .ok { self with totalReserveValueUSD := total }

def setGovernance (sender newGov : Address) : Except String QUSDReserve := do
  self.onlyOwner sender
  .ok { self with governance := newGov }

def setOracle (sender newOracle : Address) : Except String QUSDReserve := do
  self.onlyOwner sender
  .ok { self with oracleAddress := newOracle }

def setDebtLedger (sender debtLedger : Address) : Except String QUSDReserve := do
  self.onlyOwner sender
  .ok { self with debtLedger := debtLedger }

def setPaused (sender : Address) (paused : Bool) : Except String QUSDReserve := do
  self.onlyOwner sender
  .ok { self with paused := paused }

/-- The calls that make no call to the debt ledger. -/
inductive Call
  | registerAsset (a : Address) (symbol : String) (assetDecimals : BitVec 8)
  | deactivateAsset (a : Address)
  | withdraw (a recipient : Address) (amount : Nat) (transferred : Bool)
  | revalue (newTotalUSD : Nat)
  | setAssetOracle (a oracle : Address)
  | computeTotalReserveValueUSD (prices : Address → Option Nat)
  | setGovernance (newGov : Address)
  | setOracle (newOracle : Address)
  | setDebtLedger (debtLedger : Address)
  | setPaused (paused : Bool)

def call (sender : Address) : Call → Except String QUSDReserve
  | .registerAsset a symbol assetDecimals => self.registerAsset sender a symbol assetDecimals
  | .deactivateAsset a => self.deactivateAsset sender a
  | .withdraw a recipient amount transferred => self.withdraw sender a recipient amount transferred
  | .revalue newTotalUSD => self.revalue sender newTotalUSD
  | .setAssetOracle a oracle => self.setAssetOracle sender a oracle
  | .computeTotalReserveValueUSD prices => self.computeTotalReserveValueUSD prices
  | .setGovernance newGov => self.setGovernance sender newGov
  | .setOracle newOracle => self.setOracle sender newOracle
  | .setDebtLedger debtLedger => self.setDebtLedger sender debtLedger
  | .setPaused paused => self.setPaused sender paused

/-- What `amount` of an asset is worth at a price; an asset without an oracle has none. -/
def worth (a : Address) (amount price : Nat) : ℚ :=
  if self.assetOracle a ≠ 0 then amount * price / 10 ^ (self.asset a).decimals else 0

variable {self}

theorem worth_nonneg (a : Address) (amount price : Nat) : 0 ≤ self.worth a amount price := by
  unfold worth
  split
  · positivity
  · exact le_refl _

end QUSDReserve

end Qubitcoin.Contracts
