import Qubitcoin.Library.WriteLog
import Qubitcoin.Substrate.Primitives

/-! The part of `pallet-qbc-utxo`'s storage that every pallet moving funds writes
to: the UTXO set, the caches kept beside it and, in place of the events, the log
of the writes to the set.  No function of the source reads the log. -/

namespace Qubitcoin.Substrate

open WriteLog (Write replay Linear)

structure Ledger where
  utxoSet : StorageMap OutPoint Utxo
  balances : StorageMap Address QbcBalance
  utxoCount : U64
  writes : List (Write OutPoint Utxo)

namespace Ledger

def empty : Ledger where
  utxoSet := ∅
  balances := ∅
  utxoCount := 0
  writes := []

def balanceOf (l : Ledger) (a : Address) : QbcBalance := l.balances.value 0 a

def put (l : Ledger) (utxo : Utxo) : Ledger where
  utxoSet := l.utxoSet.insert utxo.key utxo
  balances := l.balances.insert utxo.address
    ((l.balanceOf utxo.address).saturatingAdd utxo.amount)
  utxoCount := l.utxoCount.saturatingAdd 1
  writes := l.writes ++ [.insert utxo.key utxo]

def drop (l : Ledger) (key : OutPoint) (utxo : Utxo) : Ledger where
  utxoSet := l.utxoSet.erase key
  balances := l.balances.insert utxo.address
    ((l.balanceOf utxo.address).saturatingSub utxo.amount)
  utxoCount := l.utxoCount.saturatingSub 1
  writes := l.writes ++ [.remove key utxo]

def putAll (l : Ledger) (utxos : List Utxo) : Ledger := utxos.foldl put l

def dropAll (l : Ledger) (spent : List (OutPoint × Utxo)) : Ledger :=
  spent.foldl (fun l p => l.drop p.1 p.2) l

@[simp] theorem putAll_nil (l : Ledger) : l.putAll [] = l := rfl

@[simp] theorem putAll_cons (l : Ledger) (u : Utxo) (us : List Utxo) :
    l.putAll (u :: us) = (l.put u).putAll us := rfl

@[simp] theorem dropAll_nil (l : Ledger) : l.dropAll [] = l := rfl

@[simp] theorem dropAll_cons (l : Ledger) (p : OutPoint × Utxo) (ps : List (OutPoint × Utxo)) :
    l.dropAll (p :: ps) = (l.drop p.1 p.2).dropAll ps := rfl

def worth (utxos : List Utxo) : Nat := (utxos.map fun u => u.amount.toNat).sum

def total (l : Ledger) : Nat := l.utxoSet.weigh fun _ u => u.amount.toNat

/-- The amounts held at one address. -/
def holdings (l : Ledger) (a : Address) : Nat :=
  l.utxoSet.weigh fun _ u => if u.address = a then u.amount.toNat else 0

def entryCount (l : Ledger) : Nat := Multiset.card l.utxoSet.entries

/-- Every entry of `spent` is in the set, under its own key. -/
structure Holds (l : Ledger) (spent : List (OutPoint × Utxo)) : Prop where
  nodup : (spent.map Prod.fst).Nodup
  lookup : ∀ p ∈ spent, l.utxoSet.lookup p.1 = some p.2

/-- The keys of `utxos` are distinct and new to the log. -/
structure Fresh (l : Ledger) (utxos : List Utxo) : Prop where
  nodup : (utxos.map Utxo.key).Nodup
  unwritten : ∀ u ∈ utxos, ∀ w ∈ l.writes, w.key ≠ u.key

/-- The log is linear and tells how the set came about. -/
structure Logged (l : Ledger) : Prop where
  linear : Linear l.writes
  replay_writes : replay l.writes = l.utxoSet

/-- The caches say what they are kept for. -/
structure Exact (l : Ledger) : Prop where
  balance : ∀ a, (l.balanceOf a).toNat = l.holdings a
  count : l.utxoCount.toNat = l.entryCount

end Ledger

end Qubitcoin.Substrate
