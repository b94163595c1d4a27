import Qubitcoin.Substrate.Primitives

namespace Qubitcoin.Substrate.Dilithium

abbrev PublicKey := BoundedVec UInt8 maxDilithiumPkSize
abbrev Signature := BoundedVec UInt8 maxDilithiumSigSize

inductive Error
  | invalidPublicKey | keyAlreadyRegistered | invalidSignature | keyNotFound | keyRevoked
  deriving DecidableEq

structure Storage where
  publicKeys : StorageMap Address PublicKey
  totalKeys : U64
  revokedKeys : StorageMap Address Bool

def Storage.genesis : Storage where
  publicKeys := ∅
  totalKeys := 0
  revokedKeys := ∅

def dilithium5PkSize : Nat := 2592
def dilithium5SigSize : Nat := 4627

variable (host : Host)

def deriveAddress (publicKey : Bytes) : Address := ⟨host.sha2_256 publicKey⟩

/-- Sizes are checked before the signature itself; an empty message never verifies. -/
def verifySignature (publicKey message signature : Bytes) : Bool :=
  if publicKey.length ≠ dilithium5PkSize then false
  else if signature.length ≠ dilithium5SigSize then false
  else if message.isEmpty then false
  else host.dilithium5Verify publicKey message signature

def getPublicKey (s : Storage) (address : Address) : Option PublicKey :=
  s.publicKeys.lookup address

/-- The checks and writes shared by the two registration calls. -/
def storeKey (s : Storage) (address : Address) (publicKey : PublicKey) :
    Except Error Storage := do
  ensure (address ∉ s.publicKeys) .keyAlreadyRegistered
  ensure (s.revokedKeys.value false address = false) .keyRevoked
  return { s with
    publicKeys := s.publicKeys.insert address publicKey
    totalKeys := s.totalKeys.saturatingAdd 1 }

def registerKey (s : Storage) (publicKey : PublicKey) : Except Error Storage := do
  ensure (publicKey.val.length = dilithium5PkSize) .invalidPublicKey
  storeKey s (deriveAddress host publicKey.val) publicKey

def sudoRegisterKeyForAddress (s : Storage) (address : Address) (publicKey : PublicKey) :
    Except Error Storage := do
  ensure (publicKey.val.length = dilithium5PkSize) .invalidPublicKey
  storeKey s address publicKey

def revocationMsg : Bytes := ascii "QUBITCOIN_KEY_REVOCATION"

def revokeKey (s : Storage) (address : Address) (revocationSig : Signature) :
    Except Error Storage := do
  let pk ← (s.publicKeys.lookup address).okOr .keyNotFound
  ensure (s.revokedKeys.value false address = false) .keyRevoked
  ensure (verifySignature host pk.val revocationMsg revocationSig.val = true) .invalidSignature
  return { s with
    publicKeys := s.publicKeys.erase address
    revokedKeys := s.revokedKeys.insert address true
    totalKeys := s.totalKeys.saturatingSub 1 }

end Qubitcoin.Substrate.Dilithium
