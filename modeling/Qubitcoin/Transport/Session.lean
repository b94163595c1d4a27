import Qubitcoin.Library.Aead
import Qubitcoin.Library.Bytes

/-! `SecureSession`: the encrypted session that follows the handshake.  The counters of
nonces stay below `2 ^ 32` and are `Nat` here; the statistics wrap. -/

namespace Qubitcoin.Transport

abbrev Key := BitVec 256

abbrev Sealed := Aead.Sealed Key Bytes Bytes Bytes

/-- HKDF-SHA256 of a session key under an info string, and the ciphertext with its tag
that AES-256-GCM makes. -/
structure Crypto where
  hkdfExpand : Key → Bytes → Key
  aesGcm : Key → Bytes → Bytes → Bytes

def nonceSize : Nat := 12
def tagSize : Nat := 16
def maxMessageSize : Nat := 65536
def nonceOverflowThreshold : Nat := 2 ^ 32 - 1

inductive Error
  | invalidMessageType (value : UInt8)
  | encapsulation (reason : String)
  | decapsulation (reason : String)
  | decryption
  | keyDerivation (reason : String)
  | handshake (reason : String)
  | sessionNotEstablished
  | messageTooLarge (length max : Nat)
  | unexpectedMessage (expected got : String)
  | versionMismatch (localVersion remoteVersion : UInt8)
  | nonceOverflow
  deriving DecidableEq

inductive MessageType
  | kyberPubKey | kyberCiphertext | handshakeComplete | encryptedData | rekey
  deriving DecidableEq

def MessageType.toByte : MessageType → UInt8
  | .kyberPubKey => 0x01
  | .kyberCiphertext => 0x02
  | .handshakeComplete => 0x03
  | .encryptedData => 0x10
  | .rekey => 0x20

def MessageType.tryFrom (value : UInt8) : Except Error MessageType :=
  if value = 0x01 then .ok .kyberPubKey
  else if value = 0x02 then .ok .kyberCiphertext
  else if value = 0x03 then .ok .handshakeComplete
  else if value = 0x10 then .ok .encryptedData
  else if value = 0x20 then .ok .rekey
  else .error (.invalidMessageType value)

def MessageType.debug : MessageType → String
  | .kyberPubKey => "KyberPubKey"
  | .kyberCiphertext => "KyberCiphertext"
  | .handshakeComplete => "HandshakeComplete"
  | .encryptedData => "EncryptedData"
  | .rekey => "Rekey"

def asciiBytes (text : String) : Bytes := text.toList.map fun c => UInt8.ofNat c.toNat

def initToResp : Bytes := asciiBytes "qubitcoin-session-init-to-resp-v1"
def respToInit : Bytes := asciiBytes "qubitcoin-session-resp-to-init-v1"

/-- Four zero bytes, then the counter as eight bytes in big-endian order. -/
def buildNonce (counter : Nat) : Bytes := List.replicate 4 0 ++ (Bytes.le 8 counter).reverse

structure SecureSession where
  sendCipher : Key
  recvCipher : Key
  sendNonce : Nat
  recvNonce : Nat
  bytesEncrypted : BitVec 64
  bytesDecrypted : BitVec 64
  messagesSent : BitVec 64
  messagesReceived : BitVec 64

variable (crypto : Crypto)

/-- The keys to send and to receive with. -/
def deriveDirectionalKeys (sessionKey : Key) (isInitiator : Bool) : Key × Key :=
  if isInitiator then
    (crypto.hkdfExpand sessionKey initToResp, crypto.hkdfExpand sessionKey respToInit)
  else (crypto.hkdfExpand sessionKey respToInit, crypto.hkdfExpand sessionKey initToResp)

namespace SecureSession

def new (sessionKey : Key) (isInitiator : Bool) : SecureSession where
  sendCipher := (deriveDirectionalKeys crypto sessionKey isInitiator).1
  recvCipher := (deriveDirectionalKeys crypto sessionKey isInitiator).2
  sendNonce := 0
  recvNonce := 0
  bytesEncrypted := 0
  bytesDecrypted := 0
  messagesSent := 0
  messagesReceived := 0

/-- What the cipher seals for the next message. -/
def sealing (s : SecureSession) (plaintext : Bytes) : Sealed where
  key := s.sendCipher
  nonce := buildNonce s.sendNonce
  plaintext := plaintext
  ciphertext := crypto.aesGcm s.sendCipher (buildNonce s.sendNonce) plaintext

def encrypt (s : SecureSession) (plaintext : Bytes) : Except Error Bytes × SecureSession :=
  if maxMessageSize < plaintext.length then
    (.error (.messageTooLarge plaintext.length maxMessageSize), s)
  else if nonceOverflowThreshold ≤ s.sendNonce then (.error .nonceOverflow, s)
  else
    let sealed := s.sealing crypto plaintext
    (.ok (MessageType.encryptedData.toByte :: (sealed.nonce ++ sealed.ciphertext)),
      { s with
        sendNonce := s.sendNonce + 1
        bytesEncrypted := s.bytesEncrypted + BitVec.ofNat 64 plaintext.length
        messagesSent := s.messagesSent + 1 })

/-- `record` is what has been sealed anywhere so far. -/
def decrypt (record : List Sealed) (s : SecureSession) (frame : Bytes) :
    Except Error Bytes × SecureSession :=
  if frame.length < 1 + nonceSize + tagSize then (.error .decryption, s)
  else
    match MessageType.tryFrom (frame.headD 0) with
    | .error e => (.error e, s)
    | .ok msgType =>
      if msgType ≠ .encryptedData then
        (.error (.unexpectedMessage "EncryptedData" msgType.debug), s)
      else
        let nonceBytes := (frame.drop 1).take nonceSize
        let ciphertext := frame.drop (1 + nonceSize)
        if nonceBytes ≠ buildNonce s.recvNonce then (.error .decryption, s)
        else
          match Aead.recover record s.recvCipher nonceBytes ciphertext with
          | none => (.error .decryption, s)
          | some plaintext =>
            (.ok plaintext, { s with
              recvNonce := s.recvNonce + 1
              bytesDecrypted := s.bytesDecrypted + BitVec.ofNat 64 plaintext.length
              messagesReceived := s.messagesReceived + 1 })

def resetAfterRekey (s : SecureSession) (newKey : Key) (isInitiator : Bool) : SecureSession :=
  { s with
    sendCipher := (deriveDirectionalKeys crypto newKey isInitiator).1
    recvCipher := (deriveDirectionalKeys crypto newKey isInitiator).2
    sendNonce := 0
    recvNonce := 0 }

end SecureSession

end Qubitcoin.Transport
