import Qubitcoin.Transport.Session

/-! The ML-KEM-768 handshake, from `handshake.rs`. -/

universe u v

namespace Qubitcoin.Transport

def protocolVersion : UInt8 := 1

def hkdfInfo : Bytes := asciiBytes "qubitcoin-kyber-session-v1"

def ekSize : Nat := 1184
def ctSize : Nat := 1088

/-- ML-KEM-768 with its randomness as a seed, where an error is its debug text, and HKDF-SHA256
without a salt, expanded under an info string to 32 bytes. -/
structure Kem (Seed : Type u) (DecapsulationKey : Type v) where
  generate : Seed → DecapsulationKey × Bytes
  encapsulate : Seed → Bytes → Except String (Bytes × Bytes)
  decapsulate : DecapsulationKey → Bytes → Except String Bytes
  hkdf : Bytes → Bytes → Key

inductive HandshakeRole
  | initiator | responder
  deriving DecidableEq

structure KyberHandshake (DecapsulationKey : Type v) where
  role : HandshakeRole
  decapsulationKey : Option DecapsulationKey
  kyberSharedSecret : Option Bytes
  classicalSharedSecret : Option Bytes
  complete : Bool

variable {Seed : Type u} {DecapsulationKey : Type v}

/-- What both roles check of a message: its version, its type and the size of what it carries. -/
def parseMessage (expected : MessageType) (size : Nat) (wrongSize : Nat → Error) (msg : Bytes) :
    Except Error Bytes :=
  match msg with
  | version :: type :: payload =>
    if payload.length < 1 then .error (.handshake "message too short")
    else if version ≠ protocolVersion then .error (.versionMismatch protocolVersion version)
    else
      match MessageType.tryFrom type with
      | .error e => .error e
      | .ok msgType =>
        if msgType ≠ expected then .error (.unexpectedMessage expected.debug msgType.debug)
        else if payload.length ≠ size then .error (wrongSize payload.length)
        else .ok payload
  | _ => .error (.handshake "message too short")

def sizeReason (what : String) (expected got : Nat) : String :=
  "invalid " ++ what ++ " size: expected " ++ toString expected ++ ", got " ++ toString got

namespace KyberHandshake

def new (role : HandshakeRole) (classicalSecret : Option Bytes) :
    KyberHandshake DecapsulationKey where
  role := role
  decapsulationKey := none
  kyberSharedSecret := none
  classicalSharedSecret := classicalSecret
  complete := false

variable (kem : Kem Seed DecapsulationKey) (self : KyberHandshake DecapsulationKey)

def initiatorGeneratePubkey (seed : Seed) :
    Except Error Bytes × KyberHandshake DecapsulationKey :=
  if self.role ≠ .initiator then (.error (.handshake "only initiator can generate pubkey"), self)
  else
    let (dk, ek) := kem.generate seed
    (.ok (protocolVersion :: MessageType.kyberPubKey.toByte :: ek),
      { self with decapsulationKey := some dk })

def parsePubkey : Bytes → Except Error Bytes :=
  parseMessage .kyberPubKey ekSize fun got =>
    .encapsulation (sizeReason "encapsulation key" ekSize got)

def responderEncapsulate (seed : Seed) (initiatorMsg : Bytes) :
    Except Error Bytes × KyberHandshake DecapsulationKey :=
  if self.role ≠ .responder then (.error (.handshake "only responder can encapsulate"), self)
  else
    match parsePubkey initiatorMsg with
    | .error e => (.error e, self)
    | .ok ek =>
      match kem.encapsulate seed ek with
      | .error e => (.error (.encapsulation e), self)
      | .ok (ct, ss) =>
        (.ok (protocolVersion :: MessageType.kyberCiphertext.toByte :: ct),
          { self with kyberSharedSecret := some ss })

def parseCiphertext : Bytes → Except Error Bytes :=
  parseMessage .kyberCiphertext ctSize fun got =>
    .decapsulation (sizeReason "ciphertext" ctSize got)

def initiatorDecapsulate (responderMsg : Bytes) :
    Except Error Unit × KyberHandshake DecapsulationKey :=
  if self.role ≠ .initiator then (.error (.handshake "only initiator can decapsulate"), self)
  else
    match parseCiphertext responderMsg with
    | .error e => (.error e, self)
    | .ok ct =>
      match self.decapsulationKey with
      | none => (.error (.decapsulation "decapsulation key already consumed"), self)
      | some dk =>
        -- the key is taken before it is used, so a failure loses it
        let taken := { self with decapsulationKey := none }
        match kem.decapsulate dk ct with
        | .error e => (.error (.decapsulation e), taken)
        | .ok ss => (.ok (), { taken with kyberSharedSecret := some ss })

def completeMessage : Bytes := [protocolVersion, MessageType.handshakeComplete.toByte]

def verifyComplete (msg : Bytes) : Except Error Unit :=
  match msg with
  | version :: type :: _ =>
    if version ≠ protocolVersion then .error (.versionMismatch protocolVersion version)
    else
      match MessageType.tryFrom type with
      | .error e => .error e
      | .ok msgType =>
        if msgType ≠ .handshakeComplete then
          .error (.unexpectedMessage "HandshakeComplete" msgType.debug)
        else .ok ()
  | _ => .error (.handshake "complete message too short")

/-- The expansion to 32 bytes never fails. -/
def deriveSessionKey : Except Error Key × KyberHandshake DecapsulationKey :=
  match self.kyberSharedSecret with
  | none => (.error (.keyDerivation "kyber shared secret not available"), self)
  | some kyberSs =>
    let ikm := self.classicalSharedSecret.getD [] ++ kyberSs
    (.ok (kem.hkdf ikm hkdfInfo), { self with kyberSharedSecret := none, complete := true })

end KyberHandshake

theorem MessageType.tryFrom_eq_ok_iff {value : UInt8} {msgType : MessageType} :
    MessageType.tryFrom value = .ok msgType ↔ value = msgType.toByte := by
  constructor
  · intro h
    unfold MessageType.tryFrom at h
    split_ifs at h with h₁ h₂ h₃ h₄ h₅ <;> cases h <;> assumption
  · rintro rfl
    cases msgType <;> rfl

theorem parseMessage_eq_ok_iff {expected : MessageType} {size : Nat} (hsize : 0 < size)
    {wrongSize : Nat → Error} {msg payload : Bytes} :
    parseMessage expected size wrongSize msg = .ok payload ↔
      msg = protocolVersion :: expected.toByte :: payload ∧ payload.length = size := by
  constructor
  · intro h
    match msg with
    | [] => cases h
    | [_] => cases h
    | version :: type :: rest =>
      simp only [parseMessage] at h
      split at h
      · cases h
      · split at h
        · cases h
        · next hversion =>
          split at h
          · cases h
          · next msgType htype =>
            split at h
            · cases h
            · next hexpected =>
              split at h
              · cases h
              · next hlength =>
                cases h
                rw [MessageType.tryFrom_eq_ok_iff, not_not.mp hexpected] at htype
                rw [not_not.mp hversion, htype]
                exact ⟨rfl, not_not.mp hlength⟩
  · rintro ⟨rfl, rfl⟩
    have htype : MessageType.tryFrom expected.toByte = .ok expected :=
      MessageType.tryFrom_eq_ok_iff.mpr rfl
    simp [parseMessage, htype, Nat.not_lt_of_le hsize]

namespace KyberHandshake

variable {kem : Kem Seed DecapsulationKey} {self : KyberHandshake DecapsulationKey}

theorem parsePubkey_eq_ok_iff {msg ek : Bytes} :
    parsePubkey msg = .ok ek ↔
      msg = protocolVersion :: MessageType.kyberPubKey.toByte :: ek ∧ ek.length = ekSize :=
  parseMessage_eq_ok_iff (by decide)

theorem parseCiphertext_eq_ok_iff {msg ct : Bytes} :
    parseCiphertext msg = .ok ct ↔
      msg = protocolVersion :: MessageType.kyberCiphertext.toByte :: ct ∧ ct.length = ctSize :=
  parseMessage_eq_ok_iff (by decide)

/-- A message that a responder answers. -/
def Answered (kem : Kem Seed DecapsulationKey) (seed : Seed) (msg : Bytes) : Prop :=
  ∃ ek, msg = protocolVersion :: MessageType.kyberPubKey.toByte :: ek ∧ ek.length = ekSize ∧
    ∃ answer, kem.encapsulate seed ek = .ok answer

theorem exists_responderEncapsulate_iff (hrole : self.role = .responder) {seed : Seed}
    {msg : Bytes} :
    (∃ e, (self.responderEncapsulate kem seed msg).1 = .error e) ↔ ¬Answered kem seed msg := by
  simp only [responderEncapsulate, hrole, ne_eq, not_true_eq_false, if_false]
  cases hparse : parsePubkey msg with
  | error e =>
    refine iff_of_true ⟨e, rfl⟩ ?_
    rintro ⟨ek, hmsg, hlength, -⟩
    rw [parsePubkey_eq_ok_iff.mpr ⟨hmsg, hlength⟩] at hparse
    cases hparse
  | ok ek =>
    obtain ⟨hmsg, hlength⟩ := parsePubkey_eq_ok_iff.mp hparse
    have hanswered : Answered kem seed msg ↔ ∃ answer, kem.encapsulate seed ek = .ok answer := by
      constructor
      · rintro ⟨ek', hmsg', -, hanswer⟩
        rw [hmsg] at hmsg'
        cases hmsg'
        exact hanswer
      · exact fun hanswer => ⟨ek, hmsg, hlength, hanswer⟩
    rw [hanswered]
    dsimp only
    cases kem.encapsulate seed ek with
    | error e => simp
    | ok answer => simp

end KyberHandshake

end Qubitcoin.Transport
