import Qubitcoin.Transport.Channel
import Qubitcoin.Transport.Handshake

/-! `KyberTransport`: the handshake and the session in one state machine, from `transport.rs`. -/

universe u v

namespace Qubitcoin.Transport

inductive TransportState
  | new | handshaking | established | closed
  deriving DecidableEq

structure KyberTransport (DecapsulationKey : Type v) where
  state : TransportState
  handshake : KyberHandshake DecapsulationKey
  session : Option SecureSession

variable {Seed : Type u} {DecapsulationKey : Type v}

namespace KyberTransport

def new (role : HandshakeRole) (classicalSecret : Option Bytes) :
    KyberTransport DecapsulationKey where
  state := .new
  handshake := .new role classicalSecret
  session := none

variable (kem : Kem Seed DecapsulationKey) (crypto : Crypto)
  (self : KyberTransport DecapsulationKey)

def startHandshake (seed : Seed) : Except Error Bytes × KyberTransport DecapsulationKey :=
  if self.state ≠ .new then (.error (.handshake "handshake already started"), self)
  else
    match self.handshake.initiatorGeneratePubkey kem seed with
    | (.error e, handshake) => (.error e, { self with handshake := handshake })
    | (.ok msg, handshake) =>
      (.ok msg, { self with handshake := handshake, state := .handshaking })

/-- The responder is in its handshake before the message is looked at. -/
def processHandshakeMessage (seed : Seed) (msg : Bytes) :
    Except Error (Option Bytes) × KyberTransport DecapsulationKey :=
  match self.handshake.role with
  | .responder =>
    let (response, handshake) := self.handshake.responderEncapsulate kem seed msg
    (response.map some, { self with state := .handshaking, handshake := handshake })
  | .initiator =>
    let (result, handshake) := self.handshake.initiatorDecapsulate kem msg
    (result.map fun _ => none, { self with handshake := handshake })

def finalizeHandshake : Except Error Bytes × KyberTransport DecapsulationKey :=
  match self.handshake.deriveSessionKey kem with
  | (.error e, handshake) => (.error e, { self with handshake := handshake })
  | (.ok sessionKey, handshake) =>
    let isInitiator := self.handshake.role = .initiator
    (.ok KyberHandshake.completeMessage,
      { state := .established
        handshake := handshake
        session := some (.new crypto sessionKey isInitiator) })

def encrypt (plaintext : Bytes) : Except Error Bytes × KyberTransport DecapsulationKey :=
  match self.session with
  | none => (.error .sessionNotEstablished, self)
  | some session =>
    let (frame, session) := session.encrypt crypto plaintext
    (frame, { self with session := some session })

/-- `record` is what has been sealed anywhere so far. -/
def decrypt (record : List Sealed) (frame : Bytes) :
    Except Error Bytes × KyberTransport DecapsulationKey :=
  match self.session with
  | none => (.error .sessionNotEstablished, self)
  | some session =>
    let (plaintext, session) := session.decrypt record frame
    (plaintext, { self with session := some session })

def close : KyberTransport DecapsulationKey := { self with state := .closed, session := none }

inductive Call (Seed : Type u)
  | startHandshake (seed : Seed)
  | processHandshakeMessage (seed : Seed) (msg : Bytes)
  | finalizeHandshake
  | encrypt (plaintext : Bytes)
  | decrypt (record : List Sealed) (frame : Bytes)
  | close

/-- What a call returns, and the transport after it. -/
def outcome : Call Seed → Except Error (Option Bytes) × KyberTransport DecapsulationKey
  | .startHandshake seed => (self.startHandshake kem seed).map (·.map some) id
  | .processHandshakeMessage seed msg => self.processHandshakeMessage kem seed msg
  | .finalizeHandshake => (self.finalizeHandshake kem crypto).map (·.map some) id
  | .encrypt plaintext => (self.encrypt crypto plaintext).map (·.map some) id
  | .decrypt record frame => (self.decrypt record frame).map (·.map some) id
  | .close => (.ok none, self.close)

def after (role : HandshakeRole) (classicalSecret : Option Bytes) (calls : List (Call Seed)) :
    KyberTransport DecapsulationKey :=
  Machine.run (fun self call => (self.outcome kem crypto call).2) (new role classicalSecret) calls

/-- The calls that keep to the lifecycle.  A responder processes a message in its handshake only,
or to enter it with a message that it answers, and no secret of a handshake is left when a closed
transport is finalized. -/
def Orderly : Call Seed → Prop
  | .processHandshakeMessage seed msg =>
    self.handshake.role = .responder →
      self.state = .handshaking ∨ (self.state = .new ∧ KyberHandshake.Answered kem seed msg)
  | .finalizeHandshake => self.state = .closed → self.handshake.kyberSharedSecret = none
  | _ => True

def InSession (transport : KyberTransport DecapsulationKey) : Prop :=
  transport.state = .established ↔ transport.session.isSome = true

/-- What one call is to respect. -/
structure Respects (before : KyberTransport DecapsulationKey)
    (result : Except Error (Option Bytes) × KyberTransport DecapsulationKey) : Prop where
  session : InSession result.2
  failed : ∀ e, result.1 = .error e →
    result.2.state = before.state ∧ result.2.session = before.session
  closed : before.state = .closed → result.2.state ≠ .handshaking ∧ result.2.state ≠ .established

/-- What all calls of a run are to respect. -/
structure Lifecycle (role : HandshakeRole) (classicalSecret : Option Bytes)
    (calls : List (Call Seed)) : Prop where
  session : ∀ before, before <+: calls → InSession (after kem crypto role classicalSecret before)
  failed : ∀ before call, before ++ [call] <+: calls →
    ∀ e, ((after kem crypto role classicalSecret before).outcome kem crypto call).1 = .error e →
      (after kem crypto role classicalSecret (before ++ [call])).state =
          (after kem crypto role classicalSecret before).state ∧
        (after kem crypto role classicalSecret (before ++ [call])).session =
          (after kem crypto role classicalSecret before).session
  closed : ∀ before between, before ++ between <+: calls →
    (after kem crypto role classicalSecret before).state = .closed →
      (after kem crypto role classicalSecret (before ++ between)).state ≠ .handshaking ∧
        (after kem crypto role classicalSecret (before ++ between)).state ≠ .established

variable {kem crypto self}

/-- A call that changes neither state nor session. -/
theorem Respects.of_same (h : InSession self)
    {result : Except Error (Option Bytes) × KyberTransport DecapsulationKey}
    (hstate : result.2.state = self.state) (hsession : result.2.session = self.session) :
    Respects self result where
  session := by rw [InSession, hstate, hsession]; exact h
  failed _ _ := ⟨hstate, hsession⟩
  closed hclosed := by rw [hstate, hclosed]; exact ⟨nofun, nofun⟩

theorem respects_startHandshake (h : InSession self) (seed : Seed) :
    Respects self (self.outcome kem crypto (.startHandshake seed)) := by
  by_cases hstate : self.state = .new
  · by_cases hrole : self.handshake.role = .initiator
    · have hnone : self.session.isSome ≠ true := fun hsome => by
        rw [h.mpr hsome] at hstate
        cases hstate
      simp only [outcome, startHandshake, KyberHandshake.initiatorGeneratePubkey, hstate, hrole,
        ne_eq, not_true_eq_false, if_false]
      exact
        { session := iff_of_false nofun hnone
          failed := fun e he => by cases he
          closed := fun hclosed => by rw [hstate] at hclosed; cases hclosed }
    · apply Respects.of_same h
      · simp [outcome, startHandshake, KyberHandshake.initiatorGeneratePubkey, hstate, hrole]
      · simp [outcome, startHandshake, KyberHandshake.initiatorGeneratePubkey, hstate, hrole]
  · apply Respects.of_same h
    · simp [outcome, startHandshake, hstate]
    · simp [outcome, startHandshake, hstate]

theorem respects_processHandshakeMessage_iff (h : InSession self) (seed : Seed) (msg : Bytes) :
    Respects self (self.outcome kem crypto (.processHandshakeMessage seed msg)) ↔
      Orderly kem self (.processHandshakeMessage seed msg) := by
  cases hrole : self.handshake.role with
  | initiator =>
    refine iff_of_true (Respects.of_same h ?_ ?_) (fun hresponder => ?_)
    · simp [outcome, processHandshakeMessage, hrole]
    · simp [outcome, processHandshakeMessage, hrole]
    · rw [hrole] at hresponder
      cases hresponder
  | responder =>
    have hafter : (self.outcome kem crypto (.processHandshakeMessage seed msg)).2.state =
        .handshaking := by
      simp [outcome, processHandshakeMessage, hrole]
    have hsame : (self.outcome kem crypto (.processHandshakeMessage seed msg)).2.session =
        self.session := by
      simp [outcome, processHandshakeMessage, hrole]
    have herror : (∃ e, (self.outcome kem crypto (.processHandshakeMessage seed msg)).1 =
        .error e) ↔ ¬KyberHandshake.Answered kem seed msg := by
      rw [← KyberHandshake.exists_responderEncapsulate_iff hrole]
      simp only [outcome, processHandshakeMessage, hrole]
      cases (self.handshake.responderEncapsulate kem seed msg).1 with
      | error e => simp [Except.map]
      | ok answer => simp [Except.map]
    simp only [Orderly, hrole, true_implies]
    constructor
    · intro hrespects
      cases hstate : self.state with
      | new =>
        refine Or.inr ⟨rfl, ?_⟩
        by_contra hrefused
        obtain ⟨e, he⟩ := herror.mpr hrefused
        have hback := (hrespects.failed e he).1
        rw [hafter, hstate] at hback
        cases hback
      | handshaking => exact Or.inl rfl
      | established =>
        have hsession := hrespects.session
        rw [InSession, hafter, hsame] at hsession
        cases hsession.mpr (h.mp hstate)
      | closed => exact absurd hafter (hrespects.closed hstate).1
    · rintro (hstate | ⟨hstate, hanswered⟩)
      · exact Respects.of_same h (hafter.trans hstate.symm) hsame
      · constructor
        · rw [InSession, hafter, hsame]
          refine iff_of_false nofun fun hsome => ?_
          rw [h.mpr hsome] at hstate
          cases hstate
        · intro e he
          exact absurd hanswered (herror.mp ⟨e, he⟩)
        · intro hclosed
          rw [hstate] at hclosed
          cases hclosed

theorem respects_finalizeHandshake_iff (h : InSession self) :
    Respects self (self.outcome kem crypto (.finalizeHandshake : Call Seed)) ↔
      Orderly kem self (.finalizeHandshake : Call Seed) := by
  cases hsecret : self.handshake.kyberSharedSecret with
  | none =>
    refine iff_of_true (Respects.of_same h ?_ ?_) (fun _ => hsecret)
    · simp [outcome, finalizeHandshake, KyberHandshake.deriveSessionKey, hsecret]
    · simp [outcome, finalizeHandshake, KyberHandshake.deriveSessionKey, hsecret]
  | some secret =>
    simp only [outcome, finalizeHandshake, KyberHandshake.deriveSessionKey, hsecret, Orderly]
    constructor
    · intro hrespects hclosed
      exact absurd rfl (hrespects.closed hclosed).2
    · intro horderly
      exact
        { session := iff_of_true rfl rfl
          failed := nofun
          closed := fun hclosed => by cases horderly hclosed }

theorem respects_encrypt (h : InSession self) (plaintext : Bytes) :
    Respects self (self.outcome kem crypto (.encrypt plaintext)) := by
  cases hsession : self.session with
  | none =>
    apply Respects.of_same h
    · simp [outcome, encrypt, hsession]
    · simp [outcome, encrypt, hsession]
  | some session =>
    have hencrypted := encrypt_encrypted crypto session plaintext
    simp only [outcome, encrypt, hsession]
    generalize session.encrypt crypto plaintext = r at hencrypted
    cases hencrypted with
    | refused e => exact Respects.of_same h rfl hsession.symm
    | sealed frame room send recv sendNonce recvNonce =>
      have hstate : self.state = .established := h.mpr (by rw [hsession]; rfl)
      exact
        { session := iff_of_true hstate rfl
          failed := fun e he => by cases he
          closed := fun hclosed => by rw [hstate] at hclosed; cases hclosed }

theorem respects_decrypt (h : InSession self) (record : List Sealed) (frame : Bytes) :
    Respects self (self.outcome kem crypto (.decrypt record frame)) := by
  cases hsession : self.session with
  | none =>
    apply Respects.of_same h
    · simp [outcome, decrypt, hsession]
    · simp [outcome, decrypt, hsession]
  | some session =>
    have hdecrypted := decrypt_decrypted record session frame
    simp only [outcome, decrypt, hsession]
    generalize session.decrypt record frame = r at hdecrypted
    cases hdecrypted with
    | rejected e => exact Respects.of_same h rfl hsession.symm
    | opened e mem key nonce send recv sendNonce recvNonce =>
      have hstate : self.state = .established := h.mpr (by rw [hsession]; rfl)
      exact
        { session := iff_of_true hstate rfl
          failed := fun e he => by cases he
          closed := fun hclosed => by rw [hstate] at hclosed; cases hclosed }

theorem respects_close : Respects self (self.outcome kem crypto (.close : Call Seed)) where
  session := iff_of_false nofun nofun
  failed e he := by cases he
  closed _ := ⟨nofun, nofun⟩

theorem respects_iff (h : InSession self) (call : Call Seed) :
    Respects self (self.outcome kem crypto call) ↔ Orderly kem self call := by
  cases call with
  | startHandshake seed => exact iff_of_true (respects_startHandshake h seed) trivial
  | processHandshakeMessage seed msg => exact respects_processHandshakeMessage_iff h seed msg
  | finalizeHandshake => exact respects_finalizeHandshake_iff h
  | encrypt plaintext => exact iff_of_true (respects_encrypt h plaintext) trivial
  | decrypt record frame => exact iff_of_true (respects_decrypt h record frame) trivial
  | close => exact iff_of_true respects_close trivial

/-- No call makes a transport new again. -/
theorem state_outcome_ne_new (h : self.state ≠ .new) (call : Call Seed) :
    (self.outcome kem crypto call).2.state ≠ .new := by
  cases call with
  | startHandshake seed => simp [outcome, startHandshake, h]
  | processHandshakeMessage seed msg =>
    cases hrole : self.handshake.role with
    | initiator => simpa [outcome, processHandshakeMessage, hrole] using h
    | responder => simp [outcome, processHandshakeMessage, hrole]
  | finalizeHandshake =>
    cases hsecret : self.handshake.kyberSharedSecret with
    | none =>
      simpa [outcome, finalizeHandshake, KyberHandshake.deriveSessionKey, hsecret] using h
    | some secret =>
      simp [outcome, finalizeHandshake, KyberHandshake.deriveSessionKey, hsecret]
  | encrypt plaintext =>
    cases hsession : self.session with
    | none => simpa [outcome, encrypt, hsession] using h
    | some session => simpa [outcome, encrypt, hsession] using h
  | decrypt record frame =>
    cases hsession : self.session with
    | none => simpa [outcome, decrypt, hsession] using h
    | some session => simpa [outcome, decrypt, hsession] using h
  | close => simp [outcome, close]

theorem Respects.closed_of_closed {call : Call Seed}
    (h : Respects self (self.outcome kem crypto call)) (hclosed : self.state = .closed) :
    (self.outcome kem crypto call).2.state = .closed := by
  have hnew := @state_outcome_ne_new Seed _ kem crypto self (by rw [hclosed]; nofun) call
  obtain ⟨hhandshaking, hestablished⟩ := h.closed hclosed
  cases hstate : (self.outcome kem crypto call).2.state with
  | new => exact absurd hstate hnew
  | handshaking => exact absurd hstate hhandshaking
  | established => exact absurd hstate hestablished
  | closed => rfl

section Runs

/-- A handshake whose messages arrive leaves the two sides the sessions of a channel. -/
theorem channel_of_handshake {kem : Kem Seed DecapsulationKey} (crypto : Crypto)
    (classicalSecret : Option Bytes) {seed seed' : Seed} {dk : DecapsulationKey}
    {ek ct ss : Bytes} (hgenerate : kem.generate seed = (dk, ek)) (hek : ek.length = ekSize)
    (hencapsulate : kem.encapsulate seed' ek = .ok (ct, ss)) (hct : ct.length = ctSize)
    (hdecapsulate : kem.decapsulate dk ct = .ok ss) :
    ∃ pubkeyMsg ciphertextMsg,
      ((new .initiator classicalSecret).outcome kem crypto (.startHandshake seed)).1 =
          .ok (some pubkeyMsg) ∧
        ((new .responder classicalSecret).outcome kem crypto
          (.processHandshakeMessage seed' pubkeyMsg)).1 = .ok (some ciphertextMsg) ∧
        ∃ sessionKey,
          (after kem crypto .initiator classicalSecret [.startHandshake seed,
            .processHandshakeMessage seed ciphertextMsg, .finalizeHandshake]).session =
              some ((Channel.new crypto sessionKey).session .initiator) ∧
          (after kem crypto .responder classicalSecret
            [.processHandshakeMessage seed' pubkeyMsg, .finalizeHandshake]).session =
              some ((Channel.new crypto sessionKey).session .responder) := by
  have hpubkey := KyberHandshake.parsePubkey_eq_ok_iff.mpr ⟨rfl, hek⟩
  have hciphertext := KyberHandshake.parseCiphertext_eq_ok_iff.mpr ⟨rfl, hct⟩
  refine ⟨protocolVersion :: MessageType.kyberPubKey.toByte :: ek,
    protocolVersion :: MessageType.kyberCiphertext.toByte :: ct, ?_, ?_, kem.hkdf (classicalSecret.getD [] ++ ss) hkdfInfo, ?_, ?_⟩
  · simp only [outcome, startHandshake, new, KyberHandshake.initiatorGeneratePubkey,
      KyberHandshake.new, hgenerate]
    rfl
  · simp only [outcome, processHandshakeMessage, new, KyberHandshake.responderEncapsulate,
      KyberHandshake.new, hpubkey, hencapsulate]
    rfl
  · simp [after, outcome, startHandshake, processHandshakeMessage, finalizeHandshake, new,
      KyberHandshake.initiatorGeneratePubkey, KyberHandshake.initiatorDecapsulate,
      KyberHandshake.deriveSessionKey, KyberHandshake.new, hgenerate, hciphertext, hdecapsulate,
      Channel.new, Side.isInitiator]
  · simp [after, outcome, processHandshakeMessage, finalizeHandshake, new,
      KyberHandshake.responderEncapsulate, KyberHandshake.deriveSessionKey, KyberHandshake.new,
      hpubkey, hencapsulate, Channel.new, Side.isInitiator]

/-- Stands for ciphers on inputs that do not reach them. -/
def sampleKem : Kem Unit Unit where
  generate _ := ((), [])
  encapsulate _ _ := .error ""
  decapsulate _ _ := .error ""
  hkdf _ _ := 0

def sampleCrypto : Crypto where
  hkdfExpand key _ := key
  aesGcm _ _ plaintext := plaintext

variable (kem crypto) (role : HandshakeRole) (classicalSecret : Option Bytes)

theorem after_append (calls calls' : List (Call Seed)) :
    after kem crypto role classicalSecret (calls ++ calls') =
      Machine.run (fun self call => (self.outcome kem crypto call).2)
        (after kem crypto role classicalSecret calls) calls' :=
  Machine.run_append _ _ _

theorem after_snoc (calls : List (Call Seed)) (call : Call Seed) :
    after kem crypto role classicalSecret (calls ++ [call]) =
      ((after kem crypto role classicalSecret calls).outcome kem crypto call).2 :=
  after_append kem crypto role classicalSecret calls [call]

/-- The transport keeps to its lifecycle all along the calls exactly if each of them does. -/
theorem lifecycle_iff_orderly (calls : List (Call Seed)) :
    Lifecycle kem crypto role classicalSecret calls ↔
      ∀ before call, before ++ [call] <+: calls →
        Orderly kem (after kem crypto role classicalSecret before) call := by
  constructor
  · intro hlifecycle before call hle
    rw [← @respects_iff Seed _ kem crypto _ (hlifecycle.session before
      ((List.prefix_append _ _).trans hle))]
    constructor
    · rw [← after_snoc]
      exact hlifecycle.session _ hle
    · rw [← after_snoc]
      exact hlifecycle.failed before call hle
    · rw [← after_snoc]
      exact hlifecycle.closed before [call] hle
  · intro horderly
    have hsession (before : List (Call Seed)) (hle : before <+: calls) :
        InSession (after kem crypto role classicalSecret before) := by
      apply Machine.run_guarded (P := InSession) (G := fun self call => Orderly kem self call)
        (fun _ call h hcall => ((respects_iff h call).mpr hcall).session) _ horderly hle
      exact iff_of_false nofun nofun
    have hrespects (before : List (Call Seed)) (call : Call Seed)
        (hle : before ++ [call] <+: calls) :
        Respects (after kem crypto role classicalSecret before)
          ((after kem crypto role classicalSecret before).outcome kem crypto call) :=
      (respects_iff (hsession before ((List.prefix_append _ _).trans hle)) call).mpr
        (horderly before call hle)
    refine ⟨hsession, fun before call hle => ?_, fun before between hle hclosed => ?_⟩
    · rw [after_snoc]
      exact (hrespects before call hle).failed
    · have hstill : (after kem crypto role classicalSecret (before ++ between)).state =
          .closed := by
        induction between using List.reverseRecOn with
        | nil => rwa [List.append_nil]
        | append_singleton between call ih =>
          rw [← List.append_assoc] at hle ⊢
          rw [after_snoc]
          exact (hrespects _ call hle).closed_of_closed (ih ((List.prefix_append _ _).trans hle))
      rw [hstill]
      exact ⟨nofun, nofun⟩

/-- A responder takes up a message that it cannot read, and a closed one takes up any message. -/
theorem lifecycle_broken :
    ¬Lifecycle sampleKem sampleCrypto .responder none [.processHandshakeMessage () []] ∧
      ¬Lifecycle sampleKem sampleCrypto .responder none
        [.close, .processHandshakeMessage () []] := by
  constructor
  · intro h
    have hback := (h.failed [] _ (List.prefix_refl _) (.handshake "message too short") rfl).1
    cases hback
  · intro h
    exact absurd rfl (h.closed [.close] [.processHandshakeMessage () []] (List.prefix_refl _) rfl).1

end Runs

end KyberTransport

end Qubitcoin.Transport
