import Qubitcoin.Library.Machine
import Qubitcoin.Transport.Session

/-! Two sessions and the network between them.  The network delivers whatever bytes it
likes, in any order and as often as it likes; either side may rekey at any time. -/

namespace Qubitcoin.Transport

inductive Side
  | initiator | responder
  deriving DecidableEq

instance : Fintype Side where
  elems := {.initiator, .responder}
  complete side := by
    cases side with
    | initiator => decide
    | responder => decide

def Side.other : Side → Side
  | .initiator => .responder
  | .responder => .initiator

def Side.isInitiator : Side → Bool
  | .initiator => true
  | .responder => false

/-- A sealed message, with its sender and the session key it was sent under. -/
structure Sent extends Aead.Sealed Key Bytes Bytes Bytes where
  sender : Side
  sessionKey : Key

structure Accepted where
  receiver : Side
  sessionKey : Key
  plaintext : Bytes

structure Channel where
  session : Side → SecureSession
  /-- The session keys of a side, the newest first. -/
  installed : Side → List Key
  sent : List Sent
  accepted : List Accepted

inductive Op
  | encrypt (side : Side) (plaintext : Bytes)
  | decrypt (side : Side) (frame : Bytes)
  | rekey (side : Side) (newKey : Key) (isInitiator : Bool)

def Sent.under (side : Side) (sessionKey : Key) (e : Sent) : Bool :=
  e.sender = side ∧ e.sessionKey = sessionKey

def Accepted.under (side : Side) (sessionKey : Key) (a : Accepted) : Bool :=
  a.receiver = side ∧ a.sessionKey = sessionKey

namespace Channel

variable (crypto : Crypto)

def new (sessionKey : Key) : Channel where
  session side := .new crypto sessionKey side.isInitiator
  installed _ := [sessionKey]
  sent := []
  accepted := []

def current (c : Channel) (side : Side) : Key := (c.installed side).headD 0

def record (c : Channel) : List Sealed := c.sent.map Sent.toSealed

def step (c : Channel) : Op → Channel
  | .encrypt side plaintext =>
    match (c.session side).encrypt crypto plaintext with
    | (.ok _, s) =>
      { c with
        session := Function.update c.session side s
        sent := c.sent ++ [{ (c.session side).sealing crypto plaintext with
          sender := side, sessionKey := c.current side }] }
    | (.error _, s) => { c with session := Function.update c.session side s }
  | .decrypt side frame =>
    match (c.session side).decrypt c.record frame with
    | (.ok plaintext, s) =>
      { c with
        session := Function.update c.session side s
        accepted := c.accepted ++ [⟨side, c.current side, plaintext⟩] }
    | (.error _, s) => { c with session := Function.update c.session side s }
  | .rekey side newKey isInitiator =>
    { c with
      session := Function.update c.session side
        ((c.session side).resetAfterRekey crypto newKey isInitiator)
      installed := Function.update c.installed side (newKey :: c.installed side) }

def run (sessionKey : Key) (ops : List Op) : Channel :=
  Machine.run (step crypto) (new crypto sessionKey) ops

def sentUnder (c : Channel) (side : Side) (sessionKey : Key) : List Sent :=
  c.sent.filter (Sent.under side sessionKey)

/-- The plaintexts a side has sent between two rekeys. -/
def sentPlaintexts (c : Channel) (side : Side) (sessionKey : Key) : List Bytes :=
  (c.sentUnder side sessionKey).map fun e => e.plaintext

/-- The plaintexts a side has accepted between two rekeys. -/
def acceptedPlaintexts (c : Channel) (side : Side) (sessionKey : Key) : List Bytes :=
  (c.accepted.filter (Accepted.under side sessionKey)).map Accepted.plaintext

/-- The keys and nonces of all encryptions. -/
def uses (c : Channel) : List (Key × Bytes) := c.record.map Aead.Sealed.use

end Channel

variable {crypto : Crypto} {s s' : SecureSession} {record : List Sealed}

/-! ## The sessions -/

theorem buildNonce_inj {m n : Nat} (hm : m < 256 ^ 8) (hn : n < 256 ^ 8)
    (h : buildNonce m = buildNonce n) : m = n := by
  have hbytes : Bytes.le 8 m = Bytes.le 8 n :=
    List.reverse_injective (List.append_cancel_left h)
  have hnat := congrArg Bytes.ofLe hbytes
  rwa [Bytes.ofLe_le, Bytes.ofLe_le, Nat.mod_eq_of_lt hm, Nat.mod_eq_of_lt hn] at hnat

/-- What an encryption can do. -/
inductive Encrypted (crypto : Crypto) (s : SecureSession) (plaintext : Bytes) :
    Except Error Bytes × SecureSession → Prop
  | refused (e : Error) : Encrypted crypto s plaintext (.error e, s)
  | sealed {s' : SecureSession} (frame : Bytes)
      (room : s.sendNonce < nonceOverflowThreshold)
      (send : s'.sendCipher = s.sendCipher) (recv : s'.recvCipher = s.recvCipher)
      (sendNonce : s'.sendNonce = s.sendNonce + 1) (recvNonce : s'.recvNonce = s.recvNonce) :
      Encrypted crypto s plaintext (.ok frame, s')

theorem encrypt_encrypted (crypto : Crypto) (s : SecureSession) (plaintext : Bytes) :
    Encrypted crypto s plaintext (s.encrypt crypto plaintext) := by
  unfold SecureSession.encrypt
  split
  · exact .refused _
  · split
    · exact .refused _
    · next hroom => exact .sealed _ (not_le.mp hroom) rfl rfl rfl rfl

/-- What the decryption of a frame can do. -/
inductive Decrypted (record : List Sealed) (s : SecureSession) :
    Except Error Bytes × SecureSession → Prop
  | rejected (e : Error) : Decrypted record s (.error e, s)
  | opened {s' : SecureSession} (e : Sealed) (mem : e ∈ record) (key : e.key = s.recvCipher)
      (nonce : e.nonce = buildNonce s.recvNonce)
      (send : s'.sendCipher = s.sendCipher) (recv : s'.recvCipher = s.recvCipher)
      (sendNonce : s'.sendNonce = s.sendNonce) (recvNonce : s'.recvNonce = s.recvNonce + 1) :
      Decrypted record s (.ok e.plaintext, s')

theorem decrypt_decrypted (record : List Sealed) (s : SecureSession) (frame : Bytes) :
    Decrypted record s (s.decrypt record frame) := by
  unfold SecureSession.decrypt
  split
  · exact .rejected _
  · split
    · exact .rejected _
    · split
      · exact .rejected _
      · simp only
        split
        · exact .rejected _
        · next hnonce =>
          split
          · exact .rejected _
          · next plaintext hopen =>
            obtain ⟨e, hmem, hkey, hnonce', rfl⟩ := Aead.exists_of_recover hopen
            exact .opened e hmem hkey (hnonce'.trans (not_not.mp hnonce)) rfl rfl rfl rfl

/-- A rejected frame leaves the session as it was. -/
theorem decrypt_rejected {frame : Bytes} {e : Error}
    (h : (s.decrypt record frame).1 = .error e) : (s.decrypt record frame).2 = s := by
  have hdecrypted := decrypt_decrypted record s frame
  generalize s.decrypt record frame = r at h hdecrypted
  cases hdecrypted with
  | rejected e => rfl
  | opened e mem key nonce send recv sendNonce recvNonce => cases h

/-! ## The channel in step -/

def Side.sendInfo : Side → Bytes
  | .initiator => initToResp
  | .responder => respToInit

def sendKey (crypto : Crypto) (side : Side) (sessionKey : Key) : Key :=
  crypto.hkdfExpand sessionKey side.sendInfo

theorem deriveDirectionalKeys_eq (crypto : Crypto) (side : Side) (sessionKey : Key) :
    deriveDirectionalKeys crypto sessionKey side.isInitiator =
      (sendKey crypto side sessionKey, sendKey crypto side.other sessionKey) := by
  cases side with
  | initiator => rfl
  | responder => rfl

@[simp] theorem Side.other_other (side : Side) : side.other.other = side := by
  cases side with
  | initiator => rfl
  | responder => rfl

/-- The key derivation does not collide on these session keys. -/
def Apart (crypto : Crypto) (keys : List Key) : Prop :=
  ∀ k ∈ keys, ∀ k' ∈ keys, ∀ side side' : Side,
    sendKey crypto side k = sendKey crypto side' k' → side = side' ∧ k = k'

/-- Both sides and the network agree on what has been sent and accepted under each
session key. -/
structure InStep (crypto : Crypto) (known : List Key) (c : Channel) : Prop where
  send : ∀ side, (c.session side).sendCipher = sendKey crypto side (c.current side)
  recv : ∀ side, (c.session side).recvCipher = sendKey crypto side.other (c.current side)
  sendNonce : ∀ side, (c.session side).sendNonce = (c.sentUnder side (c.current side)).length
  recvNonce : ∀ side,
    (c.session side).recvNonce = (c.acceptedPlaintexts side (c.current side)).length
  current : ∀ side, c.current side ∈ c.installed side
  known : ∀ side, c.installed side ⊆ known
  keyed : ∀ e ∈ c.sent, e.key = sendKey crypto e.sender e.sessionKey ∧
    e.sessionKey ∈ c.installed e.sender
  received : ∀ a ∈ c.accepted, a.sessionKey ∈ c.installed a.receiver
  numbered : ∀ side k, (c.sentUnder side k).map (fun e => e.nonce) =
    (List.range (c.sentUnder side k).length).map buildNonce
  bounded : ∀ side k, (c.sentUnder side k).length ≤ nonceOverflowThreshold
  ordered : ∀ side k, c.acceptedPlaintexts side k <+: c.sentPlaintexts side.other k
  unused : c.uses.Nodup

/-- A rekey brings a session key that the side has not had, and the side's own role. -/
def Fresh (known : List Key) (c : Channel) : Op → Prop
  | .rekey side newKey isInitiator =>
    newKey ∈ known ∧ newKey ∉ c.installed side ∧ isInitiator = side.isInitiator
  | _ => True

variable {known : List Key} {c : Channel}

theorem sent_under {e : Sent} {side : Side} {k : Key} :
    e.under side k = true ↔ e.sender = side ∧ e.sessionKey = k := by
  simp [Sent.under]

theorem numbered_getElem (h : InStep crypto known c) {side : Side} {k : Key} {i : Nat}
    (hi : i < (c.sentUnder side k).length) :
    ((c.sentUnder side k)[i]).nonce = buildNonce i := by
  have hmap := congrArg (fun l => l[i]?) (h.numbered side k)
  simpa [hi] using hmap

theorem lt_of_le_threshold {n : Nat} (h : n ≤ nonceOverflowThreshold) : n < 256 ^ 8 := by
  unfold nonceOverflowThreshold at h
  omega

theorem nil_of_uninstalled (h : InStep crypto known c) {side : Side} {k : Key}
    (hk : k ∉ c.installed side) :
    c.sentUnder side k = [] ∧ c.acceptedPlaintexts side k = [] := by
  constructor
  · rw [Channel.sentUnder, List.filter_eq_nil_iff]
    intro e he hunder
    obtain ⟨rfl, rfl⟩ := sent_under.mp hunder
    exact hk (h.keyed e he).2
  · rw [Channel.acceptedPlaintexts, List.map_eq_nil_iff, List.filter_eq_nil_iff]
    intro a ha hunder
    have hboth : a.receiver = side ∧ a.sessionKey = k := by simpa [Accepted.under] using hunder
    obtain ⟨rfl, rfl⟩ := hboth
    exact hk (h.received a ha)

/-- The entry that opens a frame is the next one the peer sent under the same session key. -/
theorem opened_next (h : InStep crypto known c) (hapart : Apart crypto known) {side : Side}
    {e : Sealed} (hmem : e ∈ c.record) (hkey : e.key = (c.session side).recvCipher)
    (hnonce : e.nonce = buildNonce (c.session side).recvNonce) :
    (c.sentPlaintexts side.other (c.current side))[(c.session side).recvNonce]? =
      some e.plaintext := by
  obtain ⟨sent, hsent, rfl⟩ := List.mem_map.mp hmem
  obtain ⟨hsentKey, hinstalled⟩ := h.keyed sent hsent
  rw [h.recv side] at hkey
  obtain ⟨hsender, hsession⟩ := hapart _ (h.known _ hinstalled) _
    (h.known _ (h.current side)) _ _ (hsentKey.symm.trans hkey)
  have hunder : sent ∈ c.sentUnder side.other (c.current side) :=
    List.mem_filter.mpr ⟨hsent, sent_under.mpr ⟨hsender, hsession⟩⟩
  obtain ⟨i, hi, hget⟩ := List.mem_iff_getElem.mp hunder
  have hi' : buildNonce i = buildNonce (c.session side).recvNonce := by
    rw [← numbered_getElem h hi, hget]
    exact hnonce
  have hle : (c.session side).recvNonce ≤ (c.sentUnder side.other (c.current side)).length := by
    rw [h.recvNonce side]
    simpa [Channel.sentPlaintexts] using (h.ordered side (c.current side)).length_le
  have heq := buildNonce_inj (lt_of_le_threshold (hi.le.trans (h.bounded _ _)))
    (lt_of_le_threshold (hle.trans (h.bounded _ _))) hi'
  rw [← heq, Channel.sentPlaintexts, List.getElem?_map, List.getElem?_eq_getElem hi, hget]
  rfl

theorem prefix_snoc {α : Type} {l m : List α} {a : α} (h : l <+: m) (ha : m[l.length]? = some a) :
    l ++ [a] <+: m := by
  obtain ⟨rest, rfl⟩ := h
  cases rest with
  | nil => simp at ha
  | cons b rest =>
    simp only [List.getElem?_append_right le_rfl, Nat.sub_self, List.getElem?_cons_zero,
      Option.some.injEq] at ha
    exact ⟨rest, by simp [ha]⟩

/-- A message enters the record. -/
def Channel.sending (c : Channel) (side : Side) (s : SecureSession) (e : Sent) : Channel :=
  { c with session := Function.update c.session side s, sent := c.sent ++ [e] }

/-- A message enters the log of the receiver. -/
def Channel.accepting (c : Channel) (side : Side) (s : SecureSession) (plaintext : Bytes) :
    Channel :=
  { c with
    session := Function.update c.session side s
    accepted := c.accepted ++ [⟨side, c.current side, plaintext⟩] }

theorem sentUnder_sending (c : Channel) (side side' : Side) (s : SecureSession) (e : Sent)
    (k : Key) : (c.sending side s e).sentUnder side' k =
      c.sentUnder side' k ++ if e.under side' k then [e] else [] := by
  simp only [Channel.sentUnder, Channel.sending, List.filter_append]
  congr 1
  split
  · next hunder => simp [hunder]
  · next hunder => simp [hunder]

theorem acceptedPlaintexts_accepting (c : Channel) (side side' : Side) (s : SecureSession)
    (plaintext : Bytes) (k : Key) :
    (c.accepting side s plaintext).acceptedPlaintexts side' k =
      c.acceptedPlaintexts side' k ++
        if side = side' ∧ c.current side = k then [plaintext] else [] := by
  simp only [Channel.acceptedPlaintexts, Channel.accepting, List.filter_append, List.map_append]
  congr 1
  split
  · next hunder =>
    have htrue : Accepted.under side' k ⟨side, c.current side, plaintext⟩ = true := by
      simpa [Accepted.under] using hunder
    simp [htrue]
  · next hunder =>
    have hfalse : Accepted.under side' k ⟨side, c.current side, plaintext⟩ = false := by
      simpa [Accepted.under] using hunder
    simp [hfalse]

/-- The next use of a key is a new one. -/
theorem use_fresh (h : InStep crypto known c) (hapart : Apart crypto known) {side : Side}
    (hroom : (c.session side).sendNonce < nonceOverflowThreshold) :
    ((c.session side).sendCipher, buildNonce (c.session side).sendNonce) ∉ c.uses := by
  intro hmem
  obtain ⟨_, hrecord, huse⟩ := List.mem_map.mp hmem
  obtain ⟨e, he, rfl⟩ := List.mem_map.mp hrecord
  obtain ⟨hkey, hnonce⟩ := Prod.mk.inj huse
  obtain ⟨hsentKey, hinstalled⟩ := h.keyed e he
  rw [h.send side, hsentKey] at hkey
  obtain ⟨hsender, hsession⟩ := hapart _ (h.known _ hinstalled) _
    (h.known _ (h.current side)) _ _ hkey
  have hunder : e ∈ c.sentUnder side (c.current side) :=
    List.mem_filter.mpr ⟨he, sent_under.mpr ⟨hsender, hsession⟩⟩
  obtain ⟨i, hi, hget⟩ := List.mem_iff_getElem.mp hunder
  have hi' : buildNonce i = buildNonce (c.session side).sendNonce := by
    rw [← numbered_getElem h hi, hget]
    exact hnonce
  have heq := buildNonce_inj (lt_of_le_threshold (hi.le.trans (h.bounded _ _)))
    (lt_of_le_threshold hroom.le) hi'
  rw [← h.sendNonce side, heq] at hi
  exact lt_irrefl _ hi

theorem InStep.sending (h : InStep crypto known c) (hapart : Apart crypto known) {side : Side}
    {s' : SecureSession} {e : Sent} (hroom : (c.session side).sendNonce < nonceOverflowThreshold)
    (hsend : s'.sendCipher = (c.session side).sendCipher)
    (hrecv : s'.recvCipher = (c.session side).recvCipher)
    (hsendNonce : s'.sendNonce = (c.session side).sendNonce + 1)
    (hrecvNonce : s'.recvNonce = (c.session side).recvNonce)
    (hkey : e.key = (c.session side).sendCipher)
    (hnonce : e.nonce = buildNonce (c.session side).sendNonce)
    (hsender : e.sender = side) (hsession : e.sessionKey = c.current side) :
    InStep crypto known (c.sending side s' e) := by
  have hsession' : ∀ other, (c.sending side s' e).session other =
      if other = side then s' else c.session other := Function.update_apply _ _ _
  have hunder : ∀ other k, e.under other k = true ↔ side = other ∧ c.current side = k := by
    intro other k
    rw [sent_under, hsender, hsession]
  constructor
  case current => exact h.current
  case known => exact h.known
  case received => exact h.received
  case send =>
    intro other
    rw [hsession']
    split
    · next heq =>
      subst heq
      exact hsend.trans (h.send _)
    · exact h.send other
  case recv =>
    intro other
    rw [hsession']
    split
    · next heq =>
      subst heq
      exact hrecv.trans (h.recv _)
    · exact h.recv other
  case sendNonce =>
    intro other
    rw [hsession', sentUnder_sending]
    split
    · next heq =>
      subst heq
      have htrue := (hunder other (c.current other)).mpr ⟨rfl, rfl⟩
      change s'.sendNonce = (c.sentUnder other (c.current other) ++
        if e.under other (c.current other) then [e] else []).length
      rw [if_pos htrue, List.length_append, ← h.sendNonce, hsendNonce]
      rfl
    · next hne =>
      have hfalse : ¬ e.under other ((c.sending side s' e).current other) = true := by
        rw [hunder]
        exact fun hboth => hne hboth.1.symm
      rw [if_neg hfalse, List.append_nil]
      exact h.sendNonce other
  case recvNonce =>
    intro other
    rw [hsession']
    split
    · next heq =>
      subst heq
      exact hrecvNonce.trans (h.recvNonce _)
    · exact h.recvNonce other
  case keyed =>
    intro e' he'
    cases List.mem_append.mp he' with
    | inl hold => exact h.keyed e' hold
    | inr hnew =>
      rw [List.mem_singleton.mp hnew, hsender, hsession]
      exact ⟨hkey.trans (h.send side), h.current side⟩
  case numbered =>
    intro other k
    rw [sentUnder_sending]
    split
    · next htrue =>
      obtain ⟨rfl, rfl⟩ := (hunder other k).mp htrue
      rw [List.length_append, List.length_singleton, List.range_succ, List.map_append,
        List.map_append, h.numbered, ← h.sendNonce, List.map_singleton, List.map_singleton, hnonce]
    · rw [List.append_nil]
      exact h.numbered other k
  case bounded =>
    intro other k
    rw [sentUnder_sending]
    split
    · next htrue =>
      obtain ⟨rfl, rfl⟩ := (hunder other k).mp htrue
      rw [List.length_append, ← h.sendNonce]
      exact hroom
    · rw [List.append_nil]
      exact h.bounded other k
  case ordered =>
    intro other k
    refine (h.ordered other k).trans ?_
    rw [Channel.sentPlaintexts, Channel.sentPlaintexts, sentUnder_sending, List.map_append]
    exact List.prefix_append _ _
  case unused =>
    have huses : (c.sending side s' e).uses = c.uses ++ [(e.key, e.nonce)] := by
      simp [Channel.uses, Channel.record, Channel.sending, Aead.Sealed.use]
    rw [huses, List.nodup_append']
    refine ⟨h.unused, List.nodup_singleton _, ?_⟩
    rw [List.disjoint_singleton, hkey, hnonce]
    exact use_fresh h hapart hroom

theorem InStep.accepting (h : InStep crypto known c) {side : Side} {s' : SecureSession}
    {plaintext : Bytes}
    (hnext : (c.sentPlaintexts side.other (c.current side))[(c.session side).recvNonce]? =
      some plaintext)
    (hsend : s'.sendCipher = (c.session side).sendCipher)
    (hrecv : s'.recvCipher = (c.session side).recvCipher)
    (hsendNonce : s'.sendNonce = (c.session side).sendNonce)
    (hrecvNonce : s'.recvNonce = (c.session side).recvNonce + 1) :
    InStep crypto known (c.accepting side s' plaintext) := by
  have hsession' : ∀ other, (c.accepting side s' plaintext).session other =
      if other = side then s' else c.session other := Function.update_apply _ _ _
  constructor
  case current => exact h.current
  case known => exact h.known
  case keyed => exact h.keyed
  case numbered => exact h.numbered
  case bounded => exact h.bounded
  case unused => exact h.unused
  case send =>
    intro other
    rw [hsession']
    split
    · next heq =>
      subst heq
      exact hsend.trans (h.send _)
    · exact h.send other
  case recv =>
    intro other
    rw [hsession']
    split
    · next heq =>
      subst heq
      exact hrecv.trans (h.recv _)
    · exact h.recv other
  case sendNonce =>
    intro other
    rw [hsession']
    split
    · next heq =>
      subst heq
      exact hsendNonce.trans (h.sendNonce _)
    · exact h.sendNonce other
  case recvNonce =>
    intro other
    rw [hsession', acceptedPlaintexts_accepting]
    split
    · next heq =>
      subst heq
      change s'.recvNonce = (c.acceptedPlaintexts other (c.current other) ++
        if other = other ∧ c.current other = c.current other then [plaintext] else []).length
      rw [if_pos ⟨rfl, rfl⟩, List.length_append, ← h.recvNonce, hrecvNonce]
      rfl
    · next hne =>
      rw [if_neg fun hboth => hne hboth.1.symm, List.append_nil]
      exact h.recvNonce other
  case received =>
    intro a ha
    cases List.mem_append.mp ha with
    | inl hold => exact h.received a hold
    | inr hnew =>
      rw [List.mem_singleton.mp hnew]
      exact h.current side
  case ordered =>
    intro other k
    rw [acceptedPlaintexts_accepting]
    split
    · next hboth =>
      obtain ⟨rfl, rfl⟩ := hboth
      rw [h.recvNonce side] at hnext
      exact prefix_snoc (h.ordered side _) hnext
    · rw [List.append_nil]
      exact h.ordered other k

theorem InStep.rekeying (h : InStep crypto known c) {side : Side} {newKey : Key}
    (hknown : newKey ∈ known) (hnew : newKey ∉ c.installed side) :
    InStep crypto known (c.step crypto (.rekey side newKey side.isInitiator)) := by
  obtain ⟨hunsent, hunaccepted⟩ := nil_of_uninstalled h hnew
  have hsession' : ∀ other, (c.step crypto (.rekey side newKey side.isInitiator)).session other =
      if other = side then (c.session side).resetAfterRekey crypto newKey side.isInitiator
      else c.session other := Function.update_apply _ _ _
  have hinstalled : ∀ other,
      (c.step crypto (.rekey side newKey side.isInitiator)).installed other =
        if other = side then newKey :: c.installed side else c.installed other :=
    Function.update_apply _ _ _
  have hcurrent : ∀ other,
      (c.step crypto (.rekey side newKey side.isInitiator)).current other =
        if other = side then newKey else c.current other := by
    intro other
    rw [Channel.current, hinstalled]
    split
    · rfl
    · rfl
  have hmono : ∀ other, c.installed other ⊆
      (c.step crypto (.rekey side newKey side.isInitiator)).installed other := by
    intro other
    rw [hinstalled]
    split
    · next heq =>
      rw [heq]
      exact List.subset_cons_self _ _
    · exact List.Subset.refl _
  constructor
  case numbered => exact h.numbered
  case bounded => exact h.bounded
  case ordered => exact h.ordered
  case unused => exact h.unused
  case keyed =>
    intro e he
    exact ⟨(h.keyed e he).1, hmono _ (h.keyed e he).2⟩
  case received =>
    intro a ha
    exact hmono _ (h.received a ha)
  case current =>
    intro other
    rw [hcurrent, hinstalled]
    split
    · exact List.mem_cons_self
    · exact h.current other
  case known =>
    intro other
    rw [hinstalled]
    split
    · exact List.cons_subset.mpr ⟨hknown, h.known side⟩
    · exact h.known other
  case send =>
    intro other
    rw [hsession', hcurrent]
    split
    · next heq =>
      subst heq
      exact congrArg Prod.fst (deriveDirectionalKeys_eq crypto other newKey)
    · exact h.send other
  case recv =>
    intro other
    rw [hsession', hcurrent]
    split
    · next heq =>
      subst heq
      exact congrArg Prod.snd (deriveDirectionalKeys_eq crypto other newKey)
    · exact h.recv other
  case sendNonce =>
    intro other
    rw [hsession', hcurrent]
    split
    · next heq =>
      subst heq
      exact (congrArg List.length hunsent).symm
    · exact h.sendNonce other
  case recvNonce =>
    intro other
    rw [hsession', hcurrent]
    split
    · next heq =>
      subst heq
      exact (congrArg List.length hunaccepted).symm
    · exact h.recvNonce other

theorem step_inStep (h : InStep crypto known c) (hapart : Apart crypto known) {op : Op}
    (hfresh : Fresh known c op) : InStep crypto known (c.step crypto op) := by
  cases op with
  | encrypt side plaintext =>
    have hencrypted := encrypt_encrypted crypto (c.session side) plaintext
    simp only [Channel.step]
    generalize (c.session side).encrypt crypto plaintext = r at hencrypted
    cases hencrypted with
    | refused e =>
      simp only [Function.update_eq_self]
      exact h
    | sealed frame room send recv sendNonce recvNonce =>
      exact h.sending hapart room send recv sendNonce recvNonce rfl rfl rfl rfl
  | decrypt side frame =>
    have hdecrypted := decrypt_decrypted c.record (c.session side) frame
    simp only [Channel.step]
    generalize (c.session side).decrypt c.record frame = r at hdecrypted
    cases hdecrypted with
    | rejected e =>
      simp only [Function.update_eq_self]
      exact h
    | opened e mem key nonce send recv sendNonce recvNonce =>
      exact h.accepting (opened_next h hapart mem key nonce) send recv sendNonce recvNonce
  | rekey side newKey isInitiator =>
    obtain ⟨hknown, hnew, rfl⟩ := hfresh
    exact h.rekeying hknown hnew

theorem inStep_new {sessionKey : Key} (hknown : sessionKey ∈ known) :
    InStep crypto known (.new crypto sessionKey) where
  send side := congrArg Prod.fst (deriveDirectionalKeys_eq crypto side sessionKey)
  recv side := congrArg Prod.snd (deriveDirectionalKeys_eq crypto side sessionKey)
  sendNonce _ := rfl
  recvNonce _ := rfl
  current _ := List.mem_cons_self
  known _ := List.cons_subset.mpr ⟨hknown, List.nil_subset _⟩
  keyed _ h := absurd h List.not_mem_nil
  received _ h := absurd h List.not_mem_nil
  numbered _ _ := rfl
  bounded _ _ := Nat.zero_le _
  ordered _ _ := List.nil_prefix
  unused := List.nodup_nil

/-! ## Runs -/

def Op.newKeys (side : Side) : Op → List Key
  | .rekey side' newKey _ => if side' = side then [newKey] else []
  | _ => []

def Op.anyKeys : Op → List Key
  | .rekey _ newKey _ => [newKey]
  | _ => []

/-- Every rekey brings the side a session key it has not had and keeps its role, and the
key derivation does not collide on the session keys of the run. -/
structure FreshKeys (crypto : Crypto) (sessionKey : Key) (ops : List Op) : Prop where
  roles : ∀ side newKey isInitiator, .rekey side newKey isInitiator ∈ ops →
    isInitiator = side.isInitiator
  distinct : ∀ side, (sessionKey :: ops.flatMap (Op.newKeys side)).Nodup
  apart : Apart crypto (sessionKey :: ops.flatMap Op.anyKeys)

theorem installed_run (crypto : Crypto) (sessionKey : Key) (ops : List Op) (side : Side) :
    ((Channel.run crypto sessionKey ops).installed side).reverse =
      sessionKey :: ops.flatMap (Op.newKeys side) := by
  induction ops using List.reverseRecOn with
  | nil => rfl
  | append_singleton ops op ih =>
    have hrun : Channel.run crypto sessionKey (ops ++ [op]) =
        (Channel.run crypto sessionKey ops).step crypto op := Machine.run_append _ ops [op]
    rw [hrun, List.flatMap_append, ← List.cons_append, ← ih]
    generalize Channel.run crypto sessionKey ops = c
    cases op with
    | encrypt side' plaintext =>
      simp only [Channel.step]
      split <;> simp [Op.newKeys]
    | decrypt side' frame =>
      simp only [Channel.step]
      split <;> simp [Op.newKeys]
    | rekey side' newKey isInitiator =>
      by_cases hside : side = side'
      · subst hside
        simp [Channel.step, Op.newKeys]
      · simp [Channel.step, Op.newKeys, Function.update_of_ne hside, Ne.symm hside]

theorem anyKeys_of_mem {op : Op} {side : Side} {newKey : Key} {isInitiator : Bool}
    {ops : List Op} (hop : op = .rekey side newKey isInitiator) (hmem : op ∈ ops) :
    newKey ∈ ops.flatMap Op.anyKeys := by
  subst hop
  exact List.mem_flatMap.mpr ⟨_, hmem, List.mem_singleton_self _⟩

theorem FreshKeys.fresh {sessionKey : Key} {ops before : List Op} {op : Op}
    (h : FreshKeys crypto sessionKey ops) (hle : before ++ [op] <+: ops) :
    Fresh (sessionKey :: ops.flatMap Op.anyKeys) (Channel.run crypto sessionKey before) op := by
  cases op with
  | encrypt side plaintext => trivial
  | decrypt side frame => trivial
  | rekey side newKey isInitiator =>
    have hmem : Op.rekey side newKey isInitiator ∈ ops :=
      hle.subset (List.mem_append_right _ (List.mem_singleton_self _))
    refine ⟨List.mem_cons_of_mem _ (anyKeys_of_mem rfl hmem), ?_, h.roles _ _ _ hmem⟩
    obtain ⟨after, rfl⟩ := hle
    have hnodup := h.distinct side
    rw [List.flatMap_append, List.flatMap_append, ← List.cons_append, ← List.cons_append,
      ← installed_run crypto sessionKey before side, List.nodup_append'] at hnodup
    have hapart := (List.nodup_append'.mp hnodup.1).2.2
    intro hinstalled
    exact hapart (List.mem_reverse.mpr hinstalled) (by simp [Op.newKeys])

theorem inStep_run {sessionKey : Key} {ops : List Op} (h : FreshKeys crypto sessionKey ops) :
    InStep crypto (sessionKey :: ops.flatMap Op.anyKeys) (Channel.run crypto sessionKey ops) :=
  Machine.run_guarded (P := InStep crypto (sessionKey :: ops.flatMap Op.anyKeys))
    (fun _ _ hc hfresh => step_inStep hc h.apart hfresh) (inStep_new List.mem_cons_self)
    (fun _ _ hle => h.fresh hle) (List.prefix_refl ops)

/-- What the channel promises. -/
structure Secure (crypto : Crypto) (c : Channel) : Prop where
  ordered : ∀ side sessionKey,
    c.acceptedPlaintexts side sessionKey <+: c.sentPlaintexts side.other sessionKey
  unused : c.uses.Nodup
  rejected : ∀ side frame e, ((c.session side).decrypt c.record frame).1 = .error e →
    c.step crypto (.decrypt side frame) = c

theorem channel_secure (crypto : Crypto) (sessionKey : Key) (ops : List Op)
    (h : FreshKeys crypto sessionKey ops) :
    Secure crypto (Channel.run crypto sessionKey ops) where
  ordered := (inStep_run h).ordered
  unused := (inStep_run h).unused
  rejected side frame e herror := by
    have hsame := decrypt_rejected herror
    simp only [Channel.step]
    generalize ((Channel.run crypto sessionKey ops).session side).decrypt
      (Channel.run crypto sessionKey ops).record frame = r at herror hsame
    obtain ⟨result, s⟩ := r
    cases herror
    simp only at hsame
    simp only [hsame, Function.update_eq_self]

namespace Sample

def firstKey : Key := 0x4242424242424242424242424242424242424242424242424242424242424242
def secondKey : Key := 0x9999999999999999999999999999999999999999999999999999999999999999

def firstInitToResp : Key := 0x221b16f7db2fae11f2769398d329b9fd7fba2a084f19e8f2fc7db67c6c4e496c
def firstRespToInit : Key := 0x28e0fe1070df0c26d0720b1c0a3db6e51c15b098977250ffcd3906200da9cbbe
def secondInitToResp : Key := 0x5ad480c27dcbc21cb030903bd410a6dc022bbd160d643c414d9ec9840ea558eb
def secondRespToInit : Key := 0xc914170df5f0886b8f8f0679678306781486ce029e247e9274de668a1e80b73f

def derived : List ((Key × Bytes) × Key) :=
  [((firstKey, initToResp), firstInitToResp), ((firstKey, respToInit), firstRespToInit),
    ((secondKey, initToResp), secondInitToResp), ((secondKey, respToInit), secondRespToInit)]

def ping : Bytes :=
  (Bytes.le 20 0x3faed7295d52f0394667ed9a80c8daec038ad822).reverse

def pong : Bytes :=
  (Bytes.le 20 0x97901b26a61107cbca8d56bf2a6f57dfa5e369b1).reverse

def again : Bytes :=
  (Bytes.le 21 0x2ea0d827c73fee65e28b93d170892b074c2d930978).reverse

def ciphertexts : List ((Key × Bytes × Bytes) × Bytes) :=
  [((firstInitToResp, buildNonce 0, asciiBytes "ping"), ping),
    ((firstInitToResp, buildNonce 0, asciiBytes "again"), again),
    ((secondRespToInit, buildNonce 0, asciiBytes "pong"), pong)]

def suite : Crypto where
  hkdfExpand sessionKey info := (derived.lookup (sessionKey, info)).getD 0
  aesGcm key nonce plaintext := (ciphertexts.lookup (key, nonce, plaintext)).getD []

def pingFrame : Bytes := 0x10 :: (buildNonce 0 ++ ping)

/-- A message that arrives twice, a rekey on both sides, and an answer. -/
def ops : List Op :=
  [.encrypt .initiator (asciiBytes "ping"), .decrypt .responder pingFrame,
    .decrypt .responder pingFrame, .rekey .responder secondKey false,
    .encrypt .responder (asciiBytes "pong"), .rekey .initiator secondKey true,
    .decrypt .initiator (0x10 :: (buildNonce 0 ++ pong))]

/-- Both sides rekey to the session key they have. -/
def staleOps : List Op :=
  [.encrypt .initiator (asciiBytes "ping"), .rekey .initiator firstKey true,
    .rekey .responder firstKey false, .encrypt .initiator (asciiBytes "again"),
    .decrypt .responder pingFrame]

end Sample

def Sample.expected : Side → Bool → Key
  | .initiator, true => Sample.firstInitToResp
  | .responder, true => Sample.firstRespToInit
  | .initiator, false => Sample.secondInitToResp
  | .responder, false => Sample.secondRespToInit

theorem sendKey_suite :
    (∀ side, sendKey Sample.suite side Sample.firstKey = Sample.expected side true) ∧
      ∀ side, sendKey Sample.suite side Sample.secondKey = Sample.expected side false := by
  decide +kernel

theorem expected_injective : ∀ side side' first first',
    Sample.expected side first = Sample.expected side' first' → side = side' ∧ first = first' := by
  decide +kernel

theorem apart_suite : Apart Sample.suite (Sample.firstKey :: Sample.ops.flatMap Op.anyKeys) := by
  have hkeys : ∀ k ∈ Sample.firstKey :: Sample.ops.flatMap Op.anyKeys,
      ∃ first : Bool, k = if first then Sample.firstKey else Sample.secondKey := by
    intro k hk
    have hk : k = Sample.firstKey ∨ k = Sample.secondKey := by
      simpa [Sample.ops, Op.anyKeys] using hk
    cases hk with
    | inl hk => exact ⟨true, hk⟩
    | inr hk => exact ⟨false, hk⟩
  have hsend : ∀ side (first : Bool), sendKey Sample.suite side
      (if first then Sample.firstKey else Sample.secondKey) = Sample.expected side first := by
    intro side first
    cases first with
    | true => exact sendKey_suite.1 side
    | false => exact sendKey_suite.2 side
  intro k hk k' hk' side side' hsame
  obtain ⟨first, rfl⟩ := hkeys k hk
  obtain ⟨first', rfl⟩ := hkeys k' hk'
  rw [hsend, hsend] at hsame
  obtain ⟨hside, hfirst⟩ := expected_injective side side' first first' hsame
  exact ⟨hside, by rw [hfirst]⟩

theorem channel_secure_sample :
    Secure Sample.suite (Channel.run Sample.suite Sample.firstKey Sample.ops) := by
  apply channel_secure
  constructor
  · intro side newKey isInitiator hmem
    simp only [Sample.ops, List.mem_cons, reduceCtorEq, Op.rekey.injEq, List.not_mem_nil,
      false_or, or_false] at hmem
    obtain ⟨rfl, _, rfl⟩ | ⟨rfl, _, rfl⟩ := hmem
    · rfl
    · rfl
  · decide +kernel
  · exact apart_suite

/-- After such a rekey a key and a nonce serve twice, and an old frame is accepted. -/
theorem stale_rekey_reuses_nonce :
    ¬ (Channel.run Sample.suite Sample.firstKey Sample.staleOps).uses.Nodup ∧
      (Channel.run Sample.suite Sample.firstKey Sample.staleOps).accepted.map
        Accepted.plaintext = [asciiBytes "ping"] := by
  decide +kernel

end Qubitcoin.Transport
