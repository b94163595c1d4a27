import Qubitcoin.Qvm.StateChannels

/-! Runs of the channel manager: what a channel settles, and which of the offered states. -/

namespace Qubitcoin.Qvm.StateChannels

namespace StateChannel

variable (channel : StateChannel)

/-- Balances that are allowed as a split of what the channel locks. -/
def Splits (balanceA balanceB : ℚ) : Prop :=
  |balanceA + balanceB - channel.totalLocked| ≤ 1 / 10 ^ 8 ∧ 0 ≤ balanceA ∧ 0 ≤ balanceB

def TakesUpdate (balanceA balanceB : ℚ) : Prop :=
  (channel.state = .opened ∨ channel.state = .updating) ∧ channel.Splits balanceA balanceB

def TakesDispute (update : StateUpdate) (blockHeight : ℤ) : Prop :=
  channel.state = .closing ∧ blockHeight ≤ channel.deadline ∧ channel.nonce < update.nonce

end StateChannel

section Calls

variable {self self' : StateChannelManager} {channelId : String}

theorem exists_openChannel {keccak256 : String → String} {now partyA partyB : String}
    {depositA depositB : ℚ} {blockHeight : ℤ}
    (h : self.openChannel keccak256 now partyA partyB depositA depositB blockHeight =
      .ok (channelId, self')) :
    ∃ channel : StateChannel, self'.channels = self.channels.insert channelId channel ∧
      channel.state = .opened ∧ channel.nonce = 0 ∧
      channel.balanceA = channel.depositA ∧ channel.balanceB = channel.depositB ∧
      0 ≤ channel.depositA ∧ 0 ≤ channel.depositB ∧
      channel.depositA = depositA ∧ channel.depositB = depositB := by
  unfold StateChannelManager.openChannel at h
  split at h
  · cases h
  · next hdeposits =>
    split at h
    · cases h
    · split at h
      · cases h
      · split at h
        · cases h
        · cases h
          rw [not_or, not_lt, not_lt, MIN_CHANNEL_DEPOSIT] at hdeposits
          have hA : (0 : ℚ) ≤ depositA := le_trans (by norm_num) hdeposits.1
          have hB : (0 : ℚ) ≤ depositB := le_trans (by norm_num) hdeposits.2
          exact ⟨_, rfl, rfl, rfl, rfl, rfl, hA, hB, rfl, rfl⟩

theorem updateState_eq_ok {balanceA balanceB : ℚ} {signatureA signatureB : String}
    {update : StateUpdate}
    (h : self.updateState channelId balanceA balanceB signatureA signatureB =
      .ok (update, self')) :
    ∃ channel, self.channels.lookup channelId = some channel ∧
      channel.TakesUpdate balanceA balanceB ∧
      update = ⟨channelId, channel.nonce + 1, balanceA, balanceB, signatureA, signatureB⟩ ∧
      self'.channels = self.channels.insert channelId
        { channel with
          nonce := update.nonce
          balanceA := update.balanceA
          balanceB := update.balanceB
          state := .updating
          updates := channel.updates ++ [update] } := by
  unfold StateChannelManager.updateState at h
  cases hlookup : self.channels.lookup channelId with
  | none =>
    rw [hlookup] at h
    cases h
  | some channel =>
    rw [hlookup] at h
    dsimp only at h
    split at h
    · cases h
    · next hstate =>
      split at h
      · cases h
      · next hsum =>
        split at h
        · cases h
        · next hbalances =>
          cases h
          rw [not_or, not_lt, not_lt] at hbalances
          refine ⟨channel, rfl, ⟨?_, not_lt.mp hsum, hbalances⟩, rfl, rfl⟩
          by_contra hneither
          exact hstate (not_or.mp hneither)

theorem initiateClose_eq_ok {blockHeight deadline : ℤ}
    (h : self.initiateClose channelId blockHeight = .ok (deadline, self')) :
    ∃ channel, self.channels.lookup channelId = some channel ∧ channel.state ≠ .closed ∧
      self'.channels = self.channels.insert channelId
        { channel with state := .closing, closeBlock := blockHeight } := by
  unfold StateChannelManager.initiateClose at h
  cases hlookup : self.channels.lookup channelId with
  | none =>
    rw [hlookup] at h
    cases h
  | some channel =>
    rw [hlookup] at h
    dsimp only at h
    split at h
    · cases h
    · next hstate =>
      cases h
      exact ⟨channel, rfl, hstate, rfl⟩

theorem dispute_eq_ok {update : StateUpdate} {blockHeight nonce : ℤ}
    (h : self.dispute channelId update blockHeight = .ok (nonce, self')) :
    ∃ channel, self.channels.lookup channelId = some channel ∧
      channel.TakesDispute update blockHeight ∧
      self'.channels = self.channels.insert channelId
        { channel with
          nonce := update.nonce
          balanceA := update.balanceA
          balanceB := update.balanceB
          state := .disputed
          closeBlock := blockHeight } := by
  unfold StateChannelManager.dispute at h
  cases hlookup : self.channels.lookup channelId with
  | none =>
    rw [hlookup] at h
    cases h
  | some channel =>
    rw [hlookup] at h
    dsimp only at h
    split at h
    · cases h
    · next hstate =>
      split at h
      · cases h
      · next hheight =>
        split at h
        · cases h
        · next hnonce =>
          cases h
          exact ⟨channel, rfl, ⟨not_not.mp hstate, not_lt.mp hheight, not_le.mp hnonce⟩, rfl⟩

/-- A dispute is accepted exactly if the channel takes it. -/
theorem exists_dispute_iff {channel : StateChannel}
    (hlookup : self.channels.lookup channelId = some channel) {update : StateUpdate}
    {blockHeight : ℤ} :
    (∃ result, self.dispute channelId update blockHeight = .ok result) ↔
      channel.TakesDispute update blockHeight := by
  constructor
  · rintro ⟨⟨nonce, self'⟩, h⟩
    obtain ⟨channel', hlookup', htakes, -⟩ := dispute_eq_ok h
    rw [hlookup] at hlookup'
    cases hlookup'
    exact htakes
  · rintro ⟨hstate, hheight, hnonce⟩
    simp [StateChannelManager.dispute, hlookup, hstate, not_lt.mpr hheight, not_le.mpr hnonce]

theorem finalize_eq_ok {blockHeight : ℤ} {settlement : Settlement}
    (h : self.finalize channelId blockHeight = .ok (settlement, self')) :
    ∃ channel, self.channels.lookup channelId = some channel ∧
      (channel.state = .closing ∨ channel.state = .disputed) ∧ channel.deadline ≤ blockHeight ∧
      settlement = ⟨channel.partyA, channel.balanceA, channel.partyB, channel.balanceB⟩ ∧
      self'.channels = self.channels.insert channelId { channel with state := .closed } := by
  unfold StateChannelManager.finalize at h
  cases hlookup : self.channels.lookup channelId with
  | none =>
    rw [hlookup] at h
    cases h
  | some channel =>
    rw [hlookup] at h
    dsimp only at h
    split at h
    · cases h
    · next hstate =>
      split at h
      · cases h
      · next hheight =>
        cases h
        refine ⟨channel, rfl, ?_, not_lt.mp hheight, rfl, rfl⟩
        by_contra hneither
        exact hstate (not_or.mp hneither)

end Calls

section Sessions

/-- A state of the channel that a party may hold. -/
structure Version where
  nonce : ℤ
  balanceA : ℚ
  balanceB : ℚ
  deriving DecidableEq

def StateUpdate.version (update : StateUpdate) : Version :=
  ⟨update.nonce, update.balanceA, update.balanceB⟩

def StateChannel.version (channel : StateChannel) : Version :=
  ⟨channel.nonce, channel.balanceA, channel.balanceB⟩

/-- What has been said of a channel since it was opened. -/
structure Record where
  /-- The state before it was closed. -/
  agreed : Version := ⟨0, 0, 0⟩
  /-- The updates that disputes have brought while they could be brought. -/
  offered : List StateUpdate := []
  lastDispute : Option ℤ := none
  /-- The updates that the channel has taken. -/
  taken : List StateUpdate := []

/-- The channel is closing and a challenge is in time, by its deadline or by its last dispute. -/
def Record.inTime (record : Record) (channel : StateChannel) (blockHeight : ℤ) : Bool :=
  (channel.state = .closing ∨ channel.state = .disputed) ∧
    (blockHeight ≤ channel.deadline ∨
      record.lastDispute.any fun last => blockHeight ≤ last + CHALLENGE_WINDOW_BLOCKS)

structure Session where
  manager : StateChannelManager := {}
  records : String → Record := fun _ => {}

def Session.note (session : Session) (manager : StateChannelManager) (channelId : String)
    (record : Record) : Session where
  manager := manager
  records := Function.update session.records channelId record

inductive Call
  | openChannel (now partyA partyB : String) (depositA depositB : ℚ) (blockHeight : ℤ)
  | updateState (channelId : String) (balanceA balanceB : ℚ) (signatureA signatureB : String)
  | initiateClose (channelId : String) (blockHeight : ℤ)
  | dispute (channelId : String) (update : StateUpdate) (blockHeight : ℤ)
  | finalize (channelId : String) (blockHeight : ℤ)

variable (keccak256 : String → String)

def Session.openChannel (session : Session) (now partyA partyB : String) (depositA depositB : ℚ)
    (blockHeight : ℤ) : Session :=
  match session.manager.openChannel keccak256 now partyA partyB depositA depositB blockHeight with
  | .error _ => session
  | .ok (channelId, manager) =>
    session.note manager channelId { agreed := ⟨0, depositA, depositB⟩ }

def Session.updateState (session : Session) (channelId : String) (balanceA balanceB : ℚ)
    (signatureA signatureB : String) : Session :=
  match session.manager.updateState channelId balanceA balanceB signatureA signatureB with
  | .error _ => session
  | .ok (update, manager) =>
    session.note manager channelId
      { agreed := update.version, taken := (session.records channelId).taken ++ [update] }

def Session.initiateClose (session : Session) (channelId : String) (blockHeight : ℤ) : Session :=
  match session.manager.initiateClose channelId blockHeight with
  | .error _ => session
  | .ok (_, manager) => { session with manager := manager }

def Session.dispute (session : Session) (channelId : String) (update : StateUpdate)
    (blockHeight : ℤ) : Session :=
  match session.manager.channels.lookup channelId with
  | none => session
  | some channel =>
    let record := session.records channelId
    let record :=
      if record.inTime channel blockHeight then
        { record with offered := record.offered ++ [update] }
      else record
    match session.manager.dispute channelId update blockHeight with
    | .error _ => session.note session.manager channelId record
    | .ok (_, manager) =>
      session.note manager channelId
        { record with lastDispute := some blockHeight, taken := record.taken ++ [update] }

def Session.finalize (session : Session) (channelId : String) (blockHeight : ℤ) : Session :=
  match session.manager.finalize channelId blockHeight with
  | .error _ => session
  | .ok (_, manager) => { session with manager := manager }

def step (session : Session) : Call → Session
  | .openChannel now partyA partyB depositA depositB blockHeight =>
    session.openChannel keccak256 now partyA partyB depositA depositB blockHeight
  | .updateState channelId balanceA balanceB signatureA signatureB =>
    session.updateState channelId balanceA balanceB signatureA signatureB
  | .initiateClose channelId blockHeight => session.initiateClose channelId blockHeight
  | .dispute channelId update blockHeight => session.dispute channelId update blockHeight
  | .finalize channelId blockHeight => session.finalize channelId blockHeight

/-- A new manager after the calls. -/
def after (calls : List Call) : Session := Machine.run (step keccak256) {} calls

end Sessions

section Invariants

variable {keccak256 : String → String} {session : Session}
  {Q : String → StateChannel → Record → Prop}

/-- A fact about each channel and what has been said of it. -/
def Session.Each (Q : String → StateChannel → Record → Prop) (session : Session) : Prop :=
  ∀ channelId channel, session.manager.channels.lookup channelId = some channel →
    Q channelId channel (session.records channelId)

theorem Session.Each.of_insert (h : session.Each Q) {session' : Session} {channelId : String}
    {channel : StateChannel}
    (hchannels : session'.manager.channels = session.manager.channels.insert channelId channel)
    (hrecords : ∀ q, q ≠ channelId → session'.records q = session.records q)
    (hQ : Q channelId channel (session'.records channelId)) : session'.Each Q := by
  intro q channel' hlookup
  rw [hchannels, ColumnFamily.lookup_insert_eq] at hlookup
  split at hlookup
  · next heq =>
    cases hlookup
    rw [heq]
    exact hQ
  · next hne =>
    rw [hrecords q hne]
    exact h q channel' hlookup

theorem Session.Each.note (h : session.Each Q) {manager : StateChannelManager}
    {channelId : String} {channel : StateChannel} {record : Record}
    (hchannels : manager.channels = session.manager.channels.insert channelId channel)
    (hQ : Q channelId channel record) : (session.note manager channelId record).Each Q := by
  apply h.of_insert hchannels
  · intro q hne
    exact Function.update_of_ne hne _ _
  · simpa [Session.note] using hQ

theorem Session.Each.note_record (h : session.Each Q) {channelId : String}
    {channel : StateChannel} {record : Record}
    (hlookup : session.manager.channels.lookup channelId = some channel)
    (hQ : Q channelId channel record) : (session.note session.manager channelId record).Each Q := by
  intro q channel' hlookup'
  by_cases hq : q = channelId
  · subst hq
    change session.manager.channels.lookup q = some channel' at hlookup'
    rw [hlookup] at hlookup'
    cases hlookup'
    simpa [Session.note] using hQ
  · simpa [Session.note, hq] using h q channel' hlookup'

theorem each_empty : ({} : Session).Each Q := by
  intro channelId channel hlookup
  cases hlookup

/-- The channel's own state is the agreed one or an offered one, and none that was offered is
newer. -/
def Newest (_ : String) (channel : StateChannel) (record : Record) : Prop :=
  channel.version ∈ record.agreed :: record.offered.map StateUpdate.version ∧
    ∀ update ∈ record.offered, update.nonce ≤ channel.nonce

/-- A challenge that is in time and newer than the channel meets it in its closing state and by its
deadline. -/
def Timely (session : Session) : Call → Prop
  | .dispute channelId update blockHeight =>
    ∀ channel, session.manager.channels.lookup channelId = some channel →
      (session.records channelId).inTime channel blockHeight = true →
      channel.nonce < update.nonce →
      channel.state = .closing ∧ blockHeight ≤ channel.deadline
  | _ => True

theorem StateChannel.TakesDispute.inTime {channel : StateChannel} {update : StateUpdate}
    {blockHeight : ℤ} (h : channel.TakesDispute update blockHeight) (record : Record) :
    record.inTime channel blockHeight = true := by
  simp [Record.inTime, h.1, h.2.1]

/-- A challenge that is refused and in time is not newer than the channel. -/
theorem Timely.nonce_le {channelId : String} {update : StateUpdate} {blockHeight : ℤ}
    (h : Timely session (.dispute channelId update blockHeight)) {channel : StateChannel}
    (hlookup : session.manager.channels.lookup channelId = some channel)
    (htime : (session.records channelId).inTime channel blockHeight = true)
    (hrefused : ¬channel.TakesDispute update blockHeight) : update.nonce ≤ channel.nonce := by
  by_contra hnewer
  obtain ⟨hstate, hheight⟩ := h channel hlookup htime (not_le.mp hnewer)
  exact hrefused ⟨hstate, hheight, not_le.mp hnewer⟩

theorem Newest.dispute (h : session.Each Newest) {channelId : String} {update : StateUpdate}
    {blockHeight : ℤ} (htimely : Timely session (.dispute channelId update blockHeight)) :
    (session.dispute channelId update blockHeight).Each Newest := by
  unfold Session.dispute
  cases hlookup : session.manager.channels.lookup channelId with
  | none => exact h
  | some channel =>
    obtain ⟨hversion, hoffered⟩ := h channelId channel hlookup
    dsimp only
    cases hdispute : session.manager.dispute channelId update blockHeight with
    | error e =>
      apply h.note_record hlookup
      split
      · next htime =>
        have hrefused : ¬channel.TakesDispute update blockHeight := by
          rw [← exists_dispute_iff hlookup, hdispute]
          rintro ⟨result, hresult⟩
          cases hresult
        have hle := htimely.nonce_le hlookup htime hrefused
        refine ⟨?_, fun offer hoffer => ?_⟩
        · rw [List.map_append, ← List.cons_append]
          exact List.mem_append_left _ hversion
        · rcases List.mem_append.mp hoffer with hold | hlast
          · exact hoffered offer hold
          · rw [List.mem_singleton.mp hlast]
            exact hle
      · exact ⟨hversion, hoffered⟩
    | ok result =>
      obtain ⟨nonce, manager⟩ := result
      obtain ⟨channel', hlookup', htakes, hchannels⟩ := dispute_eq_ok hdispute
      rw [hlookup] at hlookup'
      cases hlookup'
      apply h.note hchannels
      rw [if_pos (htakes.inTime _)]
      constructor
      · simp [StateChannel.version, StateUpdate.version]
      · intro offer hoffer
        rcases List.mem_append.mp hoffer with hold | hlast
        · exact (hoffered offer hold).trans htakes.2.2.le
        · rw [List.mem_singleton.mp hlast]

theorem Session.Each.initiateClose (h : session.Each Q)
    (hQ : ∀ channelId channel record blockHeight, Q channelId channel record →
      Q channelId { channel with state := .closing, closeBlock := blockHeight } record)
    (channelId : String) (blockHeight : ℤ) : (session.initiateClose channelId blockHeight).Each Q := by
  unfold Session.initiateClose
  cases hclose : session.manager.initiateClose channelId blockHeight with
  | error e => exact h
  | ok result =>
    obtain ⟨deadline, manager⟩ := result
    obtain ⟨channel, hlookup, -, hchannels⟩ := initiateClose_eq_ok hclose
    exact h.of_insert hchannels (fun _ _ => rfl) (hQ _ _ _ _ (h channelId channel hlookup))

theorem Session.Each.finalize (h : session.Each Q)
    (hQ : ∀ channelId channel record, Q channelId channel record →
      Q channelId { channel with state := .closed } record)
    (channelId : String) (blockHeight : ℤ) : (session.finalize channelId blockHeight).Each Q := by
  unfold Session.finalize
  cases hfinalize : session.manager.finalize channelId blockHeight with
  | error e => exact h
  | ok result =>
    obtain ⟨settlement, manager⟩ := result
    obtain ⟨channel, hlookup, -, -, -, hchannels⟩ := finalize_eq_ok hfinalize
    exact h.of_insert hchannels (fun _ _ => rfl) (hQ _ _ _ (h channelId channel hlookup))

theorem Newest.step (h : session.Each Newest) {call : Call} (htimely : Timely session call) :
    (step keccak256 session call).Each Newest := by
  cases call with
  | openChannel now partyA partyB depositA depositB blockHeight =>
    unfold StateChannels.step Session.openChannel
    dsimp only
    cases hopen : session.manager.openChannel keccak256 now partyA partyB depositA depositB
      blockHeight with
    | error e => exact h
    | ok result =>
      obtain ⟨channelId, manager⟩ := result
      obtain ⟨channel, hchannels, -, hnonce, hA, hB, -, -, rfl, rfl⟩ := exists_openChannel hopen
      apply h.note hchannels
      simp [Newest, StateChannel.version, hnonce, hA, hB]
  | updateState channelId balanceA balanceB signatureA signatureB =>
    unfold StateChannels.step Session.updateState
    dsimp only
    cases hupdate : session.manager.updateState channelId balanceA balanceB signatureA
      signatureB with
    | error e => exact h
    | ok result =>
      obtain ⟨update, manager⟩ := result
      obtain ⟨channel, -, -, -, hchannels⟩ := updateState_eq_ok hupdate
      apply h.note hchannels
      simp [Newest, StateChannel.version, StateUpdate.version]
  | initiateClose channelId blockHeight =>
    exact h.initiateClose (fun _ _ _ _ hnewest => hnewest) channelId blockHeight
  | dispute channelId update blockHeight => exact Newest.dispute h htimely
  | finalize channelId blockHeight =>
    exact h.finalize (fun _ _ _ hnewest => hnewest) channelId blockHeight

end Invariants

section Disputes

variable (keccak256 : String → String)

/-- What is settled is the newest of the agreed state and the offered ones, and every challenge
that is in time and newer than the channel is taken. -/
structure NewestWins (calls : List Call) : Prop where
  settled : ∀ before channelId blockHeight, before ++ [.finalize channelId blockHeight] <+: calls →
    ∀ settlement manager, (after keccak256 before).manager.finalize channelId blockHeight =
      .ok (settlement, manager) →
      ∃ version ∈ ((after keccak256 before).records channelId).agreed ::
          ((after keccak256 before).records channelId).offered.map StateUpdate.version,
        settlement.balanceA = version.balanceA ∧ settlement.balanceB = version.balanceB ∧
          ∀ update ∈ ((after keccak256 before).records channelId).offered,
            update.nonce ≤ version.nonce
  heard : ∀ before channelId update blockHeight,
    before ++ [.dispute channelId update blockHeight] <+: calls →
    ∀ channel, (after keccak256 before).manager.channels.lookup channelId = some channel →
      ((after keccak256 before).records channelId).inTime channel blockHeight = true →
      channel.nonce < update.nonce →
      ∃ result, (after keccak256 before).manager.dispute channelId update blockHeight = .ok result

/-- The newest state wins all along a run exactly if no newer challenge comes in time but to a
channel that is not closing. -/
theorem newestWins_iff_timely (calls : List Call) :
    NewestWins keccak256 calls ↔
      ∀ before call, before ++ [call] <+: calls → Timely (after keccak256 before) call := by
  constructor
  · intro hwins before call hle
    cases call with
    | dispute channelId update blockHeight =>
      intro channel hlookup htime hnewer
      have htakes := (exists_dispute_iff hlookup).mp
        (hwins.heard before channelId update blockHeight hle channel hlookup htime hnewer)
      exact ⟨htakes.1, htakes.2.1⟩
    | openChannel now partyA partyB depositA depositB blockHeight => trivial
    | updateState channelId balanceA balanceB signatureA signatureB => trivial
    | initiateClose channelId blockHeight => trivial
    | finalize channelId blockHeight => trivial
  · intro htimely
    have hnewest (before : List Call) (hle : before <+: calls) :
        (after keccak256 before).Each Newest :=
      Machine.run_guarded (P := Session.Each Newest) (G := Timely)
        (fun _ _ h hcall => Newest.step h hcall) each_empty htimely hle
    constructor
    · intro before channelId blockHeight hle settlement manager hfinalize
      obtain ⟨channel, hlookup, -, -, rfl, -⟩ := finalize_eq_ok hfinalize
      obtain ⟨hversion, hoffered⟩ :=
        hnewest before ((List.prefix_append _ _).trans hle) channelId channel hlookup
      exact ⟨channel.version, hversion, rfl, rfl, hoffered⟩
    · intro before channelId update blockHeight hle channel hlookup htime hnewer
      obtain ⟨hstate, hheight⟩ := htimely before _ hle channel hlookup htime hnewer
      exact (exists_dispute_iff hlookup).mpr ⟨hstate, hheight, hnewer⟩

/-- The digest of `alice:bob:1:1700000000.0`. -/
def sampleDigest (_ : String) : String :=
  "f20d6d013e2012eb46bb52c028a6767f140a52dbde65c1340d7ae06f95367215"

def sampleId : String := "f20d6d013e2012eb"

def sampleOpen : Call := .openChannel "1700000000.0" "alice" "bob" 100 100 1

/-- The second challenge comes 5 blocks after the first, with a newer state, and is not heard. -/
theorem newer_challenge_unheard :
    ¬NewestWins sampleDigest
      [sampleOpen, .initiateClose sampleId 10,
        .dispute sampleId ⟨sampleId, 5, 60, 140, "a5", "b5"⟩ 15,
        .dispute sampleId ⟨sampleId, 7, 70, 130, "a7", "b7"⟩ 20,
        .finalize sampleId 115] := by
  intro h
  let session := after sampleDigest
    [sampleOpen, .initiateClose sampleId 10,
      .dispute sampleId ⟨sampleId, 5, 60, 140, "a5", "b5"⟩ 15,
      .dispute sampleId ⟨sampleId, 7, 70, 130, "a7", "b7"⟩ 20]
  have hsettled : (session.manager.finalize sampleId 115).toOption.map (fun r => r.1.balanceA) =
      some 60 := by decide +kernel
  have hversions : (session.records sampleId).agreed ::
      (session.records sampleId).offered.map StateUpdate.version =
        [⟨0, 100, 100⟩, ⟨5, 60, 140⟩, ⟨7, 70, 130⟩] := by decide +kernel
  have hoffered : (session.records sampleId).offered =
      [⟨sampleId, 5, 60, 140, "a5", "b5"⟩, ⟨sampleId, 7, 70, 130, "a7", "b7"⟩] := by
    decide +kernel
  cases hfinalize : session.manager.finalize sampleId 115 with
  | error e =>
    rw [hfinalize] at hsettled
    cases hsettled
  | ok result =>
    rw [hfinalize] at hsettled
    obtain ⟨version, hversion, hA, -, hnewest⟩ :=
      h.settled _ sampleId 115 (List.prefix_refl _) result.1 result.2 hfinalize
    have hlast := hnewest ⟨sampleId, 7, 70, 130, "a7", "b7"⟩ (by
      change _ ∈ (session.records sampleId).offered
      rw [hoffered]
      simp)
    have hbalance : version.balanceA = 60 := hA.symm.trans (Option.some.inj hsettled)
    change version ∈ (session.records sampleId).agreed :: _ at hversion
    rw [hversions] at hversion
    simp only [List.mem_cons, List.not_mem_nil, or_false] at hversion
    rcases hversion with rfl | rfl | rfl
    · exact absurd hlast (by decide)
    · exact absurd hlast (by decide)
    · exact absurd hbalance (by norm_num)

end Disputes

section Settlements

/-- The channel's balances split what it locks, and they are those of its opening or of an update
for it that both parties signed. -/
def Backed (channelId : String) (channel : StateChannel) (record : Record) : Prop :=
  channel.Splits channel.balanceA channel.balanceB ∧
    ((channel.balanceA = channel.depositA ∧ channel.balanceB = channel.depositB) ∨
      ∃ update ∈ record.taken, update.channelId = channelId ∧ update.isFullySigned = true ∧
        update.balanceA = channel.balanceA ∧ update.balanceB = channel.balanceB)

/-- What a channel takes is signed by both parties, and what it takes from a dispute is a split for
it, too. -/
def Signed (session : Session) : Call → Prop
  | .updateState channelId balanceA balanceB signatureA signatureB =>
    ∀ channel, session.manager.channels.lookup channelId = some channel →
      channel.TakesUpdate balanceA balanceB → signatureA ≠ "" ∧ signatureB ≠ ""
  | .dispute channelId update blockHeight =>
    ∀ channel, session.manager.channels.lookup channelId = some channel →
      channel.TakesDispute update blockHeight →
      update.channelId = channelId ∧ update.isFullySigned = true ∧
        channel.Splits update.balanceA update.balanceB
  | _ => True

variable {keccak256 : String → String} {session : Session}

theorem Backed.of_taken {channelId : String} {channel : StateChannel} {record : Record}
    {update : StateUpdate} (htaken : update ∈ record.taken) (hid : update.channelId = channelId)
    (hsigned : update.isFullySigned = true)
    (hsplits : channel.Splits update.balanceA update.balanceB)
    (hA : channel.balanceA = update.balanceA) (hB : channel.balanceB = update.balanceB) :
    Backed channelId channel record := by
  refine ⟨?_, Or.inr ⟨update, htaken, hid, hsigned, hA.symm, hB.symm⟩⟩
  rw [hA, hB]
  exact hsplits

theorem Backed.dispute (h : session.Each Backed) {channelId : String} {update : StateUpdate}
    {blockHeight : ℤ} (hsigned : Signed session (.dispute channelId update blockHeight)) :
    (session.dispute channelId update blockHeight).Each Backed := by
  unfold Session.dispute
  cases hlookup : session.manager.channels.lookup channelId with
  | none => exact h
  | some channel =>
    have hbacked := h channelId channel hlookup
    dsimp only
    cases hdispute : session.manager.dispute channelId update blockHeight with
    | error e =>
      apply h.note_record hlookup
      split
      · exact hbacked
      · exact hbacked
    | ok result =>
      obtain ⟨nonce, manager⟩ := result
      obtain ⟨channel', hlookup', htakes, hchannels⟩ := dispute_eq_ok hdispute
      rw [hlookup] at hlookup'
      cases hlookup'
      obtain ⟨hid, hfully, hsplits⟩ := hsigned channel hlookup htakes
      apply h.note hchannels
      refine Backed.of_taken ?_ hid hfully ?_ rfl rfl
      · simp
      · exact hsplits

theorem Backed.step (h : session.Each Backed) {call : Call} (hsigned : Signed session call) :
    (step keccak256 session call).Each Backed := by
  cases call with
  | openChannel now partyA partyB depositA depositB blockHeight =>
    unfold StateChannels.step Session.openChannel
    dsimp only
    cases hopen : session.manager.openChannel keccak256 now partyA partyB depositA depositB
      blockHeight with
    | error e => exact h
    | ok result =>
      obtain ⟨channelId, manager⟩ := result
      obtain ⟨channel, hchannels, -, -, hA, hB, hdepositA, hdepositB, -, -⟩ :=
        exists_openChannel hopen
      apply h.note hchannels
      refine ⟨?_, Or.inl ⟨hA, hB⟩⟩
      rw [hA, hB]
      refine ⟨?_, hdepositA, hdepositB⟩
      rw [StateChannel.totalLocked, sub_self, abs_zero]
      norm_num
  | updateState channelId balanceA balanceB signatureA signatureB =>
    unfold StateChannels.step Session.updateState
    dsimp only
    cases hupdate : session.manager.updateState channelId balanceA balanceB signatureA
      signatureB with
    | error e => exact h
    | ok result =>
      obtain ⟨update, manager⟩ := result
      obtain ⟨channel, hlookup, htakes, rfl, hchannels⟩ := updateState_eq_ok hupdate
      have hboth := hsigned channel hlookup htakes
      apply h.note hchannels
      refine Backed.of_taken (List.mem_append_right _ (List.mem_singleton_self _)) rfl ?_ ?_ rfl rfl
      · simpa [StateUpdate.isFullySigned] using hboth
      · exact htakes.2
  | initiateClose channelId blockHeight =>
    exact h.initiateClose (fun _ _ _ _ hbacked => hbacked) channelId blockHeight
  | dispute channelId update blockHeight => exact Backed.dispute h hsigned
  | finalize channelId blockHeight =>
    exact h.finalize (fun _ _ _ hbacked => hbacked) channelId blockHeight

variable (keccak256)

/-- Every settlement splits what the channel locked, as its opening did or as an update for it that
both parties signed. -/
def SettlesSafely (calls : List Call) : Prop :=
  ∀ before channelId blockHeight, before ++ [.finalize channelId blockHeight] <+: calls →
    ∀ settlement manager, (after keccak256 before).manager.finalize channelId blockHeight =
      .ok (settlement, manager) →
    ∃ channel, (after keccak256 before).manager.channels.lookup channelId = some channel ∧
      channel.Splits settlement.balanceA settlement.balanceB ∧
      ((settlement.balanceA = channel.depositA ∧ settlement.balanceB = channel.depositB) ∨
        ∃ update ∈ ((after keccak256 before).records channelId).taken,
          update.channelId = channelId ∧ update.isFullySigned = true ∧
          update.balanceA = settlement.balanceA ∧ update.balanceB = settlement.balanceB)

theorem settlesSafely_of_signed {calls : List Call}
    (hsigned : ∀ before call, before ++ [call] <+: calls → Signed (after keccak256 before) call) :
    SettlesSafely keccak256 calls := by
  intro before channelId blockHeight hle settlement manager hfinalize
  have hbacked : (after keccak256 before).Each Backed :=
    Machine.run_guarded (P := Session.Each Backed) (G := Signed)
      (fun _ _ h hcall => Backed.step h hcall) each_empty hsigned
      ((List.prefix_append _ _).trans hle)
  obtain ⟨channel, hlookup, -, -, rfl, -⟩ := finalize_eq_ok hfinalize
  obtain ⟨hsplits, hsource⟩ := hbacked channelId channel hlookup
  exact ⟨channel, hlookup, hsplits, hsource⟩

theorem settlesSafely_of_signed_sample :
    SettlesSafely sampleDigest
      [sampleOpen, .updateState sampleId 70 130 "a1" "b1", .initiateClose sampleId 10,
        .dispute sampleId ⟨sampleId, 5, 60, 140, "a5", "b5"⟩ 15, .finalize sampleId 115] := by
  apply settlesSafely_of_signed sampleDigest
  simp only [Machine.forall_before_cons, Machine.forall_before_nil, and_true]
  refine ⟨trivial, fun _ _ _ => by decide, trivial, fun channel hlookup _ => ?_, trivial⟩
  have htotal : ((after sampleDigest
      [sampleOpen, .updateState sampleId 70 130 "a1" "b1", .initiateClose sampleId
        10]).manager.channels.lookup sampleId).map StateChannel.totalLocked = some 200 := by
    decide +kernel
  rw [hlookup] at htotal
  refine ⟨rfl, by decide, ?_⟩
  rw [StateChannel.Splits, Option.some.inj htotal]
  norm_num

/-- A dispute pays out what it says, signed or not. -/
theorem unsigned_dispute_settles :
    ¬SettlesSafely sampleDigest
      [sampleOpen, .initiateClose sampleId 10,
        .dispute sampleId ⟨"", 1, -50, 1000000, "", ""⟩ 15, .finalize sampleId 115] := by
  intro h
  let session := after sampleDigest
    [sampleOpen, .initiateClose sampleId 10, .dispute sampleId ⟨"", 1, -50, 1000000, "", ""⟩ 15]
  have hsettled : (session.manager.finalize sampleId 115).toOption.map (fun r => r.1.balanceA) =
      some (-50) := by decide +kernel
  cases hfinalize : session.manager.finalize sampleId 115 with
  | error e =>
    rw [hfinalize] at hsettled
    cases hsettled
  | ok result =>
    rw [hfinalize] at hsettled
    obtain ⟨channel, -, hsplits, -⟩ :=
      h _ sampleId 115 (List.prefix_refl _) result.1 result.2 hfinalize
    have hbalance : result.1.balanceA = -50 := Option.some.inj hsettled
    have hnegative := hsplits.2.1
    rw [hbalance] at hnegative
    norm_num at hnegative

end Settlements

end Qubitcoin.Qvm.StateChannels
