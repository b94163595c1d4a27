import Qubitcoin.Library.ColumnFamily
import Qubitcoin.Library.Machine

/-! State channels between two parties, from `state_channels.py`, with the amounts as exact
rationals. -/

namespace Qubitcoin.Qvm.StateChannels

def CHALLENGE_WINDOW_BLOCKS : ℤ := 100
def MIN_CHANNEL_DEPOSIT : ℚ := 1 / 100
def MAX_CHANNELS_PER_ADDRESS : ℕ := 50

inductive ChannelState
  | opened | updating | closing | disputed | closed
  deriving DecidableEq

def ChannelState.value : ChannelState → String
  | .opened => "open"
  | .updating => "updating"
  | .closing => "closing"
  | .disputed => "disputed"
  | .closed => "closed"

structure StateUpdate where
  channelId : String
  nonce : ℤ
  balanceA : ℚ
  balanceB : ℚ
  signatureA : String := ""
  signatureB : String := ""
  deriving DecidableEq

def StateUpdate.isFullySigned (update : StateUpdate) : Bool :=
  update.signatureA ≠ "" ∧ update.signatureB ≠ ""

structure StateChannel where
  channelId : String
  partyA : String
  partyB : String
  depositA : ℚ
  depositB : ℚ
  state : ChannelState := .opened
  nonce : ℤ := 0
  balanceA : ℚ := depositA
  balanceB : ℚ := depositB
  openBlock : ℤ := 0
  closeBlock : ℤ := 0
  updates : List StateUpdate := []

namespace StateChannel

def totalLocked (channel : StateChannel) : ℚ := channel.depositA + channel.depositB

/-- The last block at which a dispute is heard, and the first at which the channel is settled. -/
def deadline (channel : StateChannel) : ℤ := channel.closeBlock + CHALLENGE_WINDOW_BLOCKS

end StateChannel

structure Settlement where
  partyA : String
  balanceA : ℚ
  partyB : String
  balanceB : ℚ

inductive ChannelError
  | minimumDeposit
  | withSelf
  | channelLimit (address : String)
  | notFound
  | inState (state : ChannelState)
  | conservation (balanceA balanceB total : ℚ)
  | negativeBalance
  | alreadyClosed
  | notClosing
  | windowExpired
  | nonceNotHigher
  | windowOpen (deadline : ℤ)

/-- The text of an error, where `float` prints an amount. -/
def ChannelError.text (float : ℚ → String) : ChannelError → String
  | .minimumDeposit => "Minimum deposit is " ++ float MIN_CHANNEL_DEPOSIT ++ " QBC"
  | .withSelf => "Cannot open channel with self"
  | .channelLimit address =>
    "Channel limit reached for " ++ String.ofList (address.toList.take 16) ++ "..."
  | .notFound => "Channel not found"
  | .inState state => "Channel is " ++ state.value
  | .conservation balanceA balanceB total =>
    "Balance conservation violated: " ++ float balanceA ++ "+" ++ float balanceB ++ " != " ++
      float total
  | .negativeBalance => "Negative balance not allowed"
  | .alreadyClosed => "Channel already closed"
  | .notClosing => "Channel not in closing state"
  | .windowExpired => "Challenge window expired"
  | .nonceNotHigher => "Dispute nonce must be higher than current"
  | .windowOpen deadline =>
    "Challenge window not expired (need block " ++ toString deadline ++ ")"

structure StateChannelManager where
  channels : ColumnFamily String StateChannel := ∅
  addressChannels : ColumnFamily String (List String) := ∅
  totalLocked : ℚ := 0
  totalSettled : ℚ := 0
  disputes : ℕ := 0

namespace StateChannelManager

variable (self : StateChannelManager)

def channelsOf (address : String) : List String := (self.addressChannels.lookup address).getD []

/-- `keccak256` gives the digits of the digest, and `now` is the clock as it is printed. -/
def channelId (keccak256 : String → String) (now partyA partyB : String) (blockHeight : ℤ) :
    String :=
  String.ofList
    ((keccak256 (partyA ++ ":" ++ partyB ++ ":" ++ toString blockHeight ++ ":" ++ now)).toList.take
      16)

def openChannel (keccak256 : String → String) (now partyA partyB : String)
    (depositA depositB : ℚ) (blockHeight : ℤ) :
    Except ChannelError (String × StateChannelManager) :=
  if depositA < MIN_CHANNEL_DEPOSIT ∨ depositB < MIN_CHANNEL_DEPOSIT then .error .minimumDeposit
  else if partyA = partyB then .error .withSelf
  else if MAX_CHANNELS_PER_ADDRESS ≤ (self.channelsOf partyA).length then
    .error (.channelLimit partyA)
  else if MAX_CHANNELS_PER_ADDRESS ≤ (self.channelsOf partyB).length then
    .error (.channelLimit partyB)
  else
    let channelId := channelId keccak256 now partyA partyB blockHeight
    let channel : StateChannel :=
      { channelId := channelId
        partyA := partyA
        partyB := partyB
        depositA := depositA
        depositB := depositB
        openBlock := blockHeight }
    let withA :=
      { self with
        addressChannels :=
          self.addressChannels.insert partyA (self.channelsOf partyA ++ [channelId]) }
    .ok (channelId,
      { withA with
        channels := self.channels.insert channelId channel
        addressChannels :=
          withA.addressChannels.insert partyB (withA.channelsOf partyB ++ [channelId])
        totalLocked := self.totalLocked + channel.totalLocked })

def updateState (channelId : String) (balanceA balanceB : ℚ) (signatureA signatureB : String) :
    Except ChannelError (StateUpdate × StateChannelManager) :=
  match self.channels.lookup channelId with
  | none => .error .notFound
  | some channel =>
    if channel.state ≠ .opened ∧ channel.state ≠ .updating then .error (.inState channel.state)
    else if 1 / 10 ^ 8 < |balanceA + balanceB - channel.totalLocked| then
      .error (.conservation balanceA balanceB channel.totalLocked)
    else if balanceA < 0 ∨ balanceB < 0 then .error .negativeBalance
    else
      let update : StateUpdate :=
        { channelId := channelId
          nonce := channel.nonce + 1
          balanceA := balanceA
          balanceB := balanceB
          signatureA := signatureA
          signatureB := signatureB }
      let channel :=
        { channel with
          nonce := update.nonce
          balanceA := balanceA
          balanceB := balanceB
          state := .updating
          updates := channel.updates ++ [update] }
      .ok (update, { self with channels := self.channels.insert channelId channel })

/-- With the deadline of the challenges. -/
def initiateClose (channelId : String) (blockHeight : ℤ) :
    Except ChannelError (ℤ × StateChannelManager) :=
  match self.channels.lookup channelId with
  | none => .error .notFound
  | some channel =>
    if channel.state = .closed then .error .alreadyClosed
    else
      let channel := { channel with state := .closing, closeBlock := blockHeight }
      .ok (channel.deadline, { self with channels := self.channels.insert channelId channel })

/-- With the new nonce. -/
def dispute (channelId : String) (update : StateUpdate) (blockHeight : ℤ) :
    Except ChannelError (ℤ × StateChannelManager) :=
  match self.channels.lookup channelId with
  | none => .error .notFound
  | some channel =>
    if channel.state ≠ .closing then .error .notClosing
    else if channel.deadline < blockHeight then .error .windowExpired
    else if update.nonce ≤ channel.nonce then .error .nonceNotHigher
    else
      let channel :=
        { channel with
          nonce := update.nonce
          balanceA := update.balanceA
          balanceB := update.balanceB
          state := .disputed
          closeBlock := blockHeight }
      .ok (update.nonce,
        { self with
          channels := self.channels.insert channelId channel
          disputes := self.disputes + 1 })

def finalize (channelId : String) (blockHeight : ℤ) :
    Except ChannelError (Settlement × StateChannelManager) :=
  match self.channels.lookup channelId with
  | none => .error .notFound
  | some channel =>
    if channel.state ≠ .closing ∧ channel.state ≠ .disputed then .error (.inState channel.state)
    else if blockHeight < channel.deadline then .error (.windowOpen channel.deadline)
    else
      .ok ({ partyA := channel.partyA
             balanceA := channel.balanceA
             partyB := channel.partyB
             balanceB := channel.balanceB },
        { self with
          channels := self.channels.insert channelId { channel with state := .closed }
          totalLocked := self.totalLocked - channel.totalLocked
          totalSettled := self.totalSettled + channel.totalLocked })

end StateChannelManager

end Qubitcoin.Qvm.StateChannels
