/-!
The kinds of messages that parties exchange.
-/

namespace RingAgreement

inductive MessageKind where
  | akeInit
  | akeRespond
  | shareBroadcast
  | wrappedKey
  | appMessage
deriving DecidableEq, Repr

namespace MessageKind

def all : List MessageKind := [akeInit, akeRespond, shareBroadcast, wrappedKey, appMessage]

/-- The number of a kind on the wire. -/
def code : MessageKind → Int
  | akeInit => 1
  | akeRespond => 2
  | shareBroadcast => 3
  | wrappedKey => 4
  | appMessage => 5

def ofCode? (code : Int) : Option MessageKind := all.find? (·.code = code)

def name : MessageKind → String
  | akeInit => "AKE_INIT"
  | akeRespond => "AKE_RESPOND"
  | shareBroadcast => "SHARE_BROADCAST"
  | wrappedKey => "WRAPPED_KEY"
  | appMessage => "APP_MESSAGE"

/-- Handshake messages are meant for one party. -/
def requiresRecipient : MessageKind → Bool
  | akeInit | akeRespond => true
  | shareBroadcast | wrappedKey | appMessage => false

theorem ofCode?_code (kind : MessageKind) : ofCode? kind.code = some kind := by
  cases kind <;> rfl

theorem code_of_ofCode? {n : Int} {kind : MessageKind} (h : ofCode? n = some kind) :
    kind.code = n := by
  simpa using List.find?_some h

end MessageKind

/-- Whom a message is for: every party of the ring, or the one at a position. -/
inductive Recipient where
  | everyone
  | party (index : UInt32)
deriving DecidableEq, Repr

def Recipient.includes : Recipient → UInt32 → Bool
  | everyone, _ => true
  | party target, index => target = index

end RingAgreement
