import RingAgreement.Keys.Error
import RingAgreement.Session.Level
import RingAgreement.Wire.Error
/-!
How far a session is, and why a session or a node refuses something.
-/

namespace RingAgreement

inductive SessionState where
  | init
  | akeSent
  | keysPartial
  | keysComplete
  | awaitingShares
  | established
  | aborted
deriving DecidableEq, Repr

def SessionState.all : List SessionState :=
  [.init, .akeSent, .keysPartial, .keysComplete, .awaitingShares, .established, .aborted]

def SessionState.name : SessionState → String
  | init => "Init"
  | akeSent => "AkeSent"
  | keysPartial => "KeysPartial"
  | keysComplete => "KeysComplete"
  | awaitingShares => "AwaitingShares"
  | established => "Established"
  | aborted => "Aborted"

/-- A check on what other parties sent that did not hold. -/
inductive VerificationFailure where
  | closure
  | commitment (index : Nat)
  | wrappedKeyTag
deriving DecidableEq, Repr

def VerificationFailure.message : VerificationFailure → String
  | closure => "share closure check failed"
  | commitment index => "commitment mismatch for party " ++ toString index
  | wrappedKeyTag => "wrapped key tag mismatch"

/-- Why rings and roles do not fit together. -/
inductive LayoutFault where
  | tooFewParties (ring : String) (count : Nat)
  | tooManyParties (ring : String)
  | repeatedParty (ring : String) (name : String)
  | indexOutside (ring : String) (index size : Nat)
  | leaderWithoutRing
  | ringWithoutLeader (role : Role)
  | keyWithoutLeader (role : Role)
  | moreClustersThanLeaders (clusters leaders : Nat)
  | notInRing (name : String) (ring : Nat)
deriving DecidableEq, Repr

/-- The least number of parties in a ring. -/
def minRingSize : Nat := 3

def LayoutFault.reason : LayoutFault → String
  | tooFewParties ring count =>
    "ring " ++ ring ++ " has " ++ toString count ++ " parties, need at least " ++
      toString minRingSize
  | tooManyParties ring => "ring " ++ ring ++ " is too large"
  | repeatedParty ring name => "ring " ++ ring ++ " lists " ++ name ++ " twice"
  | indexOutside ring index size =>
    "index " ++ toString index ++ " outside ring " ++ ring ++ " of " ++ toString size
  | leaderWithoutRing => "leader role requires a leader ring"
  | ringWithoutLeader role => role.name ++ " node cannot join a leader ring"
  | keyWithoutLeader role => role.name ++ " node received a leader-ring key"
  | moreClustersThanLeaders clusters leaders =>
    toString clusters ++ " clusters but " ++ toString leaders ++ " leaders"
  | notInRing name ring => name ++ " missing from ring " ++ toString ring

/-- The parts of a node that handle only some kinds of messages. -/
inductive Layer where
  | ringSession
  | nodeWithoutLeaderRing
  | leaderRing
deriving DecidableEq, Repr

def Layer.name : Layer → String
  | ringSession => "ring session"
  | nodeWithoutLeaderRing => "node without a leader ring"
  | leaderRing => "leader ring"

inductive SessionError where
  | decode (error : WireError)
  | verification (failure : VerificationFailure)
  | responseBeforeOffer
  | noKeyAvailable
  | unexpectedSender (kind : MessageKind) (sender : UInt32)
  | unexpectedKind (kind : MessageKind) (layer : Layer)
  | alreadyStarted (state : SessionState)
  | invalidRoster (fault : LayoutFault)
  | crypto (error : CryptoError)
  | aborted
deriving DecidableEq, Repr

namespace SessionError

/-- Whether the run of the ring is over. -/
def isFatal : SessionError → Bool
  | verification _ | aborted => true
  | _ => false

/-- The name of the kind of error. -/
def label : SessionError → String
  | decode e => "Decode." ++ e.label
  | verification .closure => "Verification.Closure"
  | verification (.commitment _) => "Verification.Commitment"
  | verification .wrappedKeyTag => "Verification.WrappedKeyTag"
  | responseBeforeOffer => "OrderingAnomaly"
  | noKeyAvailable => "NoKeyAvailable"
  | unexpectedSender _ _ => "UnexpectedSender"
  | unexpectedKind _ _ => "UnexpectedKind"
  | alreadyStarted _ => "InvalidState"
  | invalidRoster _ => "InvalidRoster"
  | crypto e => "Crypto." ++ e.label
  | aborted => "Aborted"

def message : SessionError → String
  | decode error => "decode error: " ++ error.message
  | verification failure => "verification failed: " ++ failure.message
  | responseBeforeOffer => "ordering anomaly: AKE_RESPOND before initiation"
  | noKeyAvailable => "no group key available"
  | unexpectedSender kind sender => "unexpected " ++ kind.name ++ " from party " ++ toString sender
  | unexpectedKind kind layer => kind.name ++ " is not handled by " ++ layer.name
  | alreadyStarted state => "invalid state: cannot start from " ++ state.name
  | invalidRoster fault => "invalid roster: " ++ fault.reason
  | crypto error => "crypto error: " ++ error.message
  | aborted => "session aborted"

end SessionError

end RingAgreement
