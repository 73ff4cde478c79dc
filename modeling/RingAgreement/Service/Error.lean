import RingAgreement.Session.Error
/-!
Why a connection, a file or a running node fails. Where the cause is worded by the system, its
text is left out and a star stands for it.
-/

namespace RingAgreement

/-- Why a connection fails. -/
inductive TransportFault where
  | lineTooLong (limit : Nat)
  | notUnicode
  | unreachable (address : String)
deriving DecidableEq, Repr

def TransportFault.message : TransportFault → String
  | lineTooLong limit => "line exceeds " ++ toString limit ++ " bytes"
  | notUnicode => "line is not valid UTF-8"
  | unreachable address => "cannot reach relay " ++ address ++ ": *"

/-- Why a file, a ring on file or a start option cannot be used. -/
inductive ConfigFault where
  | unreadable (path : String)
  | malformed (path : String)
  | unwritable (path : String)
  | unbindable (address : String)
  | keyText (owner : String)
  | keyLength (half : KeyHalf) (owner : String) (error : CryptoError)
  | partyName (error : CryptoError)
  | roster (error : SessionError)
  | notMember (name ring : String)
  | otherKey (name ring : String)
  | halfLeaderRing
deriving DecidableEq, Repr

def ConfigFault.message : ConfigFault → String
  | unreadable path => "cannot read " ++ path ++ ": *"
  | malformed path => "cannot parse " ++ path ++ ": *"
  | unwritable path => "cannot write " ++ path ++ ": *"
  | unbindable address => "cannot bind " ++ address ++ ": *"
  | keyText owner => "key of " ++ owner ++ ": *"
  | keyLength half owner error => half.name ++ " of " ++ owner ++ ": " ++ error.message
  | partyName error => error.message
  | roster error => error.message
  | notMember name ring => name ++ " is not a member of ring " ++ ring
  | otherKey name ring => "ring " ++ ring ++ " lists a different public key for " ++ name
  | halfLeaderRing => "--leader-roster and --leader-relay go together"

inductive ServiceError where
  | config (fault : ConfigFault)
  | transport (fault : TransportFault)
  | session (error : SessionError)
  | stopped
deriving DecidableEq, Repr

/-- The name of the kind of error. -/
def ServiceError.label : ServiceError → String
  | config _ => "Config"
  | transport _ => "Transport"
  | session e => "Session." ++ e.label
  | stopped => "Closed"

def ServiceError.message : ServiceError → String
  | config fault => "configuration error: " ++ fault.message
  | transport fault => "transport error: " ++ fault.message
  | session error => "session error: " ++ error.message
  | stopped => "node stopped"

end RingAgreement
