import RingAgreement.Hash.Hmac
import RingAgreement.Ring.GroupKey
/-!
Keys wrapped for a cluster: masked with a pad that the cluster's group key gives, and
authenticated with a second part of the same derivation.
-/

namespace RingAgreement

/-- Pad and authentication key of one cluster. -/
structure WrappingKey where
  pad : Bytes 32
  macKey : Bytes 32
deriving DecidableEq, Repr

/-- A masked key and its tag. -/
structure WrappedKey where
  maskedKey : Bytes 32
  tag : Bytes 32
deriving DecidableEq, Repr, Inhabited

namespace WrappingKey

def label : List UInt8 := "lockringWrapV1".toUTF8.data.toList

def derive (cluster : GroupKey) : WrappingKey :=
  let output := Hkdf.derive cluster.sessionId.toList cluster.key.toList label 64
  ⟨output.halves.1, output.halves.2⟩

/-- The tag of masked bytes. -/
def tag (wrapping : WrappingKey) (masked : Bytes 32) : Bytes 32 :=
  Hmac.tag wrapping.macKey.toList masked.toList

def wrap (wrapping : WrappingKey) (key : Bytes 32) : WrappedKey :=
  let masked := key ^^^ wrapping.pad
  ⟨masked, wrapping.tag masked⟩

/-- The key inside, if the tag is the right one. -/
def unwrap (wrapping : WrappingKey) (wrapped : WrappedKey) : Except CryptoError (Bytes 32) :=
  if wrapping.tag wrapped.maskedKey = wrapped.tag then .ok (wrapped.maskedKey ^^^ wrapping.pad)
  else .error .wrappedKeyAuthentication

end WrappingKey

end RingAgreement
