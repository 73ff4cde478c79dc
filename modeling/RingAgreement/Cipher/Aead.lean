import RingAgreement.Cipher.ChaCha20
import RingAgreement.Cipher.Poly1305
/-!
Authenticated encryption with associated data: ChaCha20-Poly1305 (RFC 8439) and its variant
XChaCha20-Poly1305 with a 24-byte nonce.
-/

namespace RingAgreement.Aead

/-- Zeros up to the next multiple of sixteen bytes. -/
def padding (bytes : List UInt8) : List UInt8 :=
  List.replicate ((16 - bytes.length % 16) % 16) 0

/-- The authenticated string: both parts padded, then both lengths. -/
def authenticated (associated ciphertext : List UInt8) : List UInt8 :=
  associated ++ padding associated ++ ciphertext ++ padding ciphertext ++
    (Bytes.littleEndian 8 associated.length).toList ++
    (Bytes.littleEndian 8 ciphertext.length).toList

/-- The tag of a ciphertext; its one-time key is the head of key stream block zero. -/
def tag (key : Bytes 32) (nonce : Bytes 12) (associated ciphertext : List UInt8) : Bytes 16 :=
  let oneTime := (ChaCha20.block key (ChaCha20.counterRow nonce 0)).halves.1
  Poly1305.tag oneTime (authenticated associated ciphertext)

/-- Ciphertext and tag of a plaintext. -/
def encrypt (key : Bytes 32) (nonce : Bytes 12) (associated plaintext : List UInt8) :
    List UInt8 × Bytes 16 :=
  let ciphertext := ChaCha20.apply key nonce 1 plaintext
  (ciphertext, tag key nonce associated ciphertext)

/-- The plaintext, if the tag is the right one. -/
def decrypt? (key : Bytes 32) (nonce : Bytes 12) (associated ciphertext : List UInt8)
    (received : Bytes 16) : Option (List UInt8) :=
  if tag key nonce associated ciphertext = received then
    some (ChaCha20.apply key nonce 1 ciphertext)
  else none

/-- Key and short nonce that a long nonce stands for. -/
def extended (key : Bytes 32) (nonce : Bytes 24) : Bytes 32 × Bytes 12 :=
  (ChaCha20.subkey key (nonce.take 16), Bytes.zero 4 ++ nonce.drop 16)

end RingAgreement.Aead
