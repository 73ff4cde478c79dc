import RingAgreement.Hash.Keccak
import RingAgreement.MlKem.Coding
/-!
ML-KEM-768 (FIPS 203): key generation, encapsulation and decapsulation with implicit rejection.
All randomness is an argument.
-/

namespace RingAgreement.MlKem

open RingAgreement.MlKem.Poly

/-- The module rank. -/
def rank : Nat := 3

/-- Bits kept of each coefficient of the vector part of a ciphertext. -/
def vectorBits : Nat := 10

/-- Bits kept of each coefficient of the scalar part. -/
def scalarBits : Nat := 4

/-- Output blocks of the matrix sampler that are read at most; three or four are used. -/
def samplerBlocks : Nat := 24

/-- Reads output blocks until 256 coefficients are found. -/
def collect : Nat → Nat → Keccak.State → List Nat
  | 0, missing, _ => List.replicate missing 0
  | blocks + 1, missing, s =>
    let found := (candidates (Keccak.outputBlock Keccak.shake128Rate s)).take missing
    if found.length < missing then
      found ++ collect blocks (missing - found.length) (Keccak.permute s)
    else found

/-- The matrix entry in a row and a column, as a transformed polynomial. -/
def matrixEntry (rho : List UInt8) (row column : Nat) : Poly :=
  collect samplerBlocks 256 (Keccak.shake128 (rho ++ [UInt8.ofNat column, UInt8.ofNat row]))

/-- The public matrix, by rows. -/
def matrix (rho : List UInt8) : List (List Poly) :=
  (List.range rank).map fun row => (List.range rank).map (matrixEntry rho row)

/-- The public matrix, by columns. -/
def transposed (rho : List UInt8) : List (List Poly) :=
  (List.range rank).map fun column => (List.range rank).map fun row => matrixEntry rho row column

/-- The small polynomial numbered `index` under a seed. -/
def noise (seed : List UInt8) (index : Nat) : Poly :=
  small ((Keccak.shake256 1 (seed ++ [UInt8.ofNat index])).take 128)

/-- `rank` small polynomials numbered from `index`. -/
def noiseVector (seed : List UInt8) (index : Nat) : List Poly :=
  (List.range rank).map fun i => noise seed (index + i)

/-- The polynomials of an encoded vector, `bits` bits to a coefficient. -/
def decodeVector (bits : Nat) (bytes : List UInt8) : List (List Nat) :=
  (groups (32 * bits) rank bytes).map (decode bits)

/-- Public and secret key of the encryption scheme inside, from a seed. -/
def encryptionKeys (seed : Bytes 32) : List UInt8 × List UInt8 :=
  let expanded := (Keccak.sha3_512 (seed.toList ++ [UInt8.ofNat rank])).toList
  let rho := expanded.take 32
  let sigma := expanded.drop 32
  let secret := (noiseVector sigma 0).map transform
  let error := (noiseVector sigma rank).map transform
  let target := List.zipWith (fun row e => add (dot row secret) e) (matrix rho) error
  (target.flatMap (encode 12) ++ rho, secret.flatMap (encode 12))

/-- The ciphertext of a 32-byte message under a public key, with the coins for its noise. -/
def encrypt (key message coins : List UInt8) : List UInt8 :=
  let target := decodeVector 12 (key.take (384 * rank))
  let rho := key.drop (384 * rank)
  let y := (noiseVector coins 0).map transform
  let u := List.zipWith (fun column e => add (invert (dot column y)) e) (transposed rho)
    (noiseVector coins rank)
  let v := add (add (invert (dot target y)) (noise coins (2 * rank)))
    (decompress 1 (decode 1 message))
  u.flatMap (fun f => encode vectorBits (compress vectorBits f)) ++
    encode scalarBits (compress scalarBits v)

/-- The message in a ciphertext. -/
def decrypt (secret ciphertext : List UInt8) : List UInt8 :=
  let split := 32 * vectorBits * rank
  let u := (decodeVector vectorBits (ciphertext.take split)).map (decompress vectorBits)
  let v := decompress scalarBits (decode scalarBits (ciphertext.drop split))
  let w := sub v (invert (dot (decodeVector 12 secret) (u.map transform)))
  encode 1 (compress 1 w)

/-- Encapsulation and decapsulation keys from the two seeds of key generation. -/
def generate (d z : Bytes 32) : Bytes 1184 × Bytes 2400 :=
  let (ek, dk) := encryptionKeys d
  (.fit 1184 ek, .fit 2400 (dk ++ ek ++ (Keccak.sha3_256 ek).toList ++ z.toList))

/-- Whether the coefficients of the polynomials at the front of a key are reduced. -/
def isReduced (key : List UInt8) : Bool :=
  (decodeVector 12 (key.take (384 * rank))).all fun f => f.all (· < q)

/-- Shared secret and ciphertext for a key and a random message. -/
def encapsulate (key : Bytes 1184) (message : Bytes 32) : Bytes 32 × Bytes 1088 :=
  let (secret, coins) :=
    (Keccak.sha3_512 (message.toList ++ (Keccak.sha3_256 key.toList).toList)).halves
  (secret, .fit 1088 (encrypt key.toList message.toList coins.toList))

/-- The encapsulation key inside a decapsulation key. -/
def embeddedKey (key : Bytes 2400) : List UInt8 := (key.toList.drop 1152).take 1184

/-- The stored hash of the embedded encapsulation key. -/
def embeddedHash (key : Bytes 2400) : List UInt8 := (key.toList.drop 2336).take 32

/-- The shared secret in a ciphertext. A ciphertext that does not arise from the message found
in it gives a secret that depends on the rejection seed instead. -/
def decapsulate (key : Bytes 2400) (ciphertext : Bytes 1088) : Bytes 32 :=
  let message := decrypt (key.toList.take 1152) ciphertext.toList
  let (secret, coins) := (Keccak.sha3_512 (message ++ embeddedHash key)).halves
  let again := encrypt (embeddedKey key) message coins.toList
  if again = ciphertext.toList then secret
  else .fit 32 (Keccak.shake256 1 (key.toList.drop 2368 ++ ciphertext.toList))

end RingAgreement.MlKem
