import RingAgreement.Ring.Commitment
import RingAgreement.Ring.Handshake
/-!
What a correct key encapsulation mechanism gives the protocol: an exchange between two owners of
generated keys ends with one secret on both sides, and commitments under generated keys can always
be made.
-/

namespace RingAgreement

theorem Bytes.toList_fit_of_le {n : Nat} {bytes : List UInt8} (short : bytes.length ≤ n) :
    (fit n bytes).toList = bytes ++ List.replicate (n - bytes.length) 0 := by
  change bytes.take n ++ _ = _
  rw [List.take_of_length_le short]

namespace Kem

variable {K : Kem}

/-- Whatever is encapsulated for the public key comes out again with the secret key. -/
def Opens (K : Kem) (pair : Keypair) : Prop :=
  ∀ message : Bytes 32, ∃ secret ciphertext,
    K.encapsulate pair.publicKey message = .ok (secret, ciphertext) ∧
      K.decapsulate pair.secretKey ciphertext = .ok secret

theorem Correct.generateFrom (correct : K.Correct) (source : StreamSource) :
    K.Opens (K.generateFrom source).1 :=
  fun message => correct _ _ message

theorem Correct.keypair (correct : K.Correct) (seed : Bytes 32) : K.Opens (K.keypair seed) :=
  correct.generateFrom _

theorem Opens.encapsulateFrom {pair : Keypair} (opens : K.Opens pair) (source : StreamSource) :
    ∃ secret ciphertext, (K.encapsulateFrom pair.publicKey source).1 = .ok (secret, ciphertext) ∧
      K.decapsulate pair.secretKey ciphertext = .ok secret :=
  opens (source.draw 32).1

/-- A mechanism that hides nothing: a ciphertext is the message. It takes only keys that end with
zeros, as its own do. -/
def transparent : Kem where
  generate d z := ⟨⟨.fit _ d.toList⟩, ⟨.fit _ z.toList⟩⟩
  encapsulate key message :=
    if (key.bytes.toList.drop 32).all (· = 0) then .ok (⟨message⟩, ⟨.fit _ message.toList⟩)
    else .error (.kem .parseEncapsulationKey .coefficientRange)
  decapsulate _ ciphertext := .ok ⟨ciphertext.bytes.take 32⟩

theorem transparent_correct : transparent.Correct := by
  intro d z message
  have padded : ((Bytes.fit publicKeySize d.toList).toList.drop 32).all (· = 0) = true := by
    rw [Bytes.toList_fit_of_le (by rw [d.length_toList]; decide), List.drop_left' d.length_toList]
    exact List.all_eq_true.2 fun byte member => decide_eq_true (List.eq_of_mem_replicate member)
  have recovered : (Bytes.fit ciphertextSize message.toList).take 32 = message := by
    apply Bytes.ext
    rw [Bytes.toList_take, Bytes.toList_fit_of_le (by rw [message.length_toList]; decide),
      List.take_left' message.length_toList]
  refine ⟨⟨message⟩, ⟨.fit _ message.toList⟩, if_pos padded, ?_⟩
  simp only [transparent, recovered]

end Kem

namespace Handshake

variable {K : Kem} {initiator responder : Keypair}

theorem initiate_succeeds (opens : K.Opens responder) (seed : Bytes 32) :
    ∃ offer transcript, initiate K responder.publicKey seed = .ok (offer, transcript) := by
  obtain ⟨k1, ciphertext, sealed, _⟩ := opens.encapsulateFrom (K.generateFrom (.ofSeed seed)).2
  exact ⟨_, _, by simp only [initiate, sealed]; rfl⟩

/-- What an opened exchange is made of: a fresh key pair and a secret for the responder. -/
theorem initiate_success {peer : PublicKey} {seed : Bytes 32} {offer : Offer}
    {transcript : Transcript} (opened : initiate K peer seed = .ok (offer, transcript)) :
    let ephemeral := K.generateFrom (.ofSeed seed)
    offer.ephemeralKey = ephemeral.1.publicKey ∧
      transcript.ephemeralSecret = ephemeral.1.secretKey ∧
      (K.encapsulateFrom peer ephemeral.2).1 = .ok (transcript.encapsulated, offer.ciphertext) := by
  simp only [initiate] at opened
  cases sealed : (K.encapsulateFrom peer (K.generateFrom (.ofSeed seed)).2).1 with
  | error e => simp [sealed, bind, Except.bind] at opened
  | ok made =>
    simp only [sealed, bind, Except.bind, pure, Except.pure, Except.ok.injEq,
      Prod.mk.injEq] at opened
    obtain ⟨rfl, rfl⟩ := opened
    exact ⟨rfl, rfl, sealed⟩

/-- An offer is always answered, and both sides of the exchange hold the same secret. -/
theorem exchange_agrees (correct : K.Correct) (mine : K.Opens initiator)
    (theirs : K.Opens responder) {seed : Bytes 32} {offer : Offer} {transcript : Transcript}
    (opened : initiate K responder.publicKey seed = .ok (offer, transcript)) (answer : Bytes 32) :
    ∃ response key,
      respond K offer responder.secretKey initiator.publicKey answer = .ok (response, key) ∧
        finalize K response transcript initiator.secretKey = .ok key := by
  obtain ⟨fresh, kept, sealed⟩ := initiate_success opened
  obtain ⟨k1, ciphertext, sealed', k1_opens⟩ :=
    theirs.encapsulateFrom (K.generateFrom (.ofSeed seed)).2
  rw [sealed] at sealed'
  simp only [Except.ok.injEq, Prod.mk.injEq] at sealed'
  obtain ⟨rfl, rfl⟩ := sealed'
  obtain ⟨k2, forEphemeral, k2_sealed, k2_opens⟩ :=
    (correct.generateFrom (.ofSeed seed)).encapsulateFrom (.ofSeed answer)
  obtain ⟨k3, forInitiator, k3_sealed, k3_opens⟩ := mine.encapsulateFrom
    (K.encapsulateFrom (K.generateFrom (.ofSeed seed)).1.publicKey (.ofSeed answer)).2
  refine ⟨⟨forEphemeral, forInitiator⟩, combine transcript.encapsulated k2 k3, ?_, ?_⟩
  · simp only [respond, fresh, k2_sealed, k3_sealed, k1_opens, bind, Except.bind, pure, Except.pure]
  · simp only [finalize, kept, k2_opens, k3_opens, bind, Except.bind, pure, Except.pure]

end Handshake

namespace Commitment

theorem make_succeeds {K : Kem} {pair : Keypair} (opens : K.Opens pair) (message : Bytes 36)
    (coin : Coin) : ∃ commitment, make K pair.publicKey message coin = .ok commitment := by
  obtain ⟨secret, ciphertext, sealed, _⟩ := opens.encapsulateFrom (.ofSeed coin.seed)
  exact ⟨_, by simp only [make, sealed]; rfl⟩

end Commitment

end RingAgreement
