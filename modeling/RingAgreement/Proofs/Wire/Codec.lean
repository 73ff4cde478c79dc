import RingAgreement.Proofs.Wire.RoundTrip
/-!
Reading arbitrary bytes. Bytes are read as a payload of a kind exactly when they have a length of
that kind, and then they are the bytes of that payload. So the payloads of a kind that can be sent
and the byte strings that are read as one correspond to each other.
-/

namespace RingAgreement

/-- A string that is long enough starts with a part of a given width. -/
theorem Bytes.exists_front (bytes : List UInt8) {n : Nat} (enough : n ≤ bytes.length) :
    ∃ (front : Bytes n) (rest : List UInt8), bytes = front.toList ++ rest ∧
      rest.length = bytes.length - n :=
  ⟨⟨bytes.take n, List.length_take_of_le enough⟩, bytes.drop n,
    (List.take_append_drop n bytes).symm, List.length_drop⟩

/-- The lengths that payloads of a kind can have. -/
def MessageKind.Fits : MessageKind → Nat → Prop
  | akeInit, length => length = 2272
  | akeRespond, length => length = 2176
  | shareBroadcast, length => length = 1216
  | wrappedKey, length => length = 64
  | appMessage, length => 40 ≤ length

namespace Schema

theorem split_of_not_allows {s : Schema} {bytes : List UInt8}
    (misfit : s.allows bytes.length = false) :
    s.split bytes = .error (.payloadLength s.name s.fixedLength bytes.length) := by
  rw [split, misfit]
  rfl

end Schema

namespace Payload

variable {kind : MessageKind} {bytes : List UInt8}

/-- Bytes of a fitting length are the bytes of a payload, cut into parts from the front. -/
theorem exists_of_fits (fits : kind.Fits bytes.length) :
    ∃ p : Payload, p.kind = kind ∧ p.Sendable ∧ p.encode = bytes := by
  cases kind with
  | akeInit =>
    have length : bytes.length = 2272 := fits
    obtain ⟨key, ciphertext, rfl, width⟩ := Bytes.exists_front bytes (n := 1184) (by omega)
    refine ⟨.akeInit ⟨⟨key⟩, ⟨⟨ciphertext, ?_⟩⟩⟩, rfl, trivial, ?_⟩
    · rw [width, length]
      rfl
    · simp [encode, parts]
  | akeRespond =>
    have length : bytes.length = 2176 := fits
    obtain ⟨forEphemeral, forStatic, rfl, width⟩ := Bytes.exists_front bytes (n := 1088) (by omega)
    refine ⟨.akeRespond ⟨⟨forEphemeral⟩, ⟨⟨forStatic, ?_⟩⟩⟩, rfl, trivial, ?_⟩
    · rw [width, length]
      rfl
    · simp [encode, parts]
  | shareBroadcast =>
    have length : bytes.length = 1216 := fits
    obtain ⟨share, rest, rfl, width⟩ := Bytes.exists_front bytes (n := 32) (by omega)
    obtain ⟨kem, rest, rfl, width⟩ := Bytes.exists_front rest (n := 1088) (by omega)
    obtain ⟨dem, rest, rfl, width⟩ := Bytes.exists_front rest (n := 36) (by omega)
    obtain ⟨tag, coin, rfl, width⟩ := Bytes.exists_front rest (n := 16) (by omega)
    refine ⟨.shareBroadcast ⟨⟨share⟩, ⟨⟨kem⟩, dem, tag⟩, ⟨⟨coin, ?_⟩⟩⟩, rfl, trivial, ?_⟩
    · omega
    · simp [encode, parts]
  | wrappedKey =>
    have length : bytes.length = 64 := fits
    obtain ⟨masked, tag, rfl, width⟩ := Bytes.exists_front bytes (n := 32) (by omega)
    refine ⟨.wrappedKey ⟨masked, ⟨tag, ?_⟩⟩, rfl, trivial, ?_⟩
    · rw [width, length]
    · simp [encode, parts]
  | appMessage =>
    have length : 40 ≤ bytes.length := fits
    obtain ⟨nonce, ciphertext, rfl, width⟩ := Bytes.exists_front bytes (n := 24) (by omega)
    have tagged : tagSize ≤ ciphertext.length := by
      rw [width]
      exact Nat.le_sub_of_add_le length
    refine ⟨.appMessage ⟨nonce, ciphertext⟩, rfl, tagged, ?_⟩
    simp [encode, parts]

/-- Bytes that an application message can start with, but that leave no room for a tag. -/
theorem decode_of_untagged (long : 24 ≤ bytes.length) (short : bytes.length < 40) :
    decode .appMessage bytes = .error (.payloadLength "APP_MESSAGE" 40 bytes.length) := by
  obtain ⟨nonce, ciphertext, rfl, width⟩ := Bytes.exists_front bytes long
  have opened : MessageKind.appMessage.schema.tail.isSome := rfl
  have parted : MessageKind.appMessage.schema.split ([nonce.toList].flatten ++ ciphertext) =
      .ok ([nonce.toList] ++ [ciphertext]) :=
    Schema.split_flatten_tail ciphertext opened (by simp [MessageKind.schema, Bytes.length_toList])
  rw [List.flatten_singleton] at parted
  have untagged : ciphertext.length < tagSize := by
    change ciphertext.length < 16
    omega
  rw [decode, parted]
  simp only [bind, Except.bind, List.singleton_append, ofParts, if_pos untagged,
    List.length_append]
  rfl

/-- Bytes of any other length are refused for their length. -/
theorem decode_of_misfit (misfit : ¬ kind.Fits bytes.length) :
    ∃ expected, decode kind bytes = .error (.payloadLength kind.name expected bytes.length) := by
  have refused : kind.schema.allows bytes.length = false → decode kind bytes =
      .error (.payloadLength kind.schema.name kind.schema.fixedLength bytes.length) := by
    intro excluded
    rw [decode, Schema.split_of_not_allows excluded]
    rfl
  cases kind with
  | appMessage =>
    by_cases long : 24 ≤ bytes.length
    · exact ⟨_, decode_of_untagged long (Nat.lt_of_not_le misfit)⟩
    · exact ⟨_, refused (decide_eq_false long)⟩
  | _ => exact ⟨_, refused (decide_eq_false misfit)⟩

/-- Bytes are a payload of a kind exactly when their length is one of the kind's, and all others are
refused for their length. The payload is of that kind and has just these bytes. Every payload can
be written, and reads back as it was if it is no application message without its tag. -/
theorem decode_inverts_encode (kind : MessageKind) (bytes : List UInt8) :
    ((∃ p, decode kind bytes = .ok p) ↔ kind.Fits bytes.length) ∧
    (¬ kind.Fits bytes.length → ∃ expected,
      decode kind bytes = .error (.payloadLength kind.name expected bytes.length)) ∧
    (∀ p, decode kind bytes = .ok p ↔ p.kind = kind ∧ p.Sendable ∧ p.encode = bytes) ∧
    ∀ p : Payload, p.kind.schema.join p.parts = .ok p.encode ∧
      (p.Sendable → decode p.kind p.encode = .ok p) := by
  have read : kind.Fits bytes.length → ∃ p : Payload, p.kind = kind ∧ p.Sendable ∧
      p.encode = bytes ∧ decode kind bytes = .ok p := by
    intro fits
    obtain ⟨p, rfl, sendable, rfl⟩ := exists_of_fits fits
    exact ⟨p, rfl, sendable, rfl, decode_encode sendable⟩
  have fits_of_read : ∀ p, decode kind bytes = .ok p → kind.Fits bytes.length := by
    intro p decoded
    by_cases fits : kind.Fits bytes.length
    · exact fits
    · obtain ⟨expected, refused⟩ := decode_of_misfit fits
      rw [decoded] at refused
      cases refused
  refine ⟨⟨fun ⟨p, decoded⟩ => fits_of_read p decoded, fun fits => ?_⟩, decode_of_misfit,
    fun p => ⟨fun decoded => ?_, ?_⟩, fun p => ⟨p.join_parts, decode_encode⟩⟩
  · obtain ⟨p, _, _, _, decoded⟩ := read fits
    exact ⟨p, decoded⟩
  · obtain ⟨p', kind_eq, sendable, encoded, decoded'⟩ := read (fits_of_read p decoded)
    obtain rfl : p = p' := Except.ok.inj (decoded.symm.trans decoded')
    exact ⟨kind_eq, sendable, encoded⟩
  · rintro ⟨rfl, sendable, rfl⟩
    exact decode_encode sendable

end Payload

end RingAgreement
