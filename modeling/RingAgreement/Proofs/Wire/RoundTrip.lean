import RingAgreement.Wire.Payload
/-!
Reading back what was written: every payload that can be sent is the payload its bytes decode to.
-/

namespace RingAgreement

namespace Schema

theorem cut_flatten {fields : List Field} {parts : List (List UInt8)} (rest : List UInt8)
    (fit : parts.map List.length = fields.map (·.width)) :
    cut fields (parts.flatten ++ rest) = (parts, rest) := by
  induction fields generalizing parts with
  | nil =>
    obtain rfl : parts = [] := by simpa using fit
    rfl
  | cons field fields ih =>
    cases parts with
    | nil => simp at fit
    | cons part parts =>
      simp only [List.map_cons, List.cons.injEq] at fit
      obtain ⟨width, fit⟩ := fit
      simp only [cut, List.flatten_cons, List.append_assoc, ← width]
      rw [List.drop_left, List.take_left, ih fit]

theorem length_flatten_of_fit {s : Schema} {parts : List (List UInt8)}
    (fit : parts.map List.length = s.fields.map (·.width)) :
    parts.flatten.length = s.fixedLength := by
  rw [List.length_flatten, fit, List.sum, List.foldr_map, fixedLength]

/-- Parts of the widths of the fields are what their bytes are split into. -/
theorem split_flatten {s : Schema} {parts : List (List UInt8)} (closed : s.tail = none)
    (fit : parts.map List.length = s.fields.map (·.width)) :
    s.split parts.flatten = .ok parts := by
  have whole : cut s.fields parts.flatten = (parts, []) := by
    simpa using cut_flatten [] fit
  have allowed : s.allows parts.flatten.length = true := by
    simp [allows, closed, length_flatten_of_fit fit]
  simp only [split, allowed, closed, whole, if_true, Option.isSome_none, Bool.false_eq_true,
    if_false]

/-- The same for a schema with a last part of any length. -/
theorem split_flatten_tail {s : Schema} {parts : List (List UInt8)} (last : List UInt8)
    (opened : s.tail.isSome) (fit : parts.map List.length = s.fields.map (·.width)) :
    s.split (parts.flatten ++ last) = .ok (parts ++ [last]) := by
  have allowed : s.allows (parts.flatten ++ last).length = true := by
    rw [List.length_append, length_flatten_of_fit fit]
    simp [allows, opened]
  simp only [split, allowed, opened, if_true, cut_flatten last fit]

end Schema

namespace Payload

@[simp] theorem field_toList {width : Nat} (name : String) (bytes : Bytes width) :
    field name width bytes.toList = .ok bytes := by
  rw [field, Bytes.ofList?_eq_some_iff.2 rfl]

/-- What can stand on the wire: an application message holds at least its tag. -/
def Sendable : Payload → Prop
  | appMessage message => tagSize ≤ message.ciphertext.length
  | _ => True

theorem split_encode (p : Payload) : p.kind.schema.split p.encode = .ok p.parts := by
  cases p with
  | appMessage message =>
    have opened : MessageKind.appMessage.schema.tail.isSome := rfl
    have parted : MessageKind.appMessage.schema.split
        ([message.nonce.toList].flatten ++ message.ciphertext) =
          .ok ([message.nonce.toList] ++ [message.ciphertext]) :=
      Schema.split_flatten_tail message.ciphertext opened
        (by simp [MessageKind.schema, Bytes.length_toList])
    simpa [encode, parts, kind] using parted
  | _ =>
    exact Schema.split_flatten rfl (by simp [parts, MessageKind.schema, kind, Bytes.length_toList])

theorem decode_encode {p : Payload} (sendable : p.Sendable) : decode p.kind p.encode = .ok p := by
  rw [decode, split_encode p]
  cases p with
  | appMessage message =>
    simp only [bind, Except.bind, ofParts, parts, kind, field_toList]
    rw [if_neg (Nat.not_lt.2 sendable)]
    rfl
  | _ =>
    simp only [bind, Except.bind, ofParts, parts, kind, field_toList]
    rfl

theorem ofEnvelope_toEnvelope {p : Payload} (sendable : p.Sendable) (sender : UInt32)
    (recipient : Recipient) : ofEnvelope (p.toEnvelope sender recipient) = .ok p :=
  decode_encode sendable

theorem kind_of_ofParts {kind : MessageKind} {parts : List (List UInt8)} {p : Payload}
    (read : ofParts kind parts = .ok p) : p.kind = kind := by
  unfold ofParts at read
  simp only [bind, Except.bind, pure, Except.pure] at read
  repeat' split at read
  all_goals cases read
  all_goals rfl

/-- What is read from an envelope is of the envelope's kind. -/
theorem kind_of_ofEnvelope {e : Envelope} {p : Payload} (read : ofEnvelope e = .ok p) :
    p.kind = e.kind := by
  rw [ofEnvelope, decode] at read
  cases parted : e.kind.schema.split e.content with
  | error error =>
    rw [parted] at read
    cases read
  | ok parts =>
    rw [parted] at read
    exact kind_of_ofParts read

end Payload

end RingAgreement
