import RingAgreement.Proofs.Json.RoundTrip
import RingAgreement.Proofs.Wire.Base64
import RingAgreement.Wire.Envelope
/-!
Lines: how long the line of an envelope is, and that it is read back as the envelope. The only thing
that writing lets through and reading refuses is a handshake message that names no recipient.
-/

namespace RingAgreement

namespace Base64

/-- Encodings are ASCII, and a JSON string writes their characters as they are. -/
theorem plain_symbol {n : Nat} (small : n < 64) :
    (symbol n).val ≤ 127 ∧ Json.escape (symbol n) = [symbol n] := by
  have all : ∀ n < 64, (symbol n).val ≤ 127 ∧ Json.escape (symbol n) = [symbol n] := by decide
  exact all n small

theorem IsText.plain {c : Char} (text : IsText c) : c.val ≤ 127 ∧ Json.escape c = [c] := by
  rcases text with rfl | ⟨n, small, rfl⟩
  · decide
  · exact plain_symbol small

theorem flatMap_escape_encodeList (bytes : List UInt8) :
    (encodeList bytes).flatMap Json.escape = encodeList bytes := by
  have all : ∀ c ∈ encodeList bytes, Json.escape c = [c] :=
    fun c member => (isText_encodeList c member).plain.2
  rw [List.flatMap_congr all, List.flatMap_singleton']

end Base64

namespace Envelope

/-! ## The document -/

theorem proper_toDocument (e : Envelope) : e.toDocument.Proper := by
  refine .object (by simp) fun m member => ?_
  simp only [List.mem_cons, List.not_mem_nil, or_false] at member
  rcases member with rfl | rfl | rfl | rfl
  · exact .integer _
  · exact .integer _
  · exact .integer _
  · exact .text _

/-- What the document of an envelope says in its fields. -/
def toFields (e : Envelope) : Fields :=
  ⟨e.sender.toNat, some (recipientIndex e.recipient), e.kind.code, Base64.encode e.content⟩

theorem recipientIndex_bounds (recipient : Recipient) :
    -1 ≤ recipientIndex recipient ∧ recipientIndex recipient < UInt32.size := by
  cases recipient with
  | everyone => decide
  | party index =>
    have index_lt := index.toNat_lt
    have size : UInt32.size = 2 ^ 32 := rfl
    simp only [recipientIndex]
    omega

theorem fields?_toDocument (e : Envelope) : fields? e.toDocument = some e.toFields := by
  have sender_lt := e.sender.toNat_lt
  obtain ⟨lower, upper⟩ := recipientIndex_bounds e.recipient
  have size : UInt32.size = 2 ^ 32 := rfl
  have least : Int64.minValue.toInt = -9223372036854775808 := by decide
  have greatest : Int64.maxValue.toInt = 9223372036854775807 := by decide
  have sender : (Json.ofInt e.sender.toNat).integer? = some (e.sender.toNat : Int) :=
    Json.integer?_ofInt (by omega) (by omega)
  have receiver : (Json.ofInt (recipientIndex e.recipient)).integer? =
      some (recipientIndex e.recipient) := Json.integer?_ofInt (by omega) (by omega)
  have kind : (Json.ofInt e.kind.code).integer? = some e.kind.code := by
    cases e.kind <;> decide
  have named : e.toDocument.fields? fieldNames =
      some [some (.ofInt e.sender.toNat), some (.ofInt (recipientIndex e.recipient)),
        some (.ofInt e.kind.code), some (.text (some (Base64.encode e.content)))] := rfl
  rw [fields?, named]
  simp only [Option.bind_eq_bind, Option.bind_some, sender, kind]
  change ((Json.ofInt (recipientIndex e.recipient)).integer?.map some).bind _ = _
  rw [receiver]
  rfl

/-! ## The checks -/

@[simp] theorem index_toNat (n : UInt32) : index n.toNat = .ok n := by
  have n_lt : n.toNat < UInt32.size := n.toNat_lt
  rw [index, if_pos ⟨Int.natCast_nonneg _, Int.ofNat_lt.2 n_lt⟩, Int.toNat_natCast,
    UInt32.ofNat_toNat]

@[simp] theorem recipientOf_recipientIndex (recipient : Recipient) :
    recipientOf (some (recipientIndex recipient)) = .ok recipient := by
  cases recipient with
  | everyone => rfl
  | party n =>
    rw [recipientOf, recipientIndex, if_neg (by omega), index_toNat]
    rfl

/-- An envelope that has to name its recipient and does not. -/
def Astray (e : Envelope) : Prop := e.kind.requiresRecipient ∧ e.recipient = .everyone

instance (e : Envelope) : Decidable e.Astray :=
  inferInstanceAs (Decidable (_ ∧ _))

theorem ofFields_toFields (e : Envelope) :
    ofFields e.toFields = if e.Astray then .error (.missingRecipient e.kind) else .ok e := by
  unfold ofFields
  have sender : index e.toFields.sender = .ok e.sender := index_toNat _
  have recipient : recipientOf e.toFields.receiver = .ok e.recipient := recipientOf_recipientIndex _
  have kind : MessageKind.ofCode? e.toFields.kind = some e.kind := MessageKind.ofCode?_code _
  have content : Base64.decode? e.toFields.content = some e.content := Base64.decode?_encode _
  rw [sender, recipient, kind, content]
  simp only [bind, Except.bind]
  split
  next astray => exact (if_pos (show e.Astray from astray)).symm
  next addressed => exact (if_neg (show ¬ e.Astray from addressed)).symm

/-- Envelopes that are read name their recipient where they have to. -/
theorem not_astray_of_ofFields {f : Fields} {e : Envelope} (read : ofFields f = .ok e) :
    ¬ e.Astray := by
  unfold ofFields at read
  simp only [bind, Except.bind, pure, Except.pure] at read
  repeat' split at read
  all_goals cases read
  all_goals assumption

theorem not_astray_of_ofJson {input : String} {e : Envelope} (read : ofJson input = .ok e) :
    ¬ e.Astray := by
  unfold ofJson at read
  simp only [bind, Except.bind] at read
  repeat' split at read
  · cases read
  · exact not_astray_of_ofFields read
  · cases read


/-! ## The length of a line -/

/-- ASCII characters take one byte each. -/
theorem utf8ByteSize_ofList {text : List Char} (ascii : ∀ c ∈ text, c.val ≤ 127) :
    (String.ofList text).utf8ByteSize = text.length := by
  induction text with
  | nil => rfl
  | cons c text ih =>
    have front : c.utf8Size = 1 := Char.utf8Size_eq_one_iff.2 (ascii c List.mem_cons_self)
    have rest := ih fun d member => ascii d (List.mem_cons_of_mem _ member)
    rw [String.ofList_cons, String.utf8ByteSize_append, rest, String.utf8ByteSize_singleton, front,
      List.length_cons, Nat.add_comm]

theorem compact_toDocument (e : Envelope) :
    e.toDocument.compact =
      "\x7b\"senderIndex\":".toList ++ (toString (e.sender.toNat : Int)).toList ++
      ",\"receiverIndex\":".toList ++ (toString (recipientIndex e.recipient)).toList ++
      ",\"type\":".toList ++ (toString e.kind.code).toList ++
      ",\"content\":\"".toList ++ Base64.encodeList e.content ++ "\"\x7d".toList := by
  have content : Json.quote (Base64.encode e.content) =
      '"' :: (Base64.encodeList e.content ++ ['"']) := by
    rw [Json.quote, Base64.toList_encode, Base64.flatMap_escape_encodeList]
  have names : Json.quote "senderIndex" = "\"senderIndex\"".toList ∧
      Json.quote "receiverIndex" = "\"receiverIndex\"".toList ∧
      Json.quote "type" = "\"type\"".toList ∧
      Json.quote "content" = "\"content\"".toList := by decide
  simp only [toDocument, Json.compact, Json.compactMembers, Json.quote?, Json.ofInt, content,
    names.1, names.2.1, names.2.2.1, names.2.2.2]
  simp

theorem ascii_toString (n : Int) : ∀ c ∈ (toString n).toList, c.val ≤ 127 := by
  have digit : ∀ {c : Char}, c.isDigit = true → c.val ≤ 127 := by
    intro c digit
    simp only [Char.isDigit, Bool.and_eq_true, decide_eq_true_eq] at digit
    exact UInt32.le_trans digit.2 (by decide)
  intro c member
  rcases Json.toList_toString_cases n with ⟨m, -, literal⟩ | ⟨m, -, literal⟩
  · rw [literal] at member
    exact digit (Json.isDigit_toDigits m c member)
  · rw [literal] at member
    rcases List.mem_cons.1 member with rfl | later
    · decide
    · exact digit (Json.isDigit_toDigits _ c later)

theorem ascii_toDocument (e : Envelope) : ∀ c ∈ e.toDocument.compact, c.val ≤ 127 := by
  have literal (l : List Char) (ascii : (l.all fun c => decide (c.val ≤ 127)) = true) :
      ∀ c ∈ l, c.val ≤ 127 := Json.forall_mem_of_all ascii
  intro c member
  rw [compact_toDocument] at member
  simp only [List.mem_append] at member
  rcases member with ((((((((member | member) | member) | member) | member) | member) | member) |
    member) | member)
  · exact literal _ (by decide) c member
  · exact ascii_toString _ c member
  · exact literal _ (by decide) c member
  · exact ascii_toString _ c member
  · exact literal _ (by decide) c member
  · exact ascii_toString _ c member
  · exact literal _ (by decide) c member
  · exact (Base64.isText_encodeList c member).plain.1
  · exact literal _ (by decide) c member

/-- The bytes of an envelope's line: the names and signs, the three integers, and four bytes for
every three of the content. -/
def lineSize (e : Envelope) : Nat :=
  56 + (toString (e.sender.toNat : Int)).length + (toString (recipientIndex e.recipient)).length +
    4 * ((e.content.length + 2) / 3)

theorem utf8ByteSize_line (e : Envelope) : (e.toJson ++ "\n").utf8ByteSize = e.lineSize := by
  have kind : (toString e.kind.code).toList.length = 1 := by cases e.kind <;> decide
  have names : "\x7b\"senderIndex\":".toList.length = 15 ∧
      ",\"receiverIndex\":".toList.length = 17 ∧ ",\"type\":".toList.length = 8 ∧
      ",\"content\":\"".toList.length = 12 ∧
      "\"\x7d".toList.length = 2 := by decide
  rw [String.utf8ByteSize_append, toJson, utf8ByteSize_ofList e.ascii_toDocument,
    compact_toDocument]
  simp only [List.length_append, names, kind, Base64.length_encodeList]
  simp only [lineSize, ← String.length_toList]
  have lineEnd : "\n".utf8ByteSize = 1 := by decide
  omega

/-- The line exists exactly when its bytes are within the limit. -/
theorem toLine_eq (e : Envelope) :
    e.toLine = if e.lineSize ≤ maxLineSize then .ok (e.toJson ++ "\n")
      else .error (.tooLarge e.lineSize maxLineSize) := by
  unfold toLine
  dsimp only
  rw [utf8ByteSize_line]
  by_cases fits : e.lineSize ≤ maxLineSize
  · rw [if_pos fits, if_neg (Nat.not_lt.2 fits)]
  · rw [if_neg fits, if_pos (Nat.not_le.1 fits)]

/-! ## The line -/

theorem toList_line (e : Envelope) :
    (e.toJson ++ "\n").toList = e.toDocument.compact ++ ['\n'] := by
  rw [String.toList_append, toJson, String.toList_ofList]
  rfl

theorem of_toLine {e : Envelope} {line : String} (written : e.toLine = .ok line) :
    line = e.toJson ++ "\n" ∧ line.utf8ByteSize ≤ maxLineSize := by
  rw [toLine_eq] at written
  split at written
  next fits =>
    obtain rfl := Except.ok.inj written
    exact ⟨rfl, Nat.le_trans (Nat.le_of_eq e.utf8ByteSize_line) fits⟩
  · cases written

theorem ofJson_toLine {e : Envelope} {line : String} (written : e.toLine = .ok line) :
    ofJson line = if e.Astray then .error (.missingRecipient e.kind) else .ok e := by
  obtain ⟨rfl, fits⟩ := of_toLine written
  have parsed : Json.parse? (Text.trimmed (e.toJson ++ "\n").toList) = some e.toDocument := by
    rw [toList_line, toDocument, Json.compact, Text.trimmed_append _ (by decide) (by decide)
      (by simp; decide)]
    exact Json.parse?_compact e.proper_toDocument
  unfold ofJson
  simp only [bind, Except.bind]
  rw [if_neg (Nat.not_lt.2 fits), parsed, Option.bind_some, fields?_toDocument]
  exact ofFields_toFields e

theorem count_newLine_of_toLine {e : Envelope} {line : String} (written : e.toLine = .ok line) :
    line.toList.count '\n' = 1 ∧ line.toList.getLast? = some '\n' := by
  obtain ⟨rfl, -⟩ := of_toLine written
  have absent : '\n' ∉ e.toDocument.compact := by
    intro member
    exact absurd (e.proper_toDocument.printable _ member) (by decide)
  rw [toList_line, List.count_append, List.count_eq_zero.2 absent, List.getLast?_concat]
  exact ⟨rfl, rfl⟩

/-- A line ends at its only line break and is read back as its envelope, unless the envelope does
not name the recipient it has to name. No such envelope is ever read, so what was read is read again
from its own line. -/
theorem lines_read_back (e : Envelope) :
    (∀ line, e.toLine = .ok line →
      line.toList.count '\n' = 1 ∧ line.toList.getLast? = some '\n' ∧
        line.utf8ByteSize ≤ maxLineSize ∧
        ofJson line =
          if e.kind.requiresRecipient ∧ e.recipient = .everyone then
            .error (.missingRecipient e.kind)
          else .ok e) ∧
      ∀ input, ofJson input = .ok e →
        ¬ (e.kind.requiresRecipient ∧ e.recipient = .everyone) ∧
          ∀ line, e.toLine = .ok line → ofJson line = .ok e := by
  refine ⟨fun line written => ?_, fun input read => ?_⟩
  · have breaks := count_newLine_of_toLine written
    exact ⟨breaks.1, breaks.2, (of_toLine written).2, ofJson_toLine written⟩
  · have addressed := not_astray_of_ofJson read
    refine ⟨addressed, fun line written => ?_⟩
    rw [ofJson_toLine written, if_neg addressed]

def handshake : Envelope := ⟨7, .party 2, .akeInit, [1, 2, 255]⟩

def handshakeLine : String :=
  "\x7b\"senderIndex\":7,\"receiverIndex\":2,\"type\":1,\"content\":\"AQL/\"\x7d\n"

theorem lines_read_back_handshake :
    handshake.toLine = .ok handshakeLine ∧ ofJson handshakeLine = .ok handshake ∧
    ofJson "[7, 2, 1, \"AQL/\"]" = .ok handshake ∧ handshakeLine.toList.count '\n' = 1 := by
  have written : handshake.toLine = .ok handshakeLine := by rfl
  have spaced : ofJson "[7, 2, 1, \"AQL/\"]" = .ok handshake := by decide +kernel
  have back := (lines_read_back handshake).2 _ spaced
  exact ⟨written, back.2 _ written, spaced, ((lines_read_back handshake).1 _ written).1⟩

end Envelope

end RingAgreement
