import Mathlib.Data.List.Count
import RingAgreement.Proofs.Medium.Basic
import RingAgreement.Proofs.Ring.Neighbors
import RingAgreement.Proofs.Session.Growth
import RingAgreement.Proofs.Wire.RoundTrip
/-!
What holds in a ring of honest parties between any two writes. Neighbours that both hold the key
of their link hold the same one, contributions are copies of what their party has stored itself,
and every message on the medium is backed by the state of the party that has sent it.
-/

namespace RingAgreement

namespace Session

/-- How many messages of a kind a session must have sent by now. -/
def tally (s : Session) : MessageKind → Nat
  | .akeInit => s.progress.initiated.toNat
  | .akeRespond => s.progress.keyLeft.isSome.toNat
  | .shareBroadcast => (s.slot s.own).isSome.toNat
  | _ => 0

theorem toNat_pos_iff {held : Bool} : 0 < held.toNat ↔ held = true := by
  cases held <;> decide

end Session

namespace HonestRing

variable {K : Kem} (ring : HonestRing K)

/-- A payload of a party, as it stands on the medium. -/
def post (i : Fin ring.roster.size) (p : Payload) : Posted ring.roster.size :=
  ⟨i, (ring.fresh i).envelope p⟩

variable (session : Fin ring.roster.size → Session)

/-- What stands behind a payload: an offer comes from a started party and belongs to the transcript
that it keeps, an answer comes with a left key to which the left neighbour's transcript leads, and
a contribution is the stored one. -/
inductive Backed (i : Fin ring.roster.size) : Payload → Prop
  | offer {offer : Handshake.Offer} {transcript : Handshake.Transcript} {seed : Bytes 32}
      (begun : (session i).progress.initiated = true)
      (made : Handshake.initiate K (ring.pair (ring.roster.right i)).publicKey seed =
        .ok (offer, transcript))
      (kept : ∀ t, (session i).progress.transcript = some t → t = transcript) :
      Backed i (.akeInit offer)
  | response {response : Handshake.Response} {key : SharedSecret}
      (held : (session i).progress.keyLeft = some key)
      (fits : ∀ t, (session (ring.roster.left i)).progress.transcript = some t →
        Handshake.finalize K response t (ring.pair (ring.roster.left i)).secretKey = .ok key) :
      Backed i (.akeRespond response)
  | share {c : Contribution} (stored : (session i).slot i = some c) :
      Backed i (.shareBroadcast c)

/-- A contribution that a party has made itself. -/
def Owned (i : Fin ring.roster.size) (s : Session) (c : Contribution) : Prop :=
  ∃ right left, s.progress.keyRight = some right ∧ s.progress.keyLeft = some left ∧
    c.share = .ofNeighborKeys right left ∧ c.OpensAt K (ring.roster.party i).publicKey i

/-- The invariant of a ring of honest parties. -/
structure Sound (posted : List (Posted ring.roster.size)) : Prop where
  member : ∀ i, (ring.fresh i).SameParty (session i)
  alive : ∀ i, (session i).state ≠ .aborted
  pending : ∀ i, (session i).progress.initiated = true →
    (session i).progress.transcript.isSome ∨ (session i).progress.keyRight.isSome
  answered : ∀ i, (session i).progress.keyLeft.isSome →
    (session (ring.roster.left i)).progress.initiated = true
  linked : ∀ i key, (session i).progress.keyRight = some key →
    (session (ring.roster.right i)).progress.keyLeft = some key
  owned : ∀ i c, (session i).slot i = some c → ring.Owned i (session i) c
  copied : ∀ i j : Fin ring.roster.size, ∀ c,
    (session i).slot j = some c → (session j).slot j = some c
  backed : ∀ p ∈ posted, ∃ payload, p = ring.post p.origin payload ∧
    ring.Backed session p.origin payload
  counted : ∀ i kind, (posted.map (·.stamp)).count (i, kind) = (session i).tally kind

/-- A write to one session of the ring that keeps the invariant, with the payloads sent along. -/
structure Change (i : Fin ring.roster.size) (s' : Session) (payloads : List Payload) : Prop where
  member : (ring.fresh i).SameParty s'
  alive : s'.state ≠ .aborted
  grown : (session i).Grown s'
  pending : s'.progress.initiated = true →
    s'.progress.transcript.isSome ∨ s'.progress.keyRight.isSome
  answered : s'.progress.keyLeft.isSome →
    (session (ring.roster.left i)).progress.initiated = true
  linked : ∀ key, s'.progress.keyRight = some key →
    (session (ring.roster.right i)).progress.keyLeft = some key
  owned : ∀ c, s'.slot i = some c → ring.Owned i s' c
  copied : ∀ j : Fin ring.roster.size, j ≠ i → ∀ c,
    s'.slot j = some c → (session j).slot j = some c
  backed : ∀ p ∈ payloads, ring.Backed (Function.update session i s') i p
  counted : ∀ kind, (session i).tally kind + (payloads.map (·.kind)).count kind = s'.tally kind

variable {ring session}

theorem Sound.stamp_mem {posted : List (Posted ring.roster.size)}
    (sound : ring.Sound session posted) {i : Fin ring.roster.size} {kind : MessageKind} :
    (i, kind) ∈ posted.map (·.stamp) ↔ 0 < (session i).tally kind := by
  rw [← sound.counted, List.count_pos_iff]

/-- What backs a payload is never lost. -/
theorem Backed.grown {session' : Fin ring.roster.size → Session}
    (grown : ∀ j, (session j).Grown (session' j))
    (answered : ∀ j, (session j).progress.keyLeft.isSome →
      (session (ring.roster.left j)).progress.initiated = true)
    {i : Fin ring.roster.size} {p : Payload} (backed : ring.Backed session i p) :
    ring.Backed session' i p := by
  cases backed with
  | offer begun made kept =>
    refine .offer ((grown i).initiated begun) made fun t kept' => ?_
    -- A transcript that was not there before comes with a start, but the party had started.
    rcases (grown i).transcript t kept' with before | unstarted
    · exact kept t before
    · rw [begun] at unstarted
      cases unstarted
  | response held fits =>
    refine .response ((grown i).keyLeft _ held) fun t kept' => ?_
    rcases (grown _).transcript t kept' with before | unstarted
    · exact fits t before
    · rw [answered i (by rw [held]; rfl)] at unstarted
      cases unstarted
  | share stored => exact .share ((grown i).slot _ _ stored)

theorem Change.grown_update {i : Fin ring.roster.size} {s' : Session} {payloads : List Payload}
    (change : ring.Change session i s' payloads) (j : Fin ring.roster.size) :
    (session j).Grown (Function.update session i s' j) := by
  by_cases here : j = i
  · subst here
    rw [Function.update_self]
    exact change.grown
  · rw [Function.update_of_ne here]
    exact .refl _

theorem count_stamp_post (i j : Fin ring.roster.size) (payloads : List Payload)
    (kind : MessageKind) :
    ((payloads.map (ring.post i)).map (·.stamp)).count (j, kind) =
      if j = i then (payloads.map (·.kind)).count kind else 0 := by
  have stamps : (payloads.map (ring.post i)).map (·.stamp) =
      (payloads.map (·.kind)).map fun kind => (i, kind) := by
    rw [List.map_map, List.map_map]
    rfl
  rw [stamps]
  split
  next here =>
    subst here
    exact List.count_map_of_injective _ _ (fun _ _ same => (Prod.mk.inj same).2) _
  next elsewhere =>
    refine List.count_eq_zero.2 fun member => elsewhere ?_
    obtain ⟨_, _, same⟩ := List.mem_map.1 member
    exact (Prod.mk.inj same).1.symm

/-- A write of one party keeps the invariant of the ring. -/
theorem Sound.change {posted : List (Posted ring.roster.size)} (sound : ring.Sound session posted)
    {i : Fin ring.roster.size} {s' : Session} {payloads : List Payload}
    (change : ring.Change session i s' payloads) :
    ring.Sound (Function.update session i s') (posted ++ payloads.map (ring.post i)) := by
  have grown := change.grown_update
  exact {
    member := (Function.forall_update_iff session fun j s => (ring.fresh j).SameParty s).2
      ⟨change.member, fun j _ => sound.member j⟩
    alive := (Function.forall_update_iff session fun _ s => s.state ≠ .aborted).2
      ⟨change.alive, fun j _ => sound.alive j⟩
    pending := (Function.forall_update_iff session fun _ s => s.progress.initiated = true →
        s.progress.transcript.isSome ∨ s.progress.keyRight.isSome).2
      ⟨change.pending, fun j _ => sound.pending j⟩
    owned := (Function.forall_update_iff session fun j s => ∀ c, s.slot j = some c →
        ring.Owned j s c).2
      ⟨change.owned, fun j _ => sound.owned j⟩
    answered := by
      intro j keyed
      refine (grown _).initiated ?_
      by_cases here : j = i
      · subst here
        rw [Function.update_self] at keyed
        exact change.answered keyed
      · rw [Function.update_of_ne here] at keyed
        exact sound.answered j keyed
    linked := by
      intro j key keyed
      refine (grown _).keyLeft key ?_
      by_cases here : j = i
      · subst here
        rw [Function.update_self] at keyed
        exact change.linked key keyed
      · rw [Function.update_of_ne here] at keyed
        exact sound.linked j key keyed
    copied := by
      intro j k c stored
      by_cases own : k = j
      · rwa [own] at stored ⊢
      · refine (grown k).slot _ c ?_
        by_cases here : j = i
        · subst here
          rw [Function.update_self] at stored
          exact change.copied k own c stored
        · rw [Function.update_of_ne here] at stored
          exact sound.copied j k c stored
    backed := by
      intro p member
      rcases List.mem_append.1 member with before | new
      · obtain ⟨payload, carried, backed⟩ := sound.backed p before
        exact ⟨payload, carried, backed.grown grown sound.answered⟩
      · obtain ⟨payload, sent, rfl⟩ := List.mem_map.1 new
        exact ⟨payload, rfl, change.backed payload sent⟩
    counted := by
      intro j kind
      rw [List.map_append, List.count_append, sound.counted, count_stamp_post]
      by_cases here : j = i
      · subst here
        rw [Function.update_self, if_pos rfl]
        exact change.counted kind
      · rw [Function.update_of_ne here, if_neg here, Nat.add_zero] }

end HonestRing

end RingAgreement
