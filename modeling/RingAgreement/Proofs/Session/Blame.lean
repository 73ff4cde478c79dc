import RingAgreement.Proofs.Medium.Exchange
import RingAgreement.Proofs.Session.Failure
import RingAgreement.Proofs.Session.Provenance
/-!
Who is named when a commitment does not open. The verifier repeats the commitment with the share, the
position, the public key and the coin that the sender has made it with, so a contribution that a
party has sent opens at every other party; the one that is named has been altered on its way.
-/

namespace RingAgreement.Session

variable {K : Kem} {s : Session} {ρ : Type} [RandomSource ρ]

/-- A contribution that any session of a party has sent opens at the position of the party. -/
theorem opens_of_sent {roster : Roster} {own : Fin roster.size} {secretKey : SecretKey}
    {inputs : List (SessionEvent × ρ)} {e : Envelope} {c : Contribution}
    (sent : e ∈ ((fresh roster own secretKey).outcomes K inputs).flatMap (·.sends))
    (read : Payload.ofEnvelope e = .ok (.shareBroadcast c)) :
    c.OpensAt K (roster.party own).publicKey own :=
  opens_of_own ((fresh_coherent roster own secretKey).slot_of_read sent read)

/-- When a step of a session fails over a commitment, the shares cancel out and the position that is
named is the first one whose contribution does not open. It is not the own position. The contribution
there is the first one that came from its party, and no session of that party ever sends such a
contribution, whatever it is handed and whatever secret key it has. -/
theorem blame_is_sound (K : Kem) (roster : Roster) (own : Fin roster.size) (secretKey : SecretKey)
    (inputs : List (SessionEvent × ρ)) (event : SessionEvent) (source : ρ) (index : Nat)
    (failed : (((fresh roster own secretKey).after K inputs).handle K event source).result =
      .error (.verification (.commitment index))) :
    let start := fresh roster own secretKey
    let s := ((start.after K inputs).handle K event source).session
    ∃ (c : Fin roster.size → Contribution) (i : Fin roster.size), index = i ∧ i ≠ own ∧
      (∀ j : Fin roster.size, s.slot j = some (c j)) ∧ roster.Misfit K c i ∧
      ((inputs ++ [(event, source)]).findSome? fun input =>
        input.1.share? start.ownIndex i) = some (c i) ∧
      ∀ (ρ' : Type) [RandomSource ρ'] (secretKey' : SecretKey)
        (inputs' : List (SessionEvent × ρ')),
        ∀ e ∈ ((fresh roster i secretKey').outcomes K inputs').flatMap (·.sends),
          Payload.ofEnvelope e ≠ .ok (.shareBroadcast (c i)) := by
  intro start s
  have unstarted : start.Coherent K := fresh_coherent roster own secretKey
  have coherent : (start.after K inputs).Coherent K := unstarted.after inputs
  have alive : (start.after K inputs).state ≠ .aborted := by
    intro aborted
    rw [handle_aborted _ K aborted] at failed
    cases failed
  obtain ⟨_, same, rejected⟩ := coherent.rejected_of_fatal alive failed rfl
  cases same
  have reached : s = start.after K (inputs ++ [(event, source)]) :=
    (after_append K start inputs [(event, source)]).symm
  have member : start.SameParty s := reached ▸ sameParty_after K start _
  obtain ⟨c, i, here, filled, misfit⟩ := member.verifiedShares_misfit_iff.1 rejected.fails
  have foreign : i ≠ own := by
    refine Ne.symm ?_
    rintro rfl
    exact misfit.not_opens (opens_of_own (reached ▸ filled own))
  have first := unstarted.slot_after_eq (fun aborted => by cases aborted) foreign
    (inputs ++ [(event, source)])
  rw [fresh_slot, Option.none_or, ← reached, filled i] at first
  exact ⟨c, i, here, foreign, filled, misfit, first.symm,
    fun ρ' _ secretKey' inputs' e sent read => misfit.not_opens (opens_of_sent sent read)⟩

/-- The first of three parties is handed the contribution of the third one with another tag, after
an undisturbed exchange. -/
theorem third_party_blamed :
    ∃ (inputs : List (SessionEvent × DrawCounter)) (event : SessionEvent) (source : DrawCounter),
    let own : Fin HonestRing.trio.roster.size := ⟨0, by decide⟩
    let start := HonestRing.trio.fresh own
    let s := ((start.after .transparent inputs).handle .transparent event source).session
    ((start.after .transparent inputs).handle .transparent event source).result =
      .error (.verification (.commitment 2)) ∧
    ∃ (c : Fin HonestRing.trio.roster.size → Contribution) (i : Fin HonestRing.trio.roster.size),
      2 = i.val ∧ i ≠ own ∧ (∀ j : Fin HonestRing.trio.roster.size, s.slot j = some (c j)) ∧
      HonestRing.trio.roster.Misfit .transparent c i ∧
      ((inputs ++ [(event, source)]).findSome? fun input =>
        input.1.share? start.ownIndex i) = some (c i) ∧
      ∀ (ρ' : Type) [RandomSource ρ'] (secretKey' : SecretKey)
        (inputs' : List (SessionEvent × ρ')),
        ∀ e ∈ ((fresh HonestRing.trio.roster i secretKey').outcomes .transparent inputs').flatMap
          (·.sends), Payload.ofEnvelope e ≠ .ok (.shareBroadcast (c i)) := by
  let first : Fin HonestRing.trio.roster.size := ⟨0, by decide⟩
  let second : Fin HonestRing.trio.roster.size := ⟨1, by decide⟩
  let third : Fin HonestRing.trio.roster.size := ⟨2, by decide⟩
  obtain ⟨x⟩ := HonestRing.exists_exchange Kem.transparent_correct HonestRing.trio
    (⟨0⟩ : DrawCounter)
  let genuine := x.contribution third
  let altered : Contribution :=
    { genuine with commitment := { genuine.commitment with
        tag := genuine.commitment.tag ^^^ .replicate 16 1 } }
  have other : genuine.commitment ≠ altered.commitment := by
    intro same
    have tags := congrArg (·.tag) same
    have flipped : Bytes.zero 16 = .replicate 16 1 :=
      Bytes.xor_left_cancel ((Bytes.xor_zero _).trans tags)
    exact absurd flipped (by decide)
  let seen : Fin HonestRing.trio.roster.size → Contribution :=
    Function.update x.contribution third altered
  have shares : (fun k => (seen k).share) = fun k => (x.contribution k).share := by
    funext k
    by_cases here : k = third
    · rw [here]
      rfl
    · rw [show seen k = x.contribution k from Function.update_of_ne here _ _]
  have misfit : HonestRing.trio.roster.Misfit .transparent seen third := {
    closed := by
      rw [shares]
      exact x.closed
    earlier := by
      intro j before
      rw [show seen j = x.contribution j from Function.update_of_ne (Fin.ne_of_lt before) _ _]
      exact x.opens j
    differs := ⟨genuine.commitment, x.opens third, other⟩ }
  obtain ⟨t, running, member, filled, _, ends⟩ := x.exists_gathered first
    (show second ≠ first by decide) (show third ≠ first by decide) (show third ≠ second by decide)
    (by decide) (d := seen) rfl
  have fails : t.verifiedShares .transparent = .error (.verification (.commitment 2)) :=
    member.verifiedShares_misfit_iff.2 ⟨seen, third, rfl, filled, misfit⟩
  have failed := congrArg (·.result) (ends.trans (running.conclude_of_failed fails [] _))
  exact ⟨_, _, _, failed, blame_is_sound .transparent HonestRing.trio.roster first
    (HonestRing.trio.pair first).secretKey _ _ _ 2 failed⟩

end RingAgreement.Session
