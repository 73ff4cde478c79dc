import Mathlib.Data.List.Perm.Basic
import Mathlib.Data.List.Perm.Subperm
import RingAgreement.Simulation.Network
/-!
What goes into a simulated network comes out of it. The books of a run balance at every moment: what
was handed out as an original, and what is in flight as one, is what was sent, and there is at most
one copy of each packet that has been handed out.
-/

namespace RingAgreement

theorem StreamSource.belowWithin_lt {n : Nat} (positive : 0 < n) (tries : Nat) (s : StreamSource) :
    (belowWithin n tries s).1 < n := by
  induction tries generalizing s with
  | zero => exact positive
  | succ tries ih =>
    rw [belowWithin]
    dsimp only
    split
    next =>
      have drawn : s.next64.1.toNat < UInt64.size := s.next64.1.toNat_lt
      exact Nat.div_lt_of_lt_mul (Nat.mul_lt_mul_of_pos_right drawn positive)
    next => exact ih _

namespace Simulation

namespace Flight

/-- The packet of a flight that is no copy. -/
def original? (flight : Flight) : Option Packet :=
  if flight.duplicate then none else some flight.packet

def copy? (flight : Flight) : Option Packet :=
  if flight.duplicate then some flight.packet else none

def originals (flights : List Flight) : List Packet := flights.filterMap original?

def copies (flights : List Flight) : List Packet := flights.filterMap copy?

variable (packet : Packet) (flights more : List Flight)

@[simp] theorem originals_cons_original :
    originals (⟨packet, false⟩ :: flights) = packet :: originals flights := rfl

@[simp] theorem originals_cons_copy :
    originals (⟨packet, true⟩ :: flights) = originals flights := rfl

@[simp] theorem copies_cons_original :
    copies (⟨packet, false⟩ :: flights) = copies flights := rfl

@[simp] theorem copies_cons_copy :
    copies (⟨packet, true⟩ :: flights) = packet :: copies flights := rfl

@[simp] theorem originals_append :
    originals (flights ++ more) = originals flights ++ originals more := List.filterMap_append

@[simp] theorem copies_append :
    copies (flights ++ more) = copies flights ++ copies more := List.filterMap_append

theorem length_originals_add_copies :
    (originals flights).length + (copies flights).length = flights.length := by
  induction flights with
  | nil => rfl
  | cons flight rest ih =>
    obtain ⟨packet, duplicate⟩ := flight
    cases duplicate with
    | false =>
      rw [originals_cons_original, copies_cons_original, List.length_cons, List.length_cons]
      omega
    | true =>
      rw [originals_cons_copy, copies_cons_copy, List.length_cons, List.length_cons]
      omega

end Flight

open Flight (originals)

namespace Network

variable {n rest : Network} {flight : Flight}

/-! ## Handing out a packet -/

theorem nextIndex_lt (busy : n.inFlight ≠ []) : n.nextIndex.1 < n.inFlight.length := by
  have positive : 0 < n.inFlight.length := List.length_pos_iff.2 busy
  rw [nextIndex]
  split
  next => exact StreamSource.belowWithin_lt positive _ _
  next => exact positive

/-- A network hands out a packet: the packet leaves its place, and a copy of an original may go to
the end. -/
inductive Takes (n : Network) : Flight → Network → Prop
  | moved {i : Nat} (inside : i < n.inFlight.length)
      (first : n.config.reorder = false → i = 0) (source : StreamSource) :
      Takes n n.inFlight[i] ⟨n.config, source, n.inFlight.eraseIdx i, n.delivered + 1⟩
  | copied {i : Nat} (inside : i < n.inFlight.length)
      (original : n.inFlight[i].duplicate = false)
      (copying : n.config.duplicateRate.isPositive = true) (source : StreamSource) :
      Takes n n.inFlight[i] ⟨n.config, source,
        n.inFlight.eraseIdx i ++ [⟨n.inFlight[i].packet, true⟩], n.delivered + 1⟩

theorem copies_eq_true {source : StreamSource} (copied : (n.copies flight source).1 = true) :
    flight.duplicate = false ∧ n.config.duplicateRate.isPositive = true := by
  rw [copies] at copied
  split at copied
  next allowed => simpa using allowed
  next => cases copied

/-- A network that is not idle hands out a packet. -/
theorem take_of_busy (busy : n.inFlight ≠ []) :
    ∃ flight rest, n.take = some (flight, rest) ∧ n.Takes flight rest := by
  have inside := nextIndex_lt busy
  have first : n.config.reorder = false → n.nextIndex.1 = 0 := by
    intro ordered
    rw [nextIndex, ordered]
    rfl
  rw [take]
  generalize n.nextIndex = next at inside first
  obtain ⟨i, source⟩ := next
  dsimp only
  rw [List.getElem?_eq_getElem inside]
  dsimp only
  refine ⟨_, _, rfl, ?_⟩
  cases copied : (n.copies n.inFlight[i] source).1 with
  | false => exact .moved inside first _
  | true =>
    obtain ⟨original, copying⟩ := copies_eq_true copied
    exact .copied inside original copying _

theorem take_of_idle (idle : n.inFlight = []) : n.take = none := by
  rw [take]
  dsimp only
  rw [idle]
  rfl

theorem take_eq_none_iff : n.take = none ↔ n.inFlight = [] := by
  refine ⟨fun refused => ?_, take_of_idle⟩
  by_cases idle : n.inFlight = []
  · exact idle
  · obtain ⟨flight, rest, taken, -⟩ := take_of_busy idle
    rw [refused] at taken
    cases taken

theorem takes_of_take (taken : n.take = some (flight, rest)) : n.Takes flight rest := by
  have busy : n.inFlight ≠ [] := by
    intro idle
    rw [take_of_idle idle] at taken
    cases taken
  obtain ⟨flight', rest', taken', takes⟩ := take_of_busy busy
  obtain ⟨rfl, rfl⟩ := Prod.mk.inj (Option.some.inj (taken.symm.trans taken'))
  exact takes

/-! ## Balance -/

/-- The books of a network: the packets that were sent, those that were handed out, and those that
are still in flight. -/
structure Balanced (config : NetworkConfig) (sent : List Packet) (out : List Flight)
    (n : Network) : Prop where
  config_eq : n.config = config
  kept : (originals (out ++ n.inFlight)).Perm sent
  copied : (Flight.copies (out ++ n.inFlight)).Subperm (originals out)
  delivered : n.delivered = out.length
  ordered : config.reorder = false → config.duplicateRate.isPositive = false →
    out ++ n.inFlight = sent.map (⟨·, false⟩)

variable {config : NetworkConfig} {sent : List Packet} {out : List Flight}

theorem balanced_ofSeed (seed : UInt64) (config : NetworkConfig) :
    Balanced config [] [] (ofSeed seed config) where
  config_eq := rfl
  kept := .refl []
  copied := List.Subperm.refl []
  delivered := rfl
  ordered := fun _ _ => rfl

theorem Balanced.send (balanced : Balanced config sent out n) (packet : Packet) :
    Balanced config (sent ++ [packet]) out (n.send packet) where
  config_eq := balanced.config_eq
  kept := by
    rw [Network.send, ← List.append_assoc, Flight.originals_append]
    exact balanced.kept.append_right [packet]
  copied := by
    rw [Network.send, ← List.append_assoc, Flight.copies_append, Flight.copies_cons_original]
    exact (List.append_nil _).symm ▸ balanced.copied
  delivered := balanced.delivered
  ordered := fun inOrder uncopied => by
    rw [Network.send, ← List.append_assoc, balanced.ordered inOrder uncopied, List.map_append]
    rfl

/-- A packet that is handed out goes from one side of the books to the other. -/
theorem handed_perm {i : Nat} (inside : i < n.inFlight.length) (out : List Flight) :
    (out ++ [n.inFlight[i]] ++ n.inFlight.eraseIdx i).Perm (out ++ n.inFlight) := by
  rw [List.append_assoc]
  exact (List.getElem_cons_eraseIdx_perm inside).append_left out

theorem Balanced.take (balanced : Balanced config sent out n) (takes : n.Takes flight rest) :
    Balanced config sent (out ++ [flight]) rest := by
  have counted : n.delivered + 1 = (out ++ [flight]).length := by
    rw [List.length_append, ← balanced.delivered]
    rfl
  cases takes with
  | @moved i inside first source =>
    have moved := handed_perm inside out
    have more : (originals out).Subperm (originals (out ++ [n.inFlight[i]])) := by
      rw [Flight.originals_append]
      exact (List.sublist_append_left _ _).subperm
    exact {
      config_eq := balanced.config_eq
      kept := (moved.filterMap _).trans balanced.kept
      copied := ((moved.filterMap _).subperm.trans balanced.copied).trans more
      delivered := counted
      ordered := fun inOrder uncopied => by
        obtain rfl := first (balanced.config_eq ▸ inOrder)
        rw [← balanced.ordered inOrder uncopied, List.append_assoc]
        obtain ⟨head, tail, queue⟩ := List.exists_cons_of_length_pos inside
        simp only [queue]
        rfl }
  | @copied i inside original copying source =>
    -- The copy is paid for by the original, which is handed out now.
    have moved := handed_perm inside out
    have handed : originals [n.inFlight[i]] = [n.inFlight[i].packet] := by
      simp [originals, Flight.original?, original]
    have paid : (Flight.copies (out ++ [n.inFlight[i]] ++ n.inFlight.eraseIdx i)).Subperm
        (originals out) := (moved.filterMap _).subperm.trans balanced.copied
    exact {
      config_eq := balanced.config_eq
      kept := by
        rw [← List.append_assoc, Flight.originals_append, Flight.originals_cons_copy]
        exact (List.append_nil _).symm ▸ (moved.filterMap _).trans balanced.kept
      copied := by
        rw [← List.append_assoc, Flight.copies_append, Flight.originals_append, handed]
        exact (List.subperm_append_right [n.inFlight[i].packet]).2 paid
      delivered := counted
      ordered := fun _ uncopied => by
        rw [balanced.config_eq, uncopied] at copying
        cases copying }

/-! ## Runs -/

/-- What is asked of a network. -/
inductive Request where
  | send (packet : Packet)
  | take

def Request.packet? : Request → Option Packet
  | send packet => some packet
  | take => none

/-- The answer to a request and the network after it. An idle network has nothing to hand out. -/
def answer (n : Network) : Request → Option Flight × Network
  | .send packet => (none, n.send packet)
  | .take =>
    match n.take with
    | some (flight, rest) => (some flight, rest)
    | none => (none, n)

def after (n : Network) : List Request → Network
  | [] => n
  | request :: rest => (n.answer request).2.after rest

/-- What is handed out over requests, in the order of the requests. -/
def handedOut (n : Network) : List Request → List Flight
  | [] => []
  | request :: rest => (n.answer request).1.toList ++ (n.answer request).2.handedOut rest

/-- The packets that requests put into a network. -/
def packetsOf (requests : List Request) : List Packet := requests.filterMap (·.packet?)

theorem packetsOf_cons (request : Request) (rest : List Request) :
    packetsOf (request :: rest) = request.packet?.toList ++ packetsOf rest := by
  cases request with
  | send packet => rfl
  | take => rfl

theorem Balanced.answer (balanced : Balanced config sent out n) (request : Request) :
    Balanced config (sent ++ request.packet?.toList) (out ++ (n.answer request).1.toList)
      (n.answer request).2 := by
  cases request with
  | send packet =>
    rw [Network.answer, Option.toList_none, List.append_nil]
    exact balanced.send packet
  | take =>
    rw [Network.answer, Request.packet?, Option.toList_none, List.append_nil]
    cases taken : n.take with
    | none => exact (List.append_nil out).symm ▸ balanced
    | some handed => exact balanced.take (takes_of_take taken)

theorem Balanced.after (balanced : Balanced config sent out n) (requests : List Request) :
    Balanced config (sent ++ packetsOf requests) (out ++ n.handedOut requests)
      (n.after requests) := by
  induction requests generalizing n sent out with
  | nil =>
    rw [handedOut, packetsOf, List.filterMap_nil, List.append_nil, List.append_nil]
    exact balanced
  | cons request rest ih =>
    have later := ih (balanced.answer request)
    rw [List.append_assoc, List.append_assoc] at later
    rw [packetsOf_cons]
    exact later

/-- At any moment of what was handed out, the requests so far are the first ones. -/
theorem exists_handedOut_eq {requests : List Request} {front back : List Flight}
    (handed : n.handedOut requests = front ++ back) :
    ∃ earlier, earlier <+: requests ∧ n.handedOut earlier = front := by
  induction requests generalizing n front with
  | nil =>
    obtain ⟨rfl, -⟩ := List.append_eq_nil_iff.1 handed.symm
    exact ⟨[], List.prefix_rfl, rfl⟩
  | cons request rest ih =>
    cases front with
    | nil => exact ⟨[], List.nil_prefix, rfl⟩
    | cons first front =>
      rw [handedOut] at handed
      cases answered : (n.answer request).1 with
      | none =>
        rw [answered] at handed
        obtain ⟨earlier, begins, same⟩ := ih handed
        refine ⟨request :: earlier, List.cons_prefix_cons.2 ⟨rfl, begins⟩, ?_⟩
        rw [handedOut, answered]
        exact same
      | some flight =>
        rw [answered] at handed
        obtain ⟨rfl, later⟩ := List.cons.inj handed
        obtain ⟨earlier, begins, same⟩ := ih later
        refine ⟨request :: earlier, List.cons_prefix_cons.2 ⟨rfl, begins⟩, ?_⟩
        rw [handedOut, answered, same]
        rfl

/-- A network neither loses packets nor makes up any. At every moment of a run the originals that
were handed out, and those in flight, are together what was sent; there is at most one copy for each
original that was handed out, and it comes after the original. The network counts what it hands out,
hands something out whenever it is not idle, and never more than twice as much as was sent. If it
keeps the order and makes no copies, packets come out in the order in which they were sent. -/
theorem packets_conserved (seed : UInt64) (config : NetworkConfig) (requests : List Request) :
    let n := (ofSeed seed config).after requests
    let out := (ofSeed seed config).handedOut requests
    let sent := packetsOf requests
    (originals out ++ originals n.inFlight).Perm sent ∧
    (Flight.copies out ++ Flight.copies n.inFlight).Subperm (originals out) ∧
    (∀ earlier copy later, out = earlier ++ copy :: later → copy.duplicate = true →
      (Flight.copies earlier).count copy.packet < (originals earlier).count copy.packet) ∧
    n.delivered = out.length ∧
    (n.take = none ↔ n.inFlight = []) ∧
    out.length ≤ 2 * sent.length ∧
    (config.reorder = false → config.duplicateRate.isPositive = false →
      out ++ n.inFlight = sent.map (⟨·, false⟩)) := by
  intro n out sent
  have books (requests : List Request) : Balanced config (packetsOf requests)
      ((ofSeed seed config).handedOut requests) ((ofSeed seed config).after requests) :=
    (balanced_ofSeed seed config).after requests
  have balanced := books requests
  have kept : (originals out ++ originals n.inFlight).Perm sent := by
    rw [← Flight.originals_append]
    exact balanced.kept
  have copied : (Flight.copies out ++ Flight.copies n.inFlight).Subperm (originals out) := by
    rw [← Flight.copies_append]
    exact balanced.copied
  refine ⟨kept, copied, ?_, balanced.delivered, take_eq_none_iff, ?_, balanced.ordered⟩
  · rintro earlier ⟨packet, duplicate⟩ later split rfl
    have parts : (ofSeed seed config).handedOut requests =
        earlier ++ [⟨packet, true⟩] ++ later := by
      rwa [List.append_assoc]
    obtain ⟨first, -, handed⟩ := exists_handedOut_eq parts
    -- The books at the moment when the copy has just been handed out.
    have paid := (books first).copied.count_le packet
    rw [handed, Flight.copies_append, Flight.copies_append, Flight.originals_append,
      show Flight.copies [⟨packet, true⟩] = [packet] from rfl,
      show originals [⟨packet, true⟩] = [] from rfl, List.append_nil, List.count_append,
      List.count_append, List.count_singleton_self] at paid
    exact Nat.lt_of_lt_of_le (Nat.lt_succ_self _) (Nat.le_trans (Nat.le_add_right _ _) paid)
  · have whole := Flight.length_originals_add_copies out
    have fewer := kept.length_eq
    have paid := copied.length_le
    rw [List.length_append] at fewer paid
    omega

end Network

end Simulation

end RingAgreement
