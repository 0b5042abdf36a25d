/-
  Outbound calls that were really placed.

  `dial_now` builds its setup and its request after the callee was found, and drops the error
  of either: with an id of more than 20 bytes it sends the bootstrap request only, and then
  sets the call, pushes `Dialing` and returns `Ok` (`long_id_not_placed`).

  The invariant is `Underway`: what a dial has still to hand to its socket, and what it has
  handed to it, are together the packets that it built. `placed_iff` says which runs place
  every call that they set.
-/
import Michoi.Household.Addressed

namespace Michoi

open Lib

/-! ## What a dial does -/

/-- What others can see of a dial, with the number of its task. -/
inductive DialNote where
  /-- A packet goes to the socket. -/
  | handed (dial : Nat) (packet : Bytes)
  /-- `call_session` is set. -/
  | installed (dial : Nat) (dialled : String) (e : Endpoints)
  /-- `Dialing` is pushed, and `dial_now` returns `Ok`. -/
  | told (dial : Nat) (dialled : String) (e : Endpoints)
  deriving DecidableEq, Repr

namespace HouseTask

/-- What the next step of the handler does. -/
def dialNotes (i : Nat) : HouseTask → List DialNote
  | dial _ (.setup _ _ (packet :: _)) => [.handed i packet]
  | dial dialled (.install _ e) => [.installed i dialled e]
  | dial dialled (.publish _ e) => [.told i dialled e]
  | _ => []

/-- The number dialled, where the next step sets the call. -/
def installing : HouseTask → Option String
  | dial dialled (.install _ _) => some dialled
  | _ => none

end HouseTask

variable {W : Type}

/-- The notes of a move. -/
def dialNotes (p : HousePool W) (m : HouseMove) (_ : HousePool W) : List DialNote :=
  match m with
  | .step i _ => (p.threads[i]?).elim [] (HouseTask.dialNotes i)
  | _ => []

/-- The block names us and the station that was dialled. -/
structure Names (ours dialled : String) (e : Endpoints) : Prop where
  caller : e.door.id = ours
  callee : expandStationNumber ours dialled = some e.room.id

/-- The setup and the request of a call were built, and the dial handed both to its socket. -/
def CallPlaced (notes : List DialNote) (dial : Nat) (e : Endpoints) : Prop :=
  ∃ setup request, callSetup e.door e.room = .ok setup ∧ callRequest e.door e.room = .ok request ∧
    .handed dial setup ∈ notes ∧ .handed dial request ∈ notes

/-- What is said to be dialled was placed, and names whom was dialled. -/
def DialNote.Placed (ours : String) (notes : List DialNote) : DialNote → Prop
  | handed _ _ => True
  | installed i dialled e => Names ours dialled e ∧ CallPlaced notes i e
  | told i dialled e => Names ours dialled e ∧ CallPlaced notes i e

/-- Every call of the run was. -/
def AllPlaced (ours : String) (notes : List DialNote) : Prop := ∀ n ∈ notes, n.Placed ours notes

/-- The station id that is dialled, and our own, fit into a station block. -/
def Nameable (ours dialled : String) : Prop :=
  (asBytes ours).length ≤ 20 ∧
    ∀ id ∈ expandStationNumber ours dialled, (asBytes id).length ≤ 20

instance (ours dialled : String) : Decidable (Nameable ours dialled) :=
  inferInstanceAs (Decidable (_ ∧ ∀ _ ∈ _, _))

/-- The call that is set is one with ids that fit. -/
def InstallsNameable (p : HousePool W) : HouseMove → Prop
  | .step i _ => ∀ t ∈ p.threads[i]?, ∀ dialled ∈ t.installing,
      Nameable p.shared.agent.peers.room.id dialled
  | _ => True

instance (p : HousePool W) : ∀ m, Decidable (InstallsNameable p m)
  | .step _ _ => inferInstanceAs (Decidable (∀ _ ∈ _, ∀ _ ∈ _, _))
  | .start _ => isTrue trivial
  | .outside _ => isTrue trivial

/-- What a dial has done by the time it stands there. -/
def DialPc.Underway (ours dialled : String) (notes : List DialNote) (i : Nat) : DialPc → Prop
  | .resolve calleeId => expandStationNumber ours dialled = some calleeId
  | .connect callee => expandStationNumber ours dialled = some callee.id
  | .identify _ callee _ => expandStationNumber ours dialled = some callee.id
  | .setup _ e packets => Names ours dialled e ∧
      ∀ packet ∈ setupPackets e, packet ∈ packets ∨ .handed i packet ∈ notes
  | .install _ e => Names ours dialled e ∧ ∀ packet ∈ setupPackets e, .handed i packet ∈ notes
  | .publish _ e => .installed i dialled e ∈ notes
  | _ => True

/-- The same of any handler. -/
def HouseTask.Underway (ours : String) (notes : List DialNote) (i : Nat) : HouseTask → Prop
  | dial dialled pc => pc.Underway ours dialled notes i
  | _ => True

/-! ## One dial -/

section

variable {ours dialled : String} {notes new : List DialNote} {i : Nat} {e : Endpoints}

/-- The setup and the request, where there are any, are among the packets. -/
theorem mem_setupPackets {setup request : Bytes} (hs : callSetup e.door e.room = .ok setup)
    (hr : callRequest e.door e.room = .ok request) :
    setup ∈ setupPackets e ∧ request ∈ setupPackets e := by
  unfold setupPackets
  rw [hs, hr]
  exact ⟨by simp [Except.toOption], by simp [Except.toOption]⟩

/-- Ids that fit can be encoded, and others cannot. -/
theorem encodes_of_nameable (hnames : Names ours dialled e) (h : Nameable ours dialled) :
    ∃ setup request, callSetup e.door e.room = .ok setup ∧
      callRequest e.door e.room = .ok request := by
  have hdoor : ∃ raw, e.door.pack = .ok raw := by
    refine ⟨_, if_neg (Nat.not_lt.mpr ?_)⟩
    rw [hnames.caller]
    exact h.1
  have hroom : ∃ raw, e.room.pack = .ok raw :=
    ⟨_, if_neg (Nat.not_lt.mpr (h.2 _ hnames.callee))⟩
  obtain ⟨door, hdoor⟩ := hdoor
  obtain ⟨room, hroom⟩ := hroom
  unfold callSetup callRequest
  rw [hdoor, hroom]
  exact ⟨_, _, rfl, rfl⟩

theorem refuses_of_not_nameable (hnames : Names ours dialled e) (h : ¬ Nameable ours dialled) :
    callSetup e.door e.room = .error .stationTooLong := by
  refine (refuses_of_long ?_).callSetup
  by_contra hshort
  rw [not_or, Nat.not_lt, Nat.not_lt, hnames.caller] at hshort
  refine h ⟨hshort.1, fun id hid => ?_⟩
  obtain rfl := Option.some.inj ((Option.mem_def.mp hid).symm.trans hnames.callee)
  exact hshort.2

theorem CallPlaced.append (h : CallPlaced notes i e) (new : List DialNote) :
    CallPlaced (notes ++ new) i e := by
  obtain ⟨setup, request, hs, hr, hsetup, hrequest⟩ := h
  exact ⟨setup, request, hs, hr, List.mem_append_left _ hsetup, List.mem_append_left _ hrequest⟩

theorem DialNote.Placed.append {n : DialNote} (h : n.Placed ours notes) (new : List DialNote) :
    n.Placed ours (notes ++ new) := by
  cases n with
  | handed => trivial
  | installed => exact ⟨h.1, h.2.append new⟩
  | told => exact ⟨h.1, h.2.append new⟩

theorem HouseTask.Underway.append {t : HouseTask} (h : t.Underway ours notes i)
    (new : List DialNote) : t.Underway ours (notes ++ new) i := by
  cases t with
  | dial dialled pc =>
      cases pc with
      | setup signal e packets =>
          exact ⟨h.1, fun packet hp => (h.2 packet hp).imp_right (List.mem_append_left _)⟩
      | install signal e => exact ⟨h.1, fun packet hp => List.mem_append_left _ (h.2 packet hp)⟩
      | publish signal e => exact List.mem_append_left _ h
      | _ => exact h
  | _ => trivial

theorem HouseTask.underway_of_fresh {t : HouseTask} (h : t.fresh = true) :
    t.Underway ours notes i := by
  unfold fresh at h
  split at h <;> trivial

/-- A step of a dial, with what it did written down. -/
theorem dialStep_underway {env : HouseEnv} {h h' : Household W} {pc pc' : DialPc}
    (hours : h.agent.peers.room.id = ours) (hu : pc.Underway ours dialled notes i)
    (hs : dialStep env h dialled pc = some (h', pc')) :
    pc'.Underway ours dialled (notes ++ (HouseTask.dial dialled pc).dialNotes i) i := by
  have hcases := dialStep_cases hs
  cases hcases with
  | @expanded id =>
      unfold dialStep at hs
      dsimp only at hs
      rw [hours] at hs
      split at hs
      · next hid =>
          cases hs
          exact hid
      · cases hs
  | @resolved id callee =>
      unfold dialStep at hs
      dsimp only at hs
      split at hs
      · cases hs
      · cases hs
        exact hu
  | connected => exact hu
  | identify => exact ⟨⟨hours, hu⟩, fun packet hp => .inl hp⟩
  | setup =>
      refine ⟨hu.1, fun packet hp => ?_⟩
      rcases hu.2 packet hp with hin | hin
      · rcases List.mem_cons.mp hin with rfl | hin
        · exact .inr (List.mem_append_right _ (List.mem_singleton.mpr rfl))
        · exact .inl hin
      · exact .inr (List.mem_append_left _ hin)
  | setUp =>
      refine ⟨hu.1, fun packet hp => List.mem_append_left _ ?_⟩
      exact (hu.2 packet hp).resolve_left List.not_mem_nil
  | install => exact List.mem_append_right _ (List.mem_singleton.mpr rfl)
  | _ => trivial

end

/-! ## One move -/

/-- All interleavings, with what the dials do. -/
def dialsNoted (mode : AgentMode) (W : Type) [Wire W] :
    System (HousePool W × List DialNote) HouseMove :=
  (houseProgram mode W).system.withHistory dialNotes

/-- Every dial is underway, and our own id is the one that the Agent was made with. -/
structure DialsUnderway (ours : String) (p : HousePool W) (notes : List DialNote) : Prop where
  own : p.shared.agent.peers.room.id = ours
  underway : ∀ i (t : HouseTask), p.threads[i]? = some t → t.Underway ours notes i

/-- A call was set that cannot have been placed. -/
def SomeUnplaced (notes : List DialNote) : Prop :=
  ∃ i dialled e, .installed i dialled e ∈ notes ∧
    callSetup e.door e.room = .error .stationTooLong

section

variable [Wire W] {mode : AgentMode} {ours : String} {p q : HousePool W} {m : HouseMove}
  {notes notes' : List DialNote} {i : Nat} {t : HouseTask}

/-- A move writes nothing, or is the step of a handler. -/
theorem dialsNoted_cases (hn : (dialsNoted mode W).next (p, notes) m = some (q, notes')) :
    ((∃ t, t.fresh = true ∧ q.threads = p.threads ++ [t]) ∨ q.threads = p.threads) ∧
        notes' = notes ∧ (∀ i env, m ≠ .step i env) ∨
      ∃ i env t h' t', m = .step i env ∧ p.threads[i]? = some t ∧
        t.step env p.shared = some (h', t') ∧ q = ⟨h', p.threads.set i t'⟩ ∧
        notes' = notes ++ t.dialNotes i := by
  obtain ⟨hq, hnotes⟩ := System.next_withHistory.mp hn
  dsimp only at hq hnotes
  rcases Program.next_cases hq with
    ⟨t, rfl, hmay, rfl⟩ | ⟨i, env, t, h', t', rfl, ht, hstep, rfl⟩ | ⟨l, rfl, rfl⟩
  · exact .inl ⟨.inl ⟨t, HouseTask.fresh_of_mayStart hmay, rfl⟩,
      hnotes.trans (List.append_nil notes), fun _ _ => nofun⟩
  · refine .inr ⟨i, env, t, h', t', rfl, ht, hstep, rfl, ?_⟩
    rw [hnotes]
    unfold dialNotes
    dsimp only
    rw [ht]
    rfl
  · exact .inl ⟨.inr rfl, hnotes.trans (List.append_nil notes), fun _ _ => nofun⟩

theorem HouseTask.Underway.step {env : HouseEnv} {h h' : Household W} {t' : HouseTask}
    (hu : t.Underway ours notes i) (hours : h.agent.peers.room.id = ours)
    (hs : t.step env h = some (h', t')) : t'.Underway ours (notes ++ t.dialNotes i) i := by
  cases t with
  | dial dialled pc =>
      obtain ⟨⟨h₁, pc'⟩, hd, heq⟩ := Option.map_eq_some_iff.mp hs
      obtain ⟨rfl, rfl⟩ := Prod.mk.inj heq
      exact dialStep_underway hours hu hd
  | _ =>
      obtain ⟨r, -, heq⟩ := Option.map_eq_some_iff.mp hs
      rw [← (Prod.mk.inj heq).2]
      trivial

theorem DialsUnderway.next (hp : DialsUnderway ours p notes)
    (hn : (dialsNoted mode W).next (p, notes) m = some (q, notes')) :
    DialsUnderway ours q notes' := by
  refine ⟨(next_kept (System.next_withHistory.mp hn).1).roomId.trans hp.own, ?_⟩
  rcases dialsNoted_cases hn with
    ⟨⟨t, hfresh, hthreads⟩ | hthreads, rfl, -⟩ | ⟨i, env, t, h', t', -, ht, hstep, rfl, rfl⟩
  · intro j u hu
    rw [hthreads, List.getElem?_append] at hu
    split at hu
    · exact hp.underway j u hu
    · obtain rfl := List.mem_singleton.mp (List.mem_of_getElem? hu)
      exact HouseTask.underway_of_fresh hfresh
  · intro j u hu
    rw [hthreads] at hu
    exact hp.underway j u hu
  · intro j u hu
    rcases getElem?_set_cases hu with ⟨rfl, rfl⟩ | ⟨-, hu⟩
    · exact (hp.underway j t ht).step hp.own hstep
    · exact (hp.underway j u hu).append _

/-- A step of a handler says only what was placed, if the call that it sets is one with ids
    that fit. -/
theorem AllPlaced.step (h : AllPlaced ours notes) (hu : t.Underway ours notes i)
    (hok : ∀ dialled ∈ t.installing, Nameable ours dialled) :
    AllPlaced ours (notes ++ t.dialNotes i) := by
  have hold : ∀ n ∈ notes, n.Placed ours (notes ++ t.dialNotes i) := fun n hn =>
    (h n hn).append _
  refine fun n hn => (List.mem_append.mp hn).elim (hold n) fun hnew => ?_
  unfold HouseTask.dialNotes at hnew
  split at hnew
  · rw [List.mem_singleton.mp hnew]
    trivial
  · next dialled signal e =>
      obtain ⟨hnames, hhanded⟩ := hu
      obtain ⟨setup, request, hs, hr⟩ := encodes_of_nameable hnames (hok dialled rfl)
      obtain ⟨hsetup, hrequest⟩ := mem_setupPackets hs hr
      rw [List.mem_singleton.mp hnew]
      exact ⟨hnames, CallPlaced.append
        ⟨setup, request, hs, hr, hhanded setup hsetup, hhanded request hrequest⟩ _⟩
  · next dialled signal e =>
      have hinstalled : (DialNote.installed i dialled e).Placed ours
          (notes ++ [.told i dialled e]) := hold _ hu
      rw [List.mem_singleton.mp hnew]
      exact hinstalled
  · cases hnew

theorem someUnplaced_of_installing {dialled : String} (hu : t.Underway ours notes i)
    (hin : t.installing = some dialled) (hlong : ¬ Nameable ours dialled) :
    SomeUnplaced (notes ++ t.dialNotes i) := by
  unfold HouseTask.installing at hin
  split at hin
  · next number signal e =>
      obtain rfl := Option.some.inj hin
      exact ⟨i, _, e, List.mem_append_right _ (List.mem_singleton.mpr rfl),
        refuses_of_not_nameable hu.1 hlong⟩
  · cases hin

omit [Wire W] in
theorem SomeUnplaced.not_allPlaced (h : SomeUnplaced notes) : ¬ AllPlaced ours notes := by
  obtain ⟨i, dialled, e, hin, hrefused⟩ := h
  intro hall
  obtain ⟨-, setup, request, hs, -⟩ := hall _ hin
  rw [hrefused] at hs
  cases hs

end

/-- A station id of 21 characters. -/
def longCallee : String := "S00000000000000000001"

/-- What a dial of it does. -/
def longCalleeNotes : List DialNote :=
  let e : Endpoints := ⟨⟨tapAgent.peers.room.id, .unspecified⟩, ⟨longCallee, ⟨192, 168, 124, 3⟩⟩⟩
  [.handed 0 (packet familyBootstrap opRequest 32 []), .installed 0 longCallee e,
    .told 0 longCallee e]

end Michoi
