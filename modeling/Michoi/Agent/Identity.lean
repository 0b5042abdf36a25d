/-
  Which endpoint blocks `accept_endpoints` accepts, and what it learns from them.

  `Peers.Accepts` says on the fields of a block what the branches of the source decide.
  `acceptEndpoints_of_accepts` and `acceptEndpoints_of_not_accepts` are the whole
  function: an accepted block is what the Agent then knows of both stations, a refused one
  may still have taught the Pad's address. `rejected_teaches_nothing_iff` says when it has
  not.
-/
import Michoi.Agent.Pinning

namespace Michoi

open Lib

theorem Ipv4Addr.eq_of_not_specified {ip ip' : Ipv4Addr} (h : ¬ ip.Specified)
    (h' : ¬ ip'.Specified) : ip = ip' := by
  unfold Specified isUnspecified at h h'
  simp only [Bool.not_eq_false, decide_eq_true_eq] at h h'
  rw [h, h']

instance (ip : Ipv4Addr) : Decidable ip.Specified :=
  inferInstanceAs (Decidable (ip.isUnspecified = false))

namespace Peers

/-! ## The two halves of a block -/

/-- The block's room is the Agent's: the id, and the address once it is known. -/
structure MatchesRoom (p : Peers) (room : Station) : Prop where
  id : room.id = p.room.id
  ip : Pinned Ipv4Addr.Specified p.room.ip room.ip

/-- The block's door agrees with what is known of the door. -/
structure MatchesDoor (p : Peers) (door : Station) : Prop where
  id : Pinned (· ≠ "") p.doorId door.id
  ip : Pinned Ipv4Addr.Specified p.doorIp door.ip

/-- A door was learned of which neither the id nor the address is known. -/
def BlankDoor (p : Peers) : Prop := ∃ d, p.door = some d ∧ d.id = "" ∧ ¬ d.ip.Specified

/-- `accept_endpoints` completes a known door by its id or by its address: a blank one
    takes a door that has only one of them, and no other. -/
structure AcceptsDoor (p : Peers) (door : Station) : Prop extends p.MatchesDoor door where
  blank : p.BlankDoor → door.id = "" ∨ ¬ door.ip.Specified

structure Accepts (p : Peers) (e : Endpoints) : Prop where
  room : p.MatchesRoom e.room
  door : p.AcceptsDoor e.door

/-- What is known after a block was accepted. -/
def withStations (p : Peers) (e : Endpoints) : Peers :=
  { p with room := e.room, door := some e.door }

/-- The block is from this household's room and tells an address that was not known. -/
def TeachesRoom (p : Peers) (room : Station) : Prop :=
  room.id = p.room.id ∧ ¬ p.room.ip.Specified ∧ room.ip.Specified

instance (p : Peers) (room : Station) : Decidable (p.TeachesRoom room) :=
  inferInstanceAs (Decidable (_ ∧ _))

theorem acceptRoom_of_matches {p : Peers} {room : Station} (h : p.MatchesRoom room) :
    p.acceptRoom room = some { p with room } := by
  have hset : ∀ s : Station, s = room → some { p with room := s } = some { p with room } :=
    fun s hs => hs ▸ rfl
  unfold acceptRoom
  rw [if_neg (not_not_intro h.id)]
  by_cases hp : p.room.ip.Specified
  · have hip : room.ip = p.room.ip := h.ip hp
    rw [if_neg (by rw [hp]; decide), if_neg (not_not_intro hip.symm)]
    exact hset p.room (congrArg₂ Station.mk h.id hip).symm
  · rw [if_pos ((Bool.not_eq_false _).mp hp)]
    by_cases hr : room.ip.Specified
    · rw [if_pos (by rw [hr]; rfl)]
      exact hset _ (congrArg₂ Station.mk h.id rfl).symm
    · rw [if_neg (by rw [(Bool.not_eq_false _).mp hr]; decide)]
      exact hset _ (congrArg₂ Station.mk h.id (Ipv4Addr.eq_of_not_specified hr hp)).symm

theorem acceptRoom_of_not_matches {p : Peers} {room : Station} (h : ¬ p.MatchesRoom room) :
    p.acceptRoom room = none := by
  unfold acceptRoom
  split
  · rfl
  · next hid =>
      have hid' : room.id = p.room.id := not_not.mp hid
      split
      · next hun =>
          exact absurd ⟨hid', .of_unknown (Ipv4Addr.not_specified hun)⟩ h
      · split
        · rfl
        · next hip => exact absurd ⟨hid', .of_eq (not_not.mp hip).symm⟩ h

/-- What `accept_endpoints` has written when it comes to the door. -/
theorem acceptRoom_peers {p q : Peers} {room : Station} (h : p.acceptRoom room = some q) :
    q = if p.TeachesRoom room then { p with room := { p.room with ip := room.ip } } else p := by
  unfold acceptRoom at h
  split at h
  · cases h
  · next hid =>
      have hid' : room.id = p.room.id := not_not.mp hid
      split at h
      · next hun =>
          split at h
          · next hr =>
              have hspec : room.ip.isUnspecified = false :=
                (Bool.not_eq_true _).mp fun h => by rw [h] at hr; cases hr
              rw [if_pos ⟨hid', Ipv4Addr.not_specified hun, hspec⟩]
              exact (Option.some.inj h).symm
          · next hr =>
              rw [if_neg fun ht => hr (by rw [ht.2.2]; rfl)]
              exact (Option.some.inj h).symm
      · next hun =>
          rw [if_neg fun ht => ht.2.1 ((Bool.not_eq_true _).mp hun)]
          split at h
          · cases h
          · exact (Option.some.inj h).symm

section

variable {p : Peers} {door d : Station}

/-- What `AcceptsDoor` says where a door is known. -/
theorem acceptsDoor_iff (hd : p.door = some d) : p.AcceptsDoor door ↔
    (d.id ≠ "" → door.id = d.id) ∧ (d.ip.Specified → door.ip = d.ip) ∧
      (d.id = "" → ¬ d.ip.Specified → door.id = "" ∨ ¬ door.ip.Specified) := by
  have hid : p.doorId = d.id := by rw [doorId, hd]; rfl
  have hip : p.doorIp = d.ip := by rw [doorIp, hd]; rfl
  constructor
  · rintro ⟨⟨h, h'⟩, hblank⟩
    rw [hid] at h
    rw [hip] at h'
    exact ⟨h, h', fun he hs => hblank ⟨d, hd, he, hs⟩⟩
  · rintro ⟨h, h', hblank⟩
    rw [← hid] at h
    rw [← hip] at h'
    refine ⟨⟨h, h'⟩, ?_⟩
    rintro ⟨d', hd', he, hs⟩
    obtain rfl : d = d' := Option.some.inj (hd.symm.trans hd')
    exact hblank he hs

theorem acceptDoor_of_accepts (h : p.AcceptsDoor door) :
    acceptDoor p.door door = some door := by
  unfold acceptDoor
  split
  · rfl
  · next d hd =>
      obtain ⟨hid, hip, hblank⟩ := (acceptsDoor_iff hd).mp h
      have hdoor : ∀ s : Station, s.id = door.id → s.ip = door.ip → some s = some door :=
        fun s h h' => congrArg some (congrArg₂ Station.mk h h')
      simp only [Bool.and_eq_true, decide_eq_true_eq]
      split
      · next h1 => exact hdoor _ rfl h1.2
      · next h1 =>
          split
          · next h2 => exact hdoor _ h2.1 rfl
          · next h2 =>
              split
              · next h3 => exact hdoor d h3.1 h3.2
              · next h3 =>
                  exfalso
                  by_cases he : d.id = ""
                  · by_cases hs : d.ip.Specified
                    · exact h1 ⟨he, (hip hs).symm⟩
                    · rcases hblank he hs with h | h
                      · exact h2 ⟨he.trans h.symm, (Bool.not_eq_false _).mp hs⟩
                      · exact h1 ⟨he, Ipv4Addr.eq_of_not_specified hs h⟩
                  · by_cases hs : d.ip.Specified
                    · exact h3 ⟨(hid he).symm, (hip hs).symm⟩
                    · exact h2 ⟨(hid he).symm, (Bool.not_eq_false _).mp hs⟩

theorem accepts_of_acceptDoor (h : (acceptDoor p.door door).isSome = true) :
    p.AcceptsDoor door := by
  cases hd : p.door with
  | none =>
      refine ⟨⟨.of_unknown ?_, .of_unknown ?_⟩, ?_⟩
      · rw [doorId, hd]
        exact fun hne => hne rfl
      · rw [doorIp, hd]
        exact Ipv4Addr.not_specified rfl
      · rintro ⟨d, hd', -⟩
        rw [hd] at hd'
        cases hd'
  | some d =>
      rw [acceptsDoor_iff hd]
      unfold acceptDoor at h
      rw [hd] at h
      simp only [Bool.and_eq_true, decide_eq_true_eq] at h
      split at h
      · next h1 =>
          exact ⟨fun he => absurd h1.1 he, fun _ => h1.2.symm, fun _ hs => .inr (h1.2 ▸ hs)⟩
      · split at h
        · next h2 =>
            exact ⟨fun _ => h2.1.symm, fun hs => absurd hs (Ipv4Addr.not_specified h2.2),
              fun he _ => .inl (h2.1 ▸ he)⟩
        · split at h
          · next h3 =>
              exact ⟨fun _ => h3.1.symm, fun _ => h3.2.symm, fun he _ => .inl (h3.1 ▸ he)⟩
          · cases h

end

/-! ## The whole block -/

/-- **An accepted block** is what is known of both stations afterwards. -/
theorem acceptEndpoints_of_accepts {p : Peers} {e : Endpoints} (h : p.Accepts e) :
    p.acceptEndpoints e = (some (p.withStations e), p.withStations e) := by
  unfold acceptEndpoints
  rw [acceptRoom_of_matches h.room]
  dsimp only
  rw [acceptDoor_of_accepts h.door]
  rfl

/-- **A refused block** leaves the peers as they were, but for the Pad's address. -/
theorem acceptEndpoints_of_not_accepts {p : Peers} {e : Endpoints} (h : ¬ p.Accepts e) :
    p.acceptEndpoints e = (none,
      if p.TeachesRoom e.room then { p with room := { p.room with ip := e.room.ip } }
      else p) := by
  unfold acceptEndpoints
  by_cases hroom : p.MatchesRoom e.room
  · cases hr : p.acceptRoom e.room with
    | none => rw [acceptRoom_of_matches hroom] at hr; cases hr
    | some q =>
        have hq : q.door = p.door := by
          rw [acceptRoom_peers hr]
          split <;> rfl
        cases hd : acceptDoor q.door e.door with
        | none => simp only [hd]; rw [acceptRoom_peers hr]
        | some d =>
            rw [hq] at hd
            exact absurd ⟨hroom, accepts_of_acceptDoor (by rw [hd]; rfl)⟩ h
  · rw [acceptRoom_of_not_matches hroom, if_neg fun ht => hroom ⟨ht.1, .of_unknown ht.2.1⟩]

theorem accepts_iff {p : Peers} {e : Endpoints} :
    (p.acceptEndpoints e).1.isSome = true ↔ p.Accepts e := by
  by_cases h : p.Accepts e
  · rw [acceptEndpoints_of_accepts h]
    exact iff_of_true rfl h
  · rw [acceptEndpoints_of_not_accepts h]
    exact iff_of_false nofun h

instance (p : Peers) (e : Endpoints) : Decidable (p.Accepts e) :=
  decidable_of_iff _ accepts_iff

theorem withStations_of_teaches {p : Peers} {room : Station} (h : p.TeachesRoom room) :
    { p with room := { p.room with ip := room.ip } } ≠ p := by
  intro heq
  have hip : room.ip = p.room.ip := congrArg (fun q => q.room.ip) heq
  exact h.2.1 (hip ▸ h.2.2)

/-- **When a refused block teaches nothing.** `accept_endpoints` writes the Pad's address
    before it looks at the door, so a block from the Agent's room that is refused for its
    door pins the address when none was known. In every other case a refused block leaves
    the peers exactly as they were. -/
theorem rejected_teaches_nothing_iff (p : Peers) (e : Endpoints) :
    ((p.acceptEndpoints e).1 = none → (p.acceptEndpoints e).2 = p) ↔
      p.AcceptsDoor e.door ∨ e.room.id ≠ p.room.id ∨ p.room.ip.Specified ∨
        ¬ e.room.ip.Specified := by
  by_cases h : p.Accepts e
  · refine iff_of_true (fun hnone => ?_) (.inl h.door)
    rw [acceptEndpoints_of_accepts h] at hnone
    cases hnone
  · rw [acceptEndpoints_of_not_accepts h]
    by_cases ht : p.TeachesRoom e.room
    · rw [if_pos ht]
      refine iff_of_false (fun hsame => withStations_of_teaches ht (hsame rfl)) ?_
      rintro (hdoor | hid | hip | hip)
      · exact h ⟨⟨ht.1, .of_unknown ht.2.1⟩, hdoor⟩
      · exact hid ht.1
      · exact ht.2.1 hip
      · exact hip ht.2.2
    · rw [if_neg ht]
      refine iff_of_true (fun _ => rfl) (.inr ?_)
      by_cases hid : e.room.id = p.room.id
      · by_cases hip : p.room.ip.Specified
        · exact .inr (.inl hip)
        · exact .inr (.inr fun hr => ht ⟨hid, hip, hr⟩)
      · exact .inl hid

/-- A ring for our room from a door that is not the pinned one, with the Pad's address not
    known yet: it is refused, and its address is pinned all the same. -/
theorem rejected_block_teaches :
    ¬ ∀ (p : Peers) (e : Endpoints),
      (p.acceptEndpoints e).1 = none → (p.acceptEndpoints e).2 = p := by
  intro h
  have := h
    ⟨⟨"S00000000000", .unspecified⟩, some Endpoints.captured.door, none, none, 10000⟩
    ⟨⟨"M00000000009", ⟨9, 9, 9, 9⟩⟩, ⟨"S00000000000", ⟨1, 2, 3, 4⟩⟩⟩ (by decide)
  exact absurd this (by decide)

end Peers

end Michoi
