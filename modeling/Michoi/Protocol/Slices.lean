/-
  What `split_coalesced` makes of arbitrary bytes.

  It comes to its end, and its pieces are slices of the payload in order. Each is a `Piece`:
  it starts with the magic and either has its logical size, or that size is unknown or does
  not fit and the piece ends where the next magic stands. Every magic of the payload starts
  a piece or lies in one (`exists_pieces`).
-/
import Michoi.Protocol.Checked

namespace Michoi

/-! ## Where the magic stands -/

theorem not_magic_of_magicAt_none {payload : Bytes} (h : magicAt payload = none) (i : Nat) :
    ¬ magic <+: payload.drop i := by
  induction payload generalizing i with
  | nil =>
      intro hi
      have hlen := hi.length_le
      rw [List.drop_nil] at hlen
      exact absurd hlen (by decide)
  | cons b rest ih =>
      unfold magicAt at h
      split at h
      · cases h
      · next hb =>
          have hrest : magicAt rest = none := Option.map_eq_none_iff.mp h
          cases i with
          | zero => exact fun hi => hb (List.isPrefixOf_iff_prefix.mpr hi)
          | succ i => exact ih hrest i

theorem not_magic_of_lt_magicAt {payload : Bytes} {pos i : Nat} (h : magicAt payload = some pos)
    (hi : i < pos) : ¬ magic <+: payload.drop i := by
  induction payload generalizing pos i with
  | nil => cases h
  | cons b rest ih =>
      unfold magicAt at h
      split at h
      · have := Option.some.inj h
        omega
      · next hb =>
          obtain ⟨pos', hpos, rfl⟩ := Option.map_eq_some_iff.mp h
          cases i with
          | zero => exact fun hm => hb (List.isPrefixOf_iff_prefix.mpr hm)
          | succ i => exact ih hpos (Nat.lt_of_succ_lt_succ hi)

/-- The magic does not overlap itself: only its first byte is a `P`. -/
theorem not_magic_inside {payload : Bytes} (h : magic <+: payload) {i : Nat} (hi : 0 < i)
    (hlt : i < magic.length) : ¬ magic <+: payload.drop i := by
  intro hm
  have hfirst : payload[i]? = some 0x50 := by
    obtain ⟨rest, hrest⟩ := hm
    have : (payload.drop i)[0]? = payload[i + 0]? := List.getElem?_drop
    rw [← hrest, Nat.add_zero] at this
    exact this.symm
  have hinner : payload[i]? = magic[i]? := by
    obtain ⟨rest, rfl⟩ := h
    exact List.getElem?_append_left hlt
  have hnot : ∀ j < 8, 0 < j → magic[j]? ≠ some 0x50 := by decide
  exact hnot i hlt hi (hinner.symm.trans hfirst)

/-! ## Pieces -/

/-- The size goes up to the next magic after the one at the start, or to the end. -/
structure UpToMagic (payload : Bytes) (size : Nat) : Prop where
  stops : size = payload.length ∨ magic <+: payload.drop size
  next : ∀ i, 0 < i → i < size → ¬ magic <+: payload.drop i

/-- A slice of the payload as `split_coalesced` cuts it. -/
structure Piece (payload : Bytes) where
  start : Nat
  size : Nat
  fits : start + size ≤ payload.length
  long : magic.length ≤ size
  magic : magic <+: (payload.drop start).take size
  sized : logicalSize (payload.drop start) = some size ∨
    (∀ n, logicalSize (payload.drop start) = some n → payload.length < start + n) ∧
      UpToMagic (payload.drop start) size

def Piece.bytes {payload : Bytes} (p : Piece payload) : Bytes :=
  (payload.drop p.start).take p.size

theorem upToMagic_of_magicAt_none {payload : Bytes} (h : magic <+: payload)
    (hm : magicAt (payload.drop magic.length) = none) : UpToMagic payload payload.length := by
  refine ⟨.inl rfl, fun i hi _ => ?_⟩
  by_cases hlt : i < magic.length
  · exact not_magic_inside h hi hlt
  · have hnone := not_magic_of_magicAt_none hm (i - magic.length)
    rw [List.drop_drop, Nat.add_sub_cancel' (Nat.not_lt.mp hlt)] at hnone
    exact hnone

theorem upToMagic_of_magicAt {payload : Bytes} (h : magic <+: payload) {pos : Nat}
    (hm : magicAt (payload.drop magic.length) = some pos) :
    UpToMagic payload (pos + magic.length) := by
  have hat := magic_prefix_of_magicAt hm
  rw [List.drop_drop, Nat.add_comm] at hat
  refine ⟨.inr hat, fun i hi hlt => ?_⟩
  by_cases hin : i < magic.length
  · exact not_magic_inside h hi hin
  · have hbefore := not_magic_of_lt_magicAt hm (i := i - magic.length) (by omega)
    rw [List.drop_drop, Nat.add_sub_cancel' (Nat.not_lt.mp hin)] at hbefore
    exact hbefore

/-- A piece has its logical size, or goes up to the next magic. -/
theorem pieceSize_cases {payload : Bytes} (h : magic <+: payload) :
    logicalSize payload = some (pieceSize payload) ∨
      (∀ n, logicalSize payload = some n → payload.length < n) ∧
        UpToMagic payload (pieceSize payload) := by
  unfold pieceSize
  cases hf : (logicalSize payload).filter (· ≤ payload.length) with
  | some size => exact .inl (Option.filter_eq_some_iff.mp hf).1
  | none =>
      refine .inr ⟨fun n hn => ?_, ?_⟩
      · rw [hn] at hf
        have := Option.filter_eq_none_iff.mp hf n rfl
        simpa using this
      · cases hm : magicAt (payload.drop magic.length) with
        | none => exact upToMagic_of_magicAt_none h hm
        | some pos => exact upToMagic_of_magicAt h hm

/-- The piece at a magic of the payload. -/
def Piece.at (payload : Bytes) (start : Nat) (h : Michoi.magic <+: payload.drop start) :
    Piece payload where
  start := start
  size := pieceSize (payload.drop start)
  fits := by
    have hle := pieceSize_le h
    have hlen := h.length_le
    have hmagic : Michoi.magic.length = 8 := rfl
    rw [List.length_drop] at hle hlen
    omega
  long := pieceSize_ge h
  magic := List.prefix_take_iff.mpr ⟨h, pieceSize_ge h⟩
  sized := by
    obtain hsize | ⟨hlong, hup⟩ := pieceSize_cases h
    · exact .inl hsize
    · refine .inr ⟨fun n hn => ?_, hup⟩
      have := hlong n hn
      rw [List.length_drop] at this
      omega

/-- The pieces from some place on: in order, and no magic from there on is outside them. -/
theorem exists_pieces_from (payload : Bytes) (start : Nat) : ∃ pieces : List (Piece payload),
    splitCoalesced (payload.drop start) = pieces.map Piece.bytes ∧
      pieces.Pairwise (fun p q => p.start + p.size ≤ q.start) ∧
      (∀ p ∈ pieces, start ≤ p.start) ∧
      ∀ i, start ≤ i → magic <+: payload.drop i →
        ∃ p ∈ pieces, p.start ≤ i ∧ i < p.start + p.size := by
  -- The rest of the payload gets shorter with each piece.
  induction hn : payload.length - start using Nat.strongRecOn generalizing start with
  | _ n ih =>
      rw [splitCoalesced_eq]
      cases hm : magicAt (payload.drop start) with
      | none =>
          refine ⟨[], rfl, .nil, fun _ hp => absurd hp List.not_mem_nil, fun i hi hmi => ?_⟩
          have hnone := not_magic_of_magicAt_none hm (i - start)
          rw [List.drop_drop, Nat.add_sub_cancel' hi] at hnone
          exact absurd hmi hnone
      | some pos =>
          have hat := magic_prefix_of_magicAt hm
          rw [List.drop_drop] at hat
          have hge := pieceSize_ge hat
          have hmagic : magic.length = 8 := rfl
          have hlen := hat.length_le
          rw [List.length_drop] at hlen
          obtain ⟨pieces, hsplit, hpair, hfrom, hall⟩ :=
            ih (payload.length - (start + pos + pieceSize (payload.drop (start + pos))))
              (by omega) _ rfl
          refine ⟨Piece.at payload (start + pos) hat :: pieces, ?_, ?_, ?_, ?_⟩
          · dsimp only
            rw [List.drop_drop, if_neg (by omega), List.drop_drop, hsplit]
            rfl
          · exact List.pairwise_cons.mpr ⟨hfrom, hpair⟩
          · intro p hp
            obtain rfl | hp := List.mem_cons.mp hp
            · exact Nat.le_add_right ..
            · have := hfrom p hp
              omega
          · intro i hi hmi
            by_cases hbefore : i < start + pos
            · have hno := not_magic_of_lt_magicAt hm (i := i - start) (by omega)
              rw [List.drop_drop, Nat.add_sub_cancel' hi] at hno
              exact absurd hmi hno
            by_cases hin : i < start + pos + pieceSize (payload.drop (start + pos))
            · exact ⟨_, List.mem_cons_self, Nat.not_lt.mp hbefore, hin⟩
            · obtain ⟨p, hp, hip⟩ := hall i (Nat.not_lt.mp hin) hmi
              exact ⟨p, List.mem_cons_of_mem _ hp, hip⟩

/-- Splitting arbitrary bytes loses no message start. -/
theorem exists_pieces (payload : Bytes) : ∃ pieces : List (Piece payload),
    splitCoalescedChecked payload = .ok (pieces.map Piece.bytes) ∧
      pieces.Pairwise (fun p q => p.start + p.size ≤ q.start) ∧
      ∀ i, magic <+: payload.drop i → ∃ p ∈ pieces, p.start ≤ i ∧ i < p.start + p.size := by
  obtain ⟨pieces, hsplit, hpair, -, hall⟩ := exists_pieces_from payload 0
  rw [List.drop_zero] at hsplit
  refine ⟨pieces, ?_, hpair, fun i hi => hall i (Nat.zero_le _) hi⟩
  rw [splitCoalescedChecked_eq, hsplit]

end Michoi
