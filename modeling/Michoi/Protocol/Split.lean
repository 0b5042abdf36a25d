/-
  Datagrams that hold several messages (`split_coalesced`).

  The loop of the source shortens its payload in each round, so as many rounds as there are
  bytes are enough (`splitLoop_enough`), and `splitCoalesced_eq` is the loop without the
  count.
-/
import Michoi.Protocol

namespace Michoi

/-- `logical_size`. -/
def logicalSize (data : Bytes) : Option Nat :=
  match Message.parse data with
  | .error _ => none
  | .ok m =>
      if m.isSessionLike = true ∧ m.opcode = opMedia ∧ 90 ≤ data.length then
        let mediaType := u16OfLe (data.getD 80 0) (data.getD 81 0)
        if mediaType = mediaJpeg then some 1290
        else if mediaType = mediaAudio then some 602
        else none
      else if 32 ≤ m.declared then some m.declared.toNat
      else if m.family = familySession ∧ m.opcode = opKeepalive then some 80
      else none

/-- Where the magic first stands. -/
def magicAt : Bytes → Option Nat
  | [] => none
  | b :: rest => if magic.isPrefixOf (b :: rest) then some 0 else (magicAt rest).map (· + 1)

/-- The size of the first message of a payload that starts with the magic: the one it
    declares, else up to the next magic. -/
def pieceSize (payload : Bytes) : Nat :=
  ((logicalSize payload).filter (· ≤ payload.length)).getD
    (((magicAt (payload.drop magic.length)).map (· + magic.length)).getD payload.length)

/-- The loop of `split_coalesced`. -/
def splitLoop : Nat → Bytes → List Bytes
  | 0, _ => []
  | rounds + 1, payload =>
      match magicAt payload with
      | none => []
      | some pos =>
          let payload := payload.drop pos
          let size := pieceSize payload
          if size = 0 then [] else payload.take size :: splitLoop rounds (payload.drop size)

/-- `split_coalesced`. -/
def splitCoalesced (payload : Bytes) : List Bytes := splitLoop payload.length payload

theorem splitLoop_agree {rounds rounds' : Nat} {payload : Bytes} (h : payload.length ≤ rounds)
    (h' : payload.length ≤ rounds') : splitLoop rounds payload = splitLoop rounds' payload := by
  induction rounds generalizing rounds' payload with
  | zero =>
      obtain rfl : payload = [] := List.eq_nil_of_length_eq_zero (Nat.le_zero.mp h)
      cases rounds' <;> rfl
  | succ rounds ih =>
      cases rounds' with
      | zero =>
          obtain rfl : payload = [] := List.eq_nil_of_length_eq_zero (Nat.le_zero.mp h')
          rfl
      | succ rounds' =>
          unfold splitLoop
          cases hm : magicAt payload with
          | none => rfl
          | some pos =>
              dsimp only
              split
              · rfl
              · next hsize =>
                  refine congrArg (List.cons _) (ih ?_ ?_)
                  all_goals
                    rw [List.length_drop, List.length_drop]
                    omega

/-- The payload's length is enough rounds. -/
theorem splitLoop_enough {rounds : Nat} {payload : Bytes} (h : payload.length ≤ rounds) :
    splitLoop rounds payload = splitCoalesced payload :=
  splitLoop_agree h (Nat.le_refl _)

/-- One round of the loop. -/
theorem splitCoalesced_eq (payload : Bytes) : splitCoalesced payload =
    match magicAt payload with
    | none => []
    | some pos =>
        if pieceSize (payload.drop pos) = 0 then []
        else (payload.drop pos).take (pieceSize (payload.drop pos)) ::
          splitCoalesced ((payload.drop pos).drop (pieceSize (payload.drop pos))) := by
  rw [← splitLoop_enough (Nat.le_succ payload.length)]
  unfold splitLoop
  cases magicAt payload with
  | none => rfl
  | some pos =>
      dsimp only
      split
      · rfl
      · refine congrArg (List.cons _) (splitLoop_enough ?_)
        rw [List.length_drop, List.length_drop]
        omega

/-! ## What a piece looks like -/

theorem magic_prefix_of_magicAt {payload : Bytes} {pos : Nat} (h : magicAt payload = some pos) :
    magic <+: payload.drop pos := by
  induction payload generalizing pos with
  | nil => cases h
  | cons b rest ih =>
      unfold magicAt at h
      split at h
      · next hp =>
          rw [← Option.some.inj h]
          exact List.isPrefixOf_iff_prefix.mp hp
      · obtain ⟨pos', hpos, rfl⟩ := Option.map_eq_some_iff.mp h
        exact ih hpos

theorem logicalSize_ge {data : Bytes} {size : Nat} (h : logicalSize data = some size) :
    32 ≤ size := by
  unfold logicalSize at h
  split at h
  · cases h
  · next m =>
      dsimp only at h
      split at h
      · split at h
        · exact Option.some.inj h ▸ by decide
        · split at h
          · exact Option.some.inj h ▸ by decide
          · cases h
      · split at h
        · next hd => exact Option.some.inj h ▸ hd
        · split at h
          · exact Option.some.inj h ▸ by decide
          · cases h

/-- The source's check for an empty piece never fires. -/
theorem pieceSize_ge {payload : Bytes} (h : magic <+: payload) :
    magic.length ≤ pieceSize payload := by
  unfold pieceSize
  cases hl : (logicalSize payload).filter (· ≤ payload.length) with
  | some size =>
      have hsize := logicalSize_ge (Option.filter_eq_some_iff.mp hl).1
      exact Nat.le_trans (by decide) hsize
  | none =>
      cases magicAt (payload.drop magic.length) with
      | none => exact h.length_le
      | some pos => exact Nat.le_add_left ..

end Michoi
