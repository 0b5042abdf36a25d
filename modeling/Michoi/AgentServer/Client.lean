/-
  What a client makes of a response: where its body begins, and the numbers in its head.
-/
import Michoi.AgentServer.Chunks
import Michoi.Lib.Messages

namespace Michoi

open Lib

/-! ## The body of a response -/

/-- The body of a response, once its head is there. -/
def bodyOf (got : Bytes) : Bytes :=
  match scan [cr, lf, cr, lf] got.length [] got with
  | .found _ body => body
  | .long | .ended => []

/-- The body is what came in after the head. -/
theorem bodyOf_prefix {head body got : Bytes} (hends : EndsFirst [cr, lf, cr, lf] head)
    (h : got <+: head ++ body) :
    bodyOf got <+: body ∧ (got = head ++ body → bodyOf got = body) := by
  by_cases hhead : head <+: got
  · obtain ⟨more, rfl⟩ := hhead
    have hne : head ≠ [] := by
      rintro rfl
      exact absurd hends.ends (by decide)
    have hbody : bodyOf (head ++ more) = more := by
      unfold bodyOf
      rw [scan_append hends hne, if_pos (by rw [List.length_append]; omega)]
    rw [hbody]
    exact ⟨(List.prefix_append_right_inj _).mp h, List.append_cancel_left⟩
  · have hpart : got <+: head :=
      (List.prefix_or_prefix_of_prefix h (List.prefix_append ..)).resolve_right hhead
    have hne : got ≠ head := fun heq => hhead (heq ▸ List.prefix_rfl)
    have hbody : bodyOf got = [] := by
      unfold bodyOf
      split
      · next hfound => exact absurd hfound (scan_part hends hpart hne)
      · rfl
      · rfl
    exact ⟨hbody ▸ List.nil_prefix, fun heq => absurd (heq ▸ List.prefix_append ..) hhead⟩

/-! ## Numbers in a head -/

/-- The number in the first line of a head that begins with a name. -/
def lineValue (name : Bytes) (lines : List Bytes) : Option Nat :=
  (lines.find? fun line => name.isPrefixOf line).bind fun line =>
    digitsValue 10 0 (lossyChars 0 (line.drop name.length))

def contentLength : Bytes := asBytes "Content-Length: "

/-- Digits are visible. -/
theorem visible_digits (n : Nat) : ∀ b ∈ asBytes (toString n), 0x21 ≤ b.toNat := by
  have hvisible : ∀ c ∈ (toString n).toList, 0x21 ≤ c.toNat ∧ c.toNat ≤ 0x7e := fun c hc =>
    isVisible_iff.mp (isVisible_of_toDigit (toDigit_of_digitsValue (digitsValue_toString n) c hc))
  intro b hb
  obtain ⟨c, hc, heq⟩ := exists_char_of_mem_asBytes
    (fun c hc => (hvisible c hc).2.trans_lt (by decide)) hb
  rw [heq]
  exact (hvisible c hc).1

theorem cr_not_mem_digits (n : Nat) : cr ∉ asBytes (toString n) := fun h =>
  absurd (visible_digits n cr h) (by decide)

theorem lineValue_digits {name : Bytes} {before after : List Bytes}
    (h : ∀ line ∈ before, name.isPrefixOf line = false) (n : Nat) :
    lineValue name (before ++ (name ++ asBytes (toString n)) :: after) = some n := by
  have hat : name.isPrefixOf (name ++ asBytes (toString n)) = true :=
    List.isPrefixOf_iff_prefix.mpr (List.prefix_append ..)
  have hbefore : before.find? (fun line => name.isPrefixOf line) = none :=
    List.find?_eq_none.mpr fun line hline => by rw [h line hline]; decide
  unfold lineValue
  rw [List.find?_append, hbefore, List.find?_cons_of_pos hat, Option.none_or, Option.bind_some,
    List.drop_left, lossyChars_asBytes, digitsValue_toString]

end Michoi
