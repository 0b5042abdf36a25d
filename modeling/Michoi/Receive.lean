/-
  No received datagram can crash the Agent: whatever the bytes, every function they go
  through on their way in returns (`no_datagram_panics`).
-/
import Michoi.Media
import Michoi.Pcap
import Michoi.Protocol.Checked

namespace Michoi

open Lib Lib.Checked

namespace JpegReassembler

/-- `JpegReassembler::push`, with a spinning `trim` as the only way to fail. -/
def pushChecked (r : JpegReassembler) (f : MediaFragment) :
    Checked (Option Bytes × JpegReassembler) :=
  match r.push f with
  | none => .error .spins
  | some result => .ok result

/-- The states that any fragments lead to. -/
inductive Reachable : JpegReassembler → Prop where
  | default : Reachable .default
  | push {r r' : JpegReassembler} {f : MediaFragment} {frame : Option Bytes} (h : Reachable r)
      (hpush : r.push f = some (frame, r')) : Reachable r'

theorem Reachable.consistent {r : JpegReassembler} (h : Reachable r) : r.Consistent := by
  induction h with
  | default => exact Lists.empty
  | @push r r' f frame _ hpush ih =>
      obtain ⟨_, r'', hp, hr''⟩ := push_isSome ih f
      rw [hpush] at hp
      cases hp
      exact hr''

theorem pushChecked_returns {r : JpegReassembler} (h : Reachable r) (f : MediaFragment) :
    Returns (r.pushChecked f) := by
  obtain ⟨frame, r', hp, -⟩ := push_isSome h.consistent f
  unfold pushChecked
  rw [hp]
  exact .ok trivial

end JpegReassembler

/-- The bytes may be a frame, a payload or a slice of one. -/
theorem no_datagram_panics (raw : Bytes) :
    Returns (EthernetUdp.parse raw) ∧ (∀ frame, Returns (decodeUdp frame raw)) ∧
      Returns (discoveryRequestRoom raw) ∧ Returns (discoveryReplyRoom raw) ∧
      Returns (splitCoalescedChecked raw) ∧ Returns (Message.parseChecked raw) ∧
      ∀ m, Message.parseChecked raw = .ok (.ok m) →
        Returns m.endpointsChecked ∧ Returns m.mediaChecked ∧
          ∀ f, m.mediaChecked = .ok (some f) →
            ∀ r, JpegReassembler.Reachable r → Returns (r.pushChecked f) := by
  refine ⟨EthernetUdp.parse_returns raw, fun frame => decodeUdp_returns frame raw,
    discoveryRoom_returns 1 raw, discoveryRoom_returns 2 raw, ?_, ?_, fun m _ => ⟨?_, ?_, ?_⟩⟩
  · exact ⟨_, splitCoalescedChecked_eq raw, trivial⟩
  · exact ⟨_, Message.parseChecked_eq raw, trivial⟩
  · exact ⟨_, Message.endpointsChecked_eq m, trivial⟩
  · exact ⟨_, Message.mediaChecked_eq m, trivial⟩
  · exact fun f _ r hr => JpegReassembler.pushChecked_returns hr f

end Michoi
