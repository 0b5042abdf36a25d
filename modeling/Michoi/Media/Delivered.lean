/-
  Fragmentation and reassembly are inverse, in any order of delivery.

  `Holding` is the invariant of every delivery: each entry of the reassembler has parts of one
  sent frame. `Collecting` follows one frame from its first packet on: its entry has all parts
  that came, and not more entries behind it in the queue than were created since, so that
  `trim` leaves it alone (`trimLoop_keeps`). `reassembly_inverts` puts both together.
-/
import Michoi.Media.Fragments

namespace Michoi

open Lib

/-! ## Deliveries -/

/-- Frames under pairwise distinct sequence numbers. -/
structure Sent (frames : List SentFrame) : Prop where
  distinct : (frames.map SentFrame.sequence).Nodup
  framed : ∀ s ∈ frames, JpegReassembler.framed s.jpeg = true
  numberable : ∀ s ∈ frames, s.Numberable

/-- The datagram is one of the packets of the frame. -/
def SentFrame.Has (s : SentFrame) (e : Endpoints) (raw : Bytes) : Prop :=
  ∃ packets, s.packets e = .ok packets ∧ raw ∈ packets

/-- Whatever is delivered is a packet of one of the frames: packets may be lost, come twice and
    come in any order. -/
def Delivers (frames : List SentFrame) (ends : SentFrame → Endpoints) (raws : List Bytes) :
    Prop := ∀ raw ∈ raws, ∃ s ∈ frames, s.Has (ends s) raw

namespace Reassembler

/-- The reassembler after the datagrams. -/
def received (r : Reassembler) (raws : List Bytes) : Reassembler :=
  raws.foldl (fun r raw => (r.receive raw).2) r

/-- The entries of other frames that are new. -/
def newEntries (own : UInt16) (r r' : Reassembler) : Nat :=
  (r'.1.frames.keys.filter fun k => k ∉ r.1.frames ∧ k ≠ own).length

/-- How many entries of other frames the datagrams create. -/
def created (own : UInt16) : Reassembler → List Bytes → Nat
  | _, [] => 0
  | r, raw :: raws =>
      newEntries own r (r.receive raw).2 + created own (r.receive raw).2 raws

end Reassembler

/-- No two of the frames have the same number. -/
def Distinct (frames : List SentFrame) : Prop := (frames.map SentFrame.sequence).Nodup

theorem Distinct.eq_of_sequence {frames : List SentFrame} (h : Distinct frames)
    {s s' : SentFrame} (hs : s ∈ frames) (hs' : s' ∈ frames)
    (heq : s.sequence = s'.sequence) : s = s' := List.inj_on_of_nodup_map h hs hs' heq

theorem Sent.eq_of_sequence {frames : List SentFrame} (h : Sent frames) {s s' : SentFrame}
    (hs : s ∈ frames) (hs' : s' ∈ frames) (heq : s.sequence = s'.sequence) : s = s' :=
  Distinct.eq_of_sequence h.distinct hs hs' heq

/-- A packet of a frame is read as one of its fragments. -/
theorem SentFrame.Has.receive {s : SentFrame} {e : Endpoints} {raw : Bytes} (h : s.Has e raw) :
    ∃ i, i < s.pieces ∧ ∀ r : Reassembler, r.receive raw = r.push (s.fragment i) := by
  obtain ⟨packets, hpackets, hmem⟩ := h
  obtain ⟨i, hi⟩ := List.mem_iff_getElem?.mp hmem
  obtain ⟨hlt, hread⟩ := (reads_packets hpackets).2 i raw hi
  exact ⟨i, hlt, hread.receive⟩

/-! ## Every frame that comes out was sent -/

/-- Each entry has parts of the frame with its sequence number. -/
def Holding (frames : List SentFrame) (r : Reassembler) : Prop :=
  ∀ sequence entry, r.1.frames.lookup sequence = some entry →
    ∃ s ∈ frames, s.sequence = sequence ∧ OfFrame s entry

section

variable {frames : List SentFrame} {r : Reassembler} {s : SentFrame} {i : Nat}

theorem Holding.default : Holding frames .default := by
  intro sequence entry hl
  cases hl

theorem Holding.besideOwn (h : Holding frames r) (hd : Distinct frames) (hs : s ∈ frames) :
    r.1.BesideOwn s i := by
  intro parts hl index data hindex hdata
  obtain ⟨s', hs', hseq, hof⟩ := h _ _ hl
  obtain rfl := hd.eq_of_sequence hs' hs hseq
  exact hof.parts index data hdata

theorem Holding.push (h : Holding frames r) (hd : Distinct frames) (hs : s ∈ frames)
    (hn : s.Numberable) (hi : i < s.pieces) : Holding frames (r.push (s.fragment i)).2 := by
  intro sequence entry hl
  have husable := SentFrame.usable_fragment hn hi
  rcases (r.pushed (s.fragment i)).lookup husable hl with ⟨rfl, rfl⟩ | ⟨-, hl⟩
  · exact ⟨s, hs, rfl, JpegReassembler.entryWith_ofFrame hi (h.besideOwn hd hs)⟩
  · exact h sequence entry hl

/-- What a fragment returns is the frame it is of. -/
theorem Holding.returned {jpeg : Bytes} (h : Holding frames r) (hd : Distinct frames)
    (hs : s ∈ frames) (hn : s.Numberable) (hi : i < s.pieces)
    (hret : (r.push (s.fragment i)).1 = some jpeg) : jpeg = s.jpeg := by
  have hpushed := r.pushed (s.fragment i)
  rw [hret] at hpushed
  exact hpushed.frame_eq hn hi (h.besideOwn hd hs)

theorem Holding.received {ends : SentFrame → Endpoints} {raws : List Bytes}
    (h : Holding frames r) (hsent : Sent frames) (hd : Delivers frames ends raws) :
    Holding frames (r.received raws) := by
  induction raws generalizing r with
  | nil => exact h
  | cons raw raws ih =>
      obtain ⟨s, hs, hhas⟩ := hd raw List.mem_cons_self
      obtain ⟨i, hi, hreceive⟩ := hhas.receive
      refine ih (r := (r.receive raw).2) ?_ fun raw' hraw' => hd raw' (List.mem_cons_of_mem _ hraw')
      rw [hreceive]
      exact h.push hsent.distinct hs (hsent.numberable s hs) hi

/-- **What is returned was sent**, under the sequence number of the packet that completes it. -/
theorem returned_of_sent {ends : SentFrame → Endpoints} {raw : Bytes} {jpeg : Bytes}
    (h : Holding frames r) (hsent : Sent frames) (hs : s ∈ frames) (hhas : s.Has (ends s) raw)
    (hret : (r.receive raw).1 = some jpeg) : jpeg = s.jpeg := by
  obtain ⟨i, hi, hreceive⟩ := hhas.receive
  rw [hreceive] at hret
  exact h.returned hsent.distinct hs (hsent.numberable s hs) hi hret

end

/-! ## A frame that is being collected -/

namespace JpegReassembler

/-- An entry with fewer than eight behind it survives the trim. -/
theorem trimLoop_keeps {frames : AList fun _ : UInt16 => UInt16 × Parts}
    {before after : List UInt16} {own : UInt16} {r' : JpegReassembler}
    (h : trimLoop frames (before ++ own :: after) = some r')
    (hl : Lists (before ++ own :: after) frames) (hfew : after.length < 8) :
    r'.frames.lookup own = frames.lookup own ∧ ∃ before', r'.order = before' ++ own :: after := by
  induction before generalizing frames with
  | nil =>
      have hlen : frames.keys.length ≤ 8 := by
        rw [← hl.length_eq]
        simp only [List.nil_append, List.length_cons]
        omega
      rw [List.nil_append, trimLoop_of_le hlen] at h
      obtain rfl := Option.some.inj h
      exact ⟨rfl, [], rfl⟩
  | cons old before ih =>
      rw [List.cons_append] at h hl
      unfold trimLoop at h
      split at h
      · obtain rfl := Option.some.inj h
        exact ⟨rfl, old :: before, rfl⟩
      · have hne : own ≠ old := by
          rintro rfl
          exact (List.nodup_cons.mp hl.nodup).1 (List.mem_append_right _ List.mem_cons_self)
        obtain ⟨hlookup, horder⟩ := ih h hl.erase_head
        rw [AList.lookup_erase_ne hne] at hlookup
        exact ⟨hlookup, horder⟩

end JpegReassembler

/-- The frame has an entry with these parts of it, and at most so many entries behind it. -/
structure Pending (s : SentFrame) (n : Nat) (parts : Parts) (r : JpegReassembler) : Prop where
  lookup : r.frames.lookup s.sequence = some (s.count, parts)
  ofFrame : OfFrame s (s.count, parts)
  behind : ∃ before after, r.order = before ++ s.sequence :: after ∧ after.length ≤ n

section

variable {s : SentFrame} {n : Nat} {parts : Parts} {r : Reassembler} {f : MediaFragment}

/-- A fragment of another frame leaves the parts, and adds at most the entries it creates. -/
theorem Pending.other (h : Pending s n parts r.1) (hne : f.sequence ≠ s.sequence)
    (hfew : n + Reassembler.newEntries s.sequence r (r.push f).2 < 8) :
    Pending s (n + Reassembler.newEntries s.sequence r (r.push f).2) parts (r.push f).2.1 := by
  obtain ⟨before, after, horder, hafter⟩ := h.behind
  have hlookup : (r.1.withPart f).frames.lookup s.sequence = some (s.count, parts) :=
    (AList.lookup_insert_ne hne.symm).trans h.lookup
  have hlists : Lists (r.1.withPart f).order (r.1.withPart f).frames :=
    JpegReassembler.withPart_consistent r.2 f
  have hpushed := r.pushed f
  have hconsistent := (r.push f).2.2
  revert hfew
  unfold Reassembler.newEntries
  generalize (r.push f).2.1 = r', (r.push f).1 = frame at hpushed hconsistent
  intro hfew
  cases hpushed with
  | ignored hu => exact ⟨h.lookup, h.ofFrame, before, after, horder, by omega⟩
  | kept hu hc htrim =>
      by_cases hk : f.sequence ∈ r.1.frames
      · have hsame : (r.1.withPart f).order = before ++ s.sequence :: after :=
          (if_pos hk).trans horder
        rw [hsame] at htrim hlists
        obtain ⟨hl, before', horder'⟩ :=
          JpegReassembler.trimLoop_keeps htrim hlists (by omega)
        exact ⟨hl.trans hlookup, h.ofFrame, before', after, horder', by omega⟩
      · have hnew : (r.1.withPart f).order = r.1.order ++ [f.sequence] := if_neg hk
        have hmem : f.sequence ∈ r'.order := by
          rw [hnew] at htrim hlists
          exact JpegReassembler.mem_order_of_trimLoop hlists htrim
        have hcounted : 0 < (r'.frames.keys.filter fun k =>
            k ∉ r.1.frames ∧ k ≠ s.sequence).length := by
          refine List.length_pos_of_mem (a := f.sequence) (List.mem_filter.mpr ⟨?_, ?_⟩)
          · exact (List.Perm.mem_iff hconsistent).mp hmem
          · exact decide_eq_true ⟨hk, hne⟩
        have hbehind : (r.1.withPart f).order =
            before ++ s.sequence :: (after ++ [f.sequence]) := by
          rw [hnew, horder, List.append_assoc, List.cons_append]
        rw [hbehind] at htrim hlists
        obtain ⟨hl, before', horder'⟩ := JpegReassembler.trimLoop_keeps htrim hlists
          (by rw [List.length_append, List.length_singleton]; omega)
        refine ⟨hl.trans hlookup, h.ofFrame, before', after ++ [f.sequence], horder', ?_⟩
        rw [List.length_append, List.length_singleton]
        omega
  | joined hu hc =>
      have hl : ((r.1.withPart f).remove f.sequence).frames.lookup s.sequence =
          some (s.count, parts) := (AList.lookup_erase_ne hne.symm).trans hlookup
      have horder' : ((r.1.withPart f).remove f.sequence).order =
          before.filter (· ≠ f.sequence) ++ s.sequence :: after.filter (· ≠ f.sequence) := by
        have hown : r.1.order.filter (· ≠ f.sequence) =
            before.filter (· ≠ f.sequence) ++ s.sequence :: after.filter (· ≠ f.sequence) := by
          rw [horder, List.filter_append,
            List.filter_cons_of_pos (p := fun x => x ≠ f.sequence) (decide_eq_true hne.symm)]
        refine .trans ?_ hown
        show (if f.sequence ∈ r.1.frames then r.1.order else r.1.order ++ [f.sequence]).filter
          (· ≠ f.sequence) = _
        split
        · rfl
        · rw [List.filter_append, List.filter_cons_of_neg (by simp), List.filter_nil,
            List.append_nil]
      refine ⟨hl, h.ofFrame, _, _, horder', ?_⟩
      have := List.length_filter_le (· ≠ f.sequence) after
      omega

/-- What is there of the frame: no entry and no parts, or an entry with these parts. -/
def Collected (s : SentFrame) (n : Nat) (parts : Parts) (r : JpegReassembler) : Prop :=
  s.sequence ∉ r.frames ∧ parts = ∅ ∨ Pending s n parts r

/-- One more of its own fragments goes into the frame's entry. -/
theorem Collected.entryWith {i : Nat} (h : Collected s n parts r.1) (hi : i < s.pieces) :
    r.1.entryWith (s.fragment i) = (s.count, parts.insert (UInt16.ofNat (i + 1)) (s.part i)) ∧
      OfFrame s (s.count, parts.insert (UInt16.ofNat (i + 1)) (s.part i)) := by
  constructor
  · rcases h with ⟨hnew, rfl⟩ | h
    · exact JpegReassembler.entryWith_of_new hnew
    · exact JpegReassembler.entryWith_of_holds h.lookup
  · refine OfFrame.insert (s.count, parts) rfl hi fun index data _ hl => ?_
    rcases h with ⟨-, rfl⟩ | h
    · cases hl
    · exact h.ofFrame.parts index data hl

theorem Collected.behind {i : Nat} (h : Collected s n parts r.1) : ∃ before after,
    (r.1.withPart (s.fragment i)).order = before ++ s.sequence :: after ∧
      after.length ≤ n := by
  rcases h with ⟨hnew, -⟩ | h
  · exact ⟨r.1.order, [], if_neg hnew, Nat.zero_le n⟩
  · obtain ⟨before, after, horder, hafter⟩ := h.behind
    have hl : r.1.frames.lookup (s.fragment i).sequence = some (s.count, parts) := h.lookup
    have hk : (s.fragment i).sequence ∈ r.1.frames :=
      AList.lookup_isSome.mp (by rw [hl]; rfl)
    exact ⟨before, after, (if_pos hk).trans horder, hafter⟩

/-- While another fragment is missing the entry stays. -/
theorem Collected.own {i m : Nat} (h : Collected s n parts r.1) (hs : s.Numberable)
    (hi : i < s.pieces) (hm : m < s.pieces) (hne : i ≠ m) (hfew : n < 8)
    (hmissing : UInt16.ofNat (m + 1) ∉ parts) :
    Pending s n (parts.insert (UInt16.ofNat (i + 1)) (s.part i))
      (r.push (s.fragment i)).2.1 := by
  obtain ⟨hentry, hof⟩ := h.entryWith hi
  obtain ⟨before, after, horder, hafter⟩ := h.behind (i := i)
  have hincomplete : JpegReassembler.complete (r.1.entryWith (s.fragment i)) ≠ true := by
    rw [hentry, ne_eq, hof.complete_iff hs (by omega)]
    intro hall
    rcases (AList.mem_insert _).mp (hall m hm) with heq | hmem
    · exact hne (SentFrame.index_inj hs hi hm heq.symm)
    · exact hmissing hmem
  have hlists : Lists (r.1.withPart (s.fragment i)).order (r.1.withPart (s.fragment i)).frames :=
    JpegReassembler.withPart_consistent r.2 _
  have hpushed := r.pushed (s.fragment i)
  generalize (r.push (s.fragment i)).2.1 = r', (r.push (s.fragment i)).1 = frame at hpushed
  cases hpushed with
  | ignored hu =>
      rw [SentFrame.usable_fragment hs hi] at hu
      cases hu
  | kept hu hc htrim =>
      rw [horder] at htrim hlists
      obtain ⟨hl, before', horder'⟩ := JpegReassembler.trimLoop_keeps htrim hlists (by omega)
      refine ⟨hl.trans ?_, hof, before', after, horder', hafter⟩
      exact (AList.lookup_insert _).trans (congrArg some hentry)
  | joined hu hc => exact absurd hc hincomplete

/-- **The last missing fragment returns the frame.** -/
theorem Collected.last {m : Nat} (h : Collected s n parts r.1) (hs : s.Numberable)
    (hframed : JpegReassembler.framed s.jpeg = true) (hm : m < s.pieces)
    (hall : ∀ i, i < s.pieces → i ≠ m → UInt16.ofNat (i + 1) ∈ parts) :
    (r.push (s.fragment m)).1 = some s.jpeg := by
  obtain ⟨hentry, hof⟩ := h.entryWith hm
  have hcomplete : JpegReassembler.complete (r.1.entryWith (s.fragment m)) = true := by
    rw [hentry, hof.complete_iff hs (by omega)]
    intro i hi
    rw [AList.mem_insert]
    by_cases him : i = m
    · exact .inl (by rw [him])
    · exact .inr (hall i hi him)
  have hpushed := r.pushed (s.fragment m)
  generalize (r.push (s.fragment m)).2.1 = r', (r.push (s.fragment m)).1 = frame at hpushed
  cases hpushed with
  | ignored hu =>
      rw [SentFrame.usable_fragment hs hm] at hu
      cases hu
  | kept hu hc htrim =>
      rw [hcomplete] at hc
      cases hc
  | joined hu hc =>
      rw [hentry] at hc ⊢
      rw [hof.join_of_complete hs hc, if_pos hframed]

theorem Collected.mono {n' : Nat} (h : Collected s n parts r.1) (hn : n ≤ n') :
    Collected s n' parts r.1 := by
  rcases h with h | ⟨hl, hof, before, after, horder, hafter⟩
  · exact .inl h
  · exact .inr ⟨hl, hof, before, after, horder, Nat.le_trans hafter hn⟩

/-- A fragment of another frame. -/
theorem Collected.other (h : Collected s n parts r.1) (hne : f.sequence ≠ s.sequence)
    (hfew : n + Reassembler.newEntries s.sequence r (r.push f).2 < 8) :
    Collected s (n + Reassembler.newEntries s.sequence r (r.push f).2) parts
      (r.push f).2.1 := by
  rcases h with ⟨hnew, hparts⟩ | h
  · exact .inl ⟨(r.pushed f).not_mem hne hnew, hparts⟩
  · exact .inr (h.other hne hfew)

end

/-! ## Whole deliveries -/

section

variable {frames : List SentFrame} {ends : SentFrame → Endpoints} {s : SentFrame}
  {packets : List Bytes}

/-- A delivered packet is one of the frame's, or a fragment of another frame. -/
theorem delivered_cases {raws : List Bytes} (hd : Delivers frames ends raws) (hsent : Sent frames)
    (hs : s ∈ frames) (hpackets : s.packets (ends s) = .ok packets) {raw : Bytes}
    (hraw : raw ∈ raws) : (∃ i : Nat, packets[i]? = some raw) ∨
      raw ∉ packets ∧ ∃ f : MediaFragment, f.sequence ≠ s.sequence ∧
        ∀ r : Reassembler, r.receive raw = r.push f := by
  by_cases hown : raw ∈ packets
  · exact .inl (List.mem_iff_getElem?.mp hown)
  · obtain ⟨s', hs', hhas⟩ := hd raw hraw
    obtain ⟨i, -, hreceive⟩ := hhas.receive
    refine .inr ⟨hown, s'.fragment i, fun heq => hown ?_, hreceive⟩
    obtain rfl := hsent.eq_of_sequence hs' hs heq
    obtain ⟨packets', hpackets', hmem⟩ := hhas
    obtain rfl : packets' = packets := Except.ok.inj (hpackets'.symm.trans hpackets)
    exact hmem

/-- Before its first packet a frame has no entry. -/
theorem not_mem_received {r : Reassembler} {raws : List Bytes} (h : s.sequence ∉ r.1.frames)
    (hd : Delivers frames ends raws) (hsent : Sent frames) (hs : s ∈ frames)
    (hpackets : s.packets (ends s) = .ok packets) (hnone : ∀ raw ∈ raws, raw ∉ packets) :
    s.sequence ∉ (r.received raws).1.frames := by
  induction raws generalizing r with
  | nil => exact h
  | cons raw raws ih =>
      refine ih (r := (r.receive raw).2) ?_
        (fun raw' hraw' => hd raw' (List.mem_cons_of_mem _ hraw'))
        fun raw' hraw' => hnone raw' (List.mem_cons_of_mem _ hraw')
      rcases delivered_cases hd hsent hs hpackets List.mem_cons_self with
        ⟨i, hi⟩ | ⟨-, f, hne, hreceive⟩
      · exact absurd (List.mem_of_getElem? hi) (hnone raw List.mem_cons_self)
      · rw [hreceive]
        exact (r.pushed f).not_mem hne h

/-- **All parts that came are there** while one is missing and fewer than eight entries of other
    frames were created. -/
theorem Collected.received {m n : Nat} {parts : Parts} {r : Reassembler} {raws : List Bytes}
    {last : Bytes} (h : Collected s n parts r.1) (hsent : Sent frames) (hs : s ∈ frames)
    (hpackets : s.packets (ends s) = .ok packets) (hm : packets[m]? = some last)
    (hd : Delivers frames ends raws) (hlast : last ∉ raws)
    (hmissing : UInt16.ofNat (m + 1) ∉ parts)
    (hfew : n + Reassembler.created s.sequence r raws < 8) :
    ∃ parts', Collected s (n + Reassembler.created s.sequence r raws) parts'
        (r.received raws).1 ∧ (∀ index ∈ parts, index ∈ parts') ∧
      ∀ (i : Nat) raw, packets[i]? = some raw → raw ∈ raws →
        UInt16.ofNat (i + 1) ∈ parts' := by
  have hreads := (reads_packets hpackets).2
  have hs' := hsent.numberable s hs
  induction raws generalizing n parts r with
  | nil => exact ⟨parts, h, fun _ h => h, by simp⟩
  | cons raw raws ih =>
      obtain ⟨hraw, hraws⟩ : raw ≠ last ∧ last ∉ raws := by simpa [eq_comm] using hlast
      have hrest : Delivers frames ends raws := fun raw' hraw' =>
        hd raw' (List.mem_cons_of_mem _ hraw')
      unfold Reassembler.created at hfew ⊢
      rw [← Nat.add_assoc] at hfew ⊢
      rcases delivered_cases hd hsent hs hpackets List.mem_cons_self with
        ⟨i, hi⟩ | ⟨hother, f, hne, hreceive⟩
      · obtain ⟨hlt, hread⟩ := hreads i raw hi
        have him : i ≠ m := by
          rintro rfl
          exact hraw (Option.some.inj (hi.symm.trans hm))
        have hmlt := (hreads m last hm).1
        have hstep : Collected s n (parts.insert (UInt16.ofNat (i + 1)) (s.part i))
            (r.receive raw).2.1 := by
          rw [hread.receive]
          exact .inr (h.own hs' hlt hmlt him (by omega) hmissing)
        have hstill : UInt16.ofNat (m + 1) ∉
            parts.insert (UInt16.ofNat (i + 1)) (s.part i) := by
          rw [AList.mem_insert, not_or]
          exact ⟨fun heq => him (SentFrame.index_inj hs' hmlt hlt heq).symm, hmissing⟩
        obtain ⟨parts', hparts', hkeep, hall⟩ :=
          ih (hstep.mono (Nat.le_add_right ..)) hrest hraws hstill hfew
        refine ⟨parts', hparts', fun index hindex => hkeep index
          ((AList.mem_insert _).mpr (.inr hindex)), fun j raw' hj hraw' => ?_⟩
        rcases List.mem_cons.mp hraw' with rfl | hraw'
        · obtain ⟨-, hread'⟩ := hreads j raw' hj
          have hindex : UInt16.ofNat (j + 1) = UInt16.ofNat (i + 1) :=
            congrArg MediaFragment.fragmentIndex (hread'.unique hread)
          exact hkeep _ ((AList.mem_insert _).mpr (.inl hindex))
        · exact hall j raw' hj hraw'
      · have hstep : Collected s (n + Reassembler.newEntries s.sequence r (r.receive raw).2) parts
            (r.receive raw).2.1 := by
          rw [hreceive] at hfew ⊢
          exact h.other hne (by omega)
        obtain ⟨parts', hparts', hkeep, hall⟩ := ih hstep hrest hraws hmissing hfew
        refine ⟨parts', hparts', hkeep, fun j raw' hj hraw' => ?_⟩
        rcases List.mem_cons.mp hraw' with rfl | hraw'
        · exact absurd (List.mem_of_getElem? hj) hother
        · exact hall j raw' hj hraw'

/-- The last datagram brings the last missing packet of the frame: the first packet came after
    `before`, and since then fewer than eight entries of other frames were created. -/
structure Completes (s : SentFrame) (packets before window : List Bytes) (last : Bytes) :
    Prop where
  first : ∀ raw ∈ before, raw ∉ packets
  isPacket : last ∈ packets
  missing : last ∉ window
  arrived : ∀ raw ∈ packets, raw = last ∨ raw ∈ window
  few : (Reassembler.default.received before).created s.sequence window < 8

theorem received_append (r : Reassembler) (raws raws' : List Bytes) :
    r.received (raws ++ raws') = (r.received raws).received raws' := List.foldl_append

theorem Completes.returned {before window : List Bytes} {last : Bytes}
    (h : Completes s packets before window last) (hsent : Sent frames) (hs : s ∈ frames)
    (hpackets : s.packets (ends s) = .ok packets)
    (hd : Delivers frames ends (before ++ window)) :
    ((Reassembler.default.received (before ++ window)).receive last).1 = some s.jpeg := by
  have hbefore : Delivers frames ends before := fun raw hraw =>
    hd raw (List.mem_append_left _ hraw)
  have hwindow : Delivers frames ends window := fun raw hraw =>
    hd raw (List.mem_append_right _ hraw)
  have hnone : s.sequence ∉ (Reassembler.default.received before).1.frames :=
    not_mem_received (AList.notMem_empty _) hbefore hsent hs hpackets h.first
  obtain ⟨m, hm⟩ := List.mem_iff_getElem?.mp h.isPacket
  obtain ⟨parts, hcollected, -, hall⟩ :=
    Collected.received (n := 0) (.inl ⟨hnone, rfl⟩) hsent hs hpackets hm hwindow h.missing
      (AList.notMem_empty _) (by rw [Nat.zero_add]; exact h.few)
  obtain ⟨hlen, hreads⟩ := reads_packets hpackets
  obtain ⟨hmlt, hread⟩ := hreads m last hm
  rw [received_append, hread.receive]
  refine hcollected.last (hsent.numberable s hs) (hsent.framed s hs) hmlt fun i hi him => ?_
  obtain ⟨raw, hraw⟩ : ∃ raw, packets[i]? = some raw :=
    ⟨packets[i], List.getElem?_eq_getElem (by omega)⟩
  rcases h.arrived raw (List.mem_of_getElem? hraw) with rfl | hcame
  · obtain ⟨hlt, hread'⟩ := hreads i raw hraw
    have hindex := congrArg MediaFragment.fragmentIndex (hread'.unique hread)
    exact absurd (SentFrame.index_inj (hsent.numberable s hs) hlt hmlt hindex) him
  · exact hall i raw hraw hcame

/-- **Fragmentation and reassembly are inverse in any order.** What comes out is a sent frame
    under its own number, and a frame comes out with its last missing packet. -/
theorem reassembly_inverts (hsent : Sent frames) {raws : List Bytes} {last : Bytes}
    (hd : Delivers frames ends (raws ++ [last])) :
    (∀ jpeg, ((Reassembler.default.received raws).receive last).1 = some jpeg →
      ∃ s ∈ frames, s.Has (ends s) last ∧ jpeg = s.jpeg) ∧
    ∀ s ∈ frames, ∀ packets, s.packets (ends s) = .ok packets → ∀ before window,
      raws = before ++ window → Completes s packets before window last →
      ((Reassembler.default.received raws).receive last).1 = some s.jpeg := by
  have hraws : Delivers frames ends raws := fun raw hraw => hd raw (List.mem_append_left _ hraw)
  constructor
  · intro jpeg hret
    obtain ⟨s, hs, hhas⟩ := hd last (List.mem_append_right _ (List.mem_singleton.mpr rfl))
    exact ⟨s, hs, hhas, returned_of_sent (Holding.default.received hsent hraws) hsent hs hhas hret⟩
  · rintro s hs packets hpackets before window rfl hcompletes
    exact hcompletes.returned hsent hs hpackets hraws

/-- Two pictures of two packets each. -/
def redFrame : SentFrame := ⟨7, [0xff, 0xd8] ++ List.replicate 1200 1 ++ [0xff, 0xd9]⟩
def greenFrame : SentFrame := ⟨65535, [0xff, 0xd8] ++ List.replicate 1204 2 ++ [0xff, 0xd9]⟩

/-- A packet of a picture. -/
def SentFrame.packetAt (s : SentFrame) (i : Nat) : Bytes :=
  ((s.packets .captured).toOption.getD []).getD i []

/-- The last packet of the first one comes first and twice, with a packet of the second one
    between, and then its first packet. -/
theorem last_packet_first :
    redFrame.packets .captured = .ok [redFrame.packetAt 0, redFrame.packetAt 1] ∧
      ((Reassembler.default.received
        [redFrame.packetAt 1, greenFrame.packetAt 0, redFrame.packetAt 1]).receive
          (redFrame.packetAt 0)).1 = some redFrame.jpeg := by
  have hpackets : redFrame.packets .captured =
      .ok [redFrame.packetAt 0, redFrame.packetAt 1] := by decide +kernel
  have hother : greenFrame.packets .captured =
      .ok [greenFrame.packetAt 0, greenFrame.packetAt 1] := by decide +kernel
  have hdelivers : Delivers [redFrame, greenFrame] (fun _ => .captured)
      ([redFrame.packetAt 1, greenFrame.packetAt 0, redFrame.packetAt 1] ++
        [redFrame.packetAt 0]) := by
    simp only [Delivers, List.cons_append, List.nil_append, List.forall_mem_cons]
    have hred (i : Nat) (hi : redFrame.packetAt i ∈ [redFrame.packetAt 0, redFrame.packetAt 1]) :
        ∃ s ∈ [redFrame, greenFrame], s.Has .captured (redFrame.packetAt i) :=
      ⟨redFrame, by simp, _, hpackets, hi⟩
    exact ⟨hred 1 (by simp), ⟨greenFrame, by simp, _, hother, by simp⟩, hred 1 (by simp),
      hred 0 (by simp), fun _ h => absurd h List.not_mem_nil⟩
  have hinverts := reassembly_inverts ⟨by decide, by decide +kernel, by decide +kernel⟩ hdelivers
  refine ⟨hpackets, hinverts.2 redFrame (by simp) _ hpackets [] _ rfl ⟨?_, ?_, ?_, ?_, ?_⟩⟩
  · simp
  · simp
  · decide +kernel
  · simp
  · decide +kernel

end

end Michoi
