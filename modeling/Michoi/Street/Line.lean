/-
  A call between a door and a Pad, without its datagrams: what the two of them tell each other
  about the call, and what each of them knows.

  What the door says reaches the Pad in order, and what the Pad says reaches the door in any
  order, perhaps twice; none of it is lost. `Agreed` is what then holds at any time, and
  `agreed_of_silent` what is left of it when nothing is under way: they agree on the call.
-/
import Mathlib.Algebra.Order.Group.Multiset
import Michoi.State

namespace Michoi

/-- What the two sides tell each other about the call. -/
inductive Word where
  | ring | answer | bye
  deriving DecidableEq, Repr

inductive DoorStage where
  | before
  /-- The door has rung and has not said goodbye. -/
  | calling
  /-- The door has said goodbye. -/
  | left
  /-- The door is gone without a goodbye. -/
  | gone
  deriving DecidableEq, Repr

@[ext]
structure CallLine where
  stage : DoorStage
  /-- On its way to the Pad, oldest first. -/
  inbox : List Word
  /-- On its way to the door. -/
  outbox : Multiset Word
  /-- The call as the Pad has it. -/
  phase : CallPhase
  /-- What the door has heard. -/
  answered : Bool
  stop : Bool

namespace CallLine

/-- What a word of the door makes of the call. -/
def after (phase : CallPhase) : Word → CallPhase
  | .ring => if phase = .idle then .ringing else phase
  | .answer => phase
  | .bye => .idle

/-- One step of the door, of the Pad, or of the network between them. -/
inductive Step (l : CallLine) : CallLine → Prop where
  | ring (h : l.stage = .before ∨ l.stage = .calling) :
      Step l { l with stage := .calling, inbox := l.inbox ++ [.ring] }
  | leave (h : l.stage = .calling) : Step l { l with stage := .left, inbox := l.inbox ++ [.bye] }
  | fail : Step l { l with stage := .gone }
  | take {w rest} (h : l.inbox = w :: rest) :
      Step l { l with inbox := rest, phase := after l.phase w }
  | claim (h : l.phase = .ringing) :
      Step l { l with phase := .connected, outbox := .answer ::ₘ l.outbox }
  | hangUp (h : l.phase ≠ .idle) : Step l { l with phase := .idle, outbox := .bye ::ₘ l.outbox }
  | hear {w rest} (h : l.outbox = w ::ₘ rest) :
      Step l { l with
        outbox := rest
        answered := l.answered || w == .answer
        stop := l.stop || w == .bye }
  /-- A door that has left does not listen. -/
  | miss {w rest} (h : l.outbox = w ::ₘ rest) (hleft : l.stage = .left) :
      Step l { l with outbox := rest }
  | double {w} (h : w ∈ l.outbox) : Step l { l with outbox := w ::ₘ l.outbox }

/-- What holds of a call at any time, whatever is under way. -/
structure Agreed (l : CallLine) : Prop where
  settled : l.phase ≠ .ending
  before : l.stage = .before →
    l.inbox = [] ∧ l.outbox = 0 ∧ l.phase = .idle ∧ l.answered = false ∧ l.stop = false
  /-- As long as nobody hangs up, the Pad has the call once a ring has come, and the door has
      heard that it is answered, or will hear it. -/
  calling : l.stage = .calling → l.stop = false → .bye ∉ l.outbox →
    .bye ∉ l.inbox ∧ (l.phase = .idle → .ring ∈ l.inbox) ∧
      (l.phase = .connected ↔ l.answered = true ∨ .answer ∈ l.outbox)
  /-- The goodbye is the last that comes. -/
  left : l.stage = .left → (∃ rest, l.inbox = rest ++ [.bye]) ∨ l.inbox = [] ∧ l.phase = .idle

variable {l l' : CallLine}

theorem after_ne_ending {phase : CallPhase} (h : phase ≠ .ending) (w : Word) :
    after phase w ≠ .ending := by
  cases w with
  | ring =>
      change (if phase = .idle then CallPhase.ringing else phase) ≠ _
      split
      · nofun
      · exact h
  | answer => exact h
  | bye => nofun

/-- The Pad takes the oldest word. -/
theorem Agreed.take {w : Word} {rest : List Word} (h : l.Agreed) (hw : l.inbox = w :: rest) :
    ({ l with inbox := rest, phase := after l.phase w } : CallLine).Agreed where
  settled := after_ne_ending h.settled w
  before hs := by
    have := (h.before hs).1
    rw [hw] at this
    cases this
  calling hs hstop hbye := by
    obtain ⟨hno, hidle, hconnected⟩ := h.calling hs hstop hbye
    rw [hw] at hno hidle
    obtain ⟨hwbye, hno⟩ : .bye ≠ w ∧ .bye ∉ rest := by simpa using hno
    refine ⟨hno, ?_⟩
    cases w with
    | ring =>
        change (after l.phase .ring = .idle → _) ∧ (after l.phase .ring = .connected ↔ _)
        unfold after
        by_cases hp : l.phase = .idle
        · rw [if_pos hp]
          rw [hp] at hconnected
          exact ⟨nofun, iff_of_false nofun fun h => nomatch hconnected.mpr h⟩
        · rw [if_neg hp]
          exact ⟨fun h => absurd h hp, hconnected⟩
    | answer => exact ⟨fun hp => by simpa using hidle hp, hconnected⟩
    | bye => exact absurd rfl hwbye
  left hs := by
    rcases h.left hs with ⟨pre, hpre⟩ | ⟨hnil, -⟩
    · rw [hw] at hpre
      cases pre with
      | nil =>
          obtain ⟨rfl, rfl⟩ := List.cons.inj hpre
          exact .inr ⟨rfl, rfl⟩
      | cons v pre => exact .inl ⟨pre, (List.cons.inj hpre).2⟩
    · rw [hw] at hnil
      cases hnil

/-- The door hears something. -/
theorem Agreed.hear {w : Word} {rest : Multiset Word} (h : l.Agreed)
    (hw : l.outbox = w ::ₘ rest) :
    ({ l with
        outbox := rest
        answered := l.answered || w == .answer
        stop := l.stop || w == .bye } : CallLine).Agreed where
  settled := h.settled
  before hs := by
    have := (h.before hs).2.1
    rw [hw] at this
    exact absurd this (Multiset.cons_ne_zero)
  calling hs hstop hbye := by
    obtain ⟨hstop, hwbye⟩ := Bool.or_eq_false_iff.mp hstop
    have hne : .bye ≠ w := fun he => by rw [← he] at hwbye; cases hwbye
    have hbye' : .bye ∉ l.outbox := by
      rw [hw, Multiset.mem_cons, not_or]
      exact ⟨hne, hbye⟩
    obtain ⟨hno, hidle, hconnected⟩ := h.calling hs hstop hbye'
    refine ⟨hno, hidle, hconnected.trans ?_⟩
    rw [hw, Multiset.mem_cons]
    change _ ↔ (l.answered || w == .answer) = true ∨ _
    rw [Bool.or_eq_true, beq_iff_eq, or_assoc, eq_comm (a := Word.answer)]
  left := h.left

/-- **One step keeps the agreement.** -/
theorem Agreed.step (h : l.Agreed) (hs : Step l l') : l'.Agreed := by
  cases hs with
  | ring hstage =>
      refine ⟨h.settled, nofun, fun _ hstop hbye => ?_, nofun⟩
      rcases hstage with hstage | hstage
      · obtain ⟨hinbox, hout, hphase, ha, -⟩ := h.before hstage
        simp [hinbox, hout, hphase, ha]
      · obtain ⟨hno, hidle, hconnected⟩ := h.calling hstage hstop hbye
        exact ⟨by simpa using hno, by simp, hconnected⟩
  | leave => exact ⟨h.settled, nofun, nofun, fun _ => .inl ⟨_, rfl⟩⟩
  | fail => exact ⟨h.settled, nofun, nofun, nofun⟩
  | take hw => exact h.take hw
  | claim hp =>
      refine ⟨nofun, fun hs => ?_, fun hs hstop hbye => ?_, fun hs => ?_⟩
      · have := (h.before hs).2.2.1
        rw [hp] at this
        cases this
      · obtain ⟨hno, -, -⟩ := h.calling hs hstop fun hm => hbye (Multiset.mem_cons_of_mem hm)
        exact ⟨hno, nofun, iff_of_true rfl (.inr (Multiset.mem_cons_self ..))⟩
      · rcases h.left hs with hlast | ⟨-, hidle⟩
        · exact .inl hlast
        · rw [hp] at hidle
          cases hidle
  | hangUp hp =>
      refine ⟨nofun, fun hs => ?_, fun hs hstop hbye => ?_, fun hs => ?_⟩
      · exact absurd (h.before hs).2.2.1 hp
      · exact absurd (Multiset.mem_cons_self ..) hbye
      · exact (h.left hs).imp_right fun hidle => ⟨hidle.1, rfl⟩
  | hear hw => exact h.hear hw
  | miss hw hleft =>
      exact ⟨h.settled, fun hs => absurd (hleft.symm.trans hs) (by decide),
        fun hs => absurd (hleft.symm.trans hs) (by decide), h.left⟩
  | @double w hw =>
      refine ⟨h.settled, fun hs => ?_, fun hs hstop hbye => ?_, h.left⟩
      · rw [(h.before hs).2.1] at hw
        cases hw
      · obtain ⟨hno, hidle, hconnected⟩ :=
          h.calling hs hstop fun hm => hbye (Multiset.mem_cons_of_mem hm)
        refine ⟨hno, hidle, hconnected.trans (or_congr_right ?_)⟩
        rw [Multiset.mem_cons]
        exact ⟨.inr, fun h => h.elim (fun he => he ▸ hw) id⟩

/-- **When nothing is under way the two agree**: a call that the door makes is ringing until the
    door has heard the answer and connected from then on, and after its goodbye there is no
    call. -/
theorem agreed_of_silent (h : l.Agreed) (hin : l.inbox = []) (hout : l.outbox = 0) :
    (l.stage = .before ∨ l.stage = .left → l.phase = .idle) ∧
      (l.stage = .calling → l.stop = false →
        l.phase = if l.answered then .connected else .ringing) := by
  refine ⟨?_, fun hs hstop => ?_⟩
  · rintro (hs | hs)
    · exact (h.before hs).2.2.1
    · rcases h.left hs with ⟨rest, hrest⟩ | ⟨-, hidle⟩
      · rw [hin] at hrest
        simp at hrest
      · exact hidle
  · obtain ⟨-, hidle, hconnected⟩ := h.calling hs hstop (by simp [hout])
    rw [hin] at hidle
    rw [hout] at hconnected
    have hsettled := h.settled
    cases hp : l.phase with
    | idle => exact absurd (hidle hp) List.not_mem_nil
    | ringing => simp_all
    | connected => simp_all
    | ending => exact absurd hp hsettled

end CallLine

end Michoi
