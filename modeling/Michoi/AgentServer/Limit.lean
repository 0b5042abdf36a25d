/-
  The body limit of `read_chunked`.

  The check adds the announced size to the bytes already held, and the sum wraps. As the
  held bytes are within the limit and a size is below `2 ^ bits`, a sum that wraps comes out
  below the bytes already held and passes (`wrapped_le`); the size is then so large that
  `vec![0; size]` panics (`isizeMax_lt_of_wraps`). `within_limit_iff` says that nothing else
  can go wrong.
-/
import Michoi.AgentServer

namespace Michoi

open Lib

/-! ## What is asked of a run -/

/-- What is asked of a round, in a run with this result: it holds and makes no more than
    the limit, it allocates no buffer of more, and a size that would take the body over the
    limit makes the run return an error. -/
structure RoundWithin (limit : Nat) (result : ReadResult Bytes) (round : ChunkRound) : Prop where
  held : round.held ≤ limit
  grown : ∀ body unread, round.step = .more body unread → body.length ≤ limit
  buffers : ∀ size ∈ round.allocated, size ≤ limit
  refuses : ∀ size ∈ round.announced, limit < round.held + size → result = .error .failed

structure WithinLimit (limit : Nat) (run : ChunkedRun) : Prop where
  rounds : ∀ round ∈ run.rounds, RoundWithin limit run.result round
  returned : ∀ body unread, run.result = .ok (body, unread) → body.length ≤ limit

/-! ## What a stream announces -/

/-- The sizes a stream announces, each with the total of the chunks before it, read without
    a limit up to the zero chunk, to a chunk that no `Vec` can take, or to where the stream
    is no chunked body any more. -/
def announcedLoop (bits : Nat) : Nat → Nat → Bytes → List (Nat × Nat)
  | 0, _, _ => []
  | n + 1, held, unread =>
      match readChunkSize bits unread with
      | .error _ => []
      | .ok (size, unread) =>
          (held, size) ::
            if size = 0 ∨ isizeMax bits < held + size then []
            else
              match readExact size unread with
              | .error _ => []
              | .ok (_, unread) =>
                  match readLine unread with
                  | .error _ => []
                  | .ok (_, unread) => announcedLoop bits n (held + size) unread

def announced (bits : Nat) (unread : Bytes) : List (Nat × Nat) :=
  announcedLoop bits (unread.length + 1) 0 unread

/-- No size that comes up within the limit takes the sum past the largest `usize`. -/
def NoWrap (bits limit : Nat) (sizes : List (Nat × Nat)) : Prop :=
  ∀ p ∈ sizes, p.1 ≤ limit → p.1 + p.2 < 2 ^ bits

instance (bits limit : Nat) (sizes : List (Nat × Nat)) : Decidable (NoWrap bits limit sizes) :=
  inferInstanceAs (Decidable (∀ p ∈ sizes, _))

section

variable {bits limit held size : Nat}

theorem size_lt {unread rest : Bytes} (h : readChunkSize bits unread = .ok (size, rest)) :
    size < 2 ^ bits := by
  unfold readChunkSize at h
  split at h
  · cases h
  · split at h
    · next hsize =>
        obtain ⟨rfl, -⟩ := Prod.mk.inj (Except.ok.inj h)
        exact fromStrRadix_lt hsize
    · cases h

theorem length_of_readExact {n : Nat} {unread chunk rest : Bytes}
    (h : readExact n unread = .ok (chunk, rest)) : chunk.length = n := by
  unfold readExact at h
  split at h
  · next hn =>
      obtain ⟨rfl, -⟩ := Prod.mk.inj (Except.ok.inj h)
      rw [List.length_take]
      omega
  · cases h

theorem two_mul_isizeMax_lt (hbits : 0 < bits) : 2 * isizeMax bits + 1 < 2 ^ bits := by
  obtain ⟨n, rfl⟩ := Nat.exists_eq_add_of_le' hbits
  have := Nat.two_pow_pos n
  unfold isizeMax
  rw [Nat.add_sub_cancel, Nat.pow_succ]
  omega

/-- A sum that wraps is smaller than what is already held. -/
theorem wrapped_le (hheld : held ≤ limit) (hsize : size < 2 ^ bits)
    (hwraps : 2 ^ bits ≤ held + size) (hlimit : limit < 2 ^ bits) :
    (held + size) % 2 ^ bits ≤ limit := by
  have heq : held + size = held + size - 2 ^ bits + 2 ^ bits := by omega
  rw [heq, Nat.add_mod_right, Nat.mod_eq_of_lt (by omega)]
  omega

/-- A size that makes the sum wrap is larger than any buffer. -/
theorem isizeMax_lt_of_wraps (hbits : 0 < bits) (hheld : held ≤ isizeMax bits)
    (hwraps : 2 ^ bits ≤ held + size) : isizeMax bits < size := by
  have := two_mul_isizeMax_lt hbits
  omega

/-- Every size comes after at least what was held at the start. -/
theorem held_le_of_mem_announced {n : Nat} {unread : Bytes} {p : Nat × Nat}
    (h : p ∈ announcedLoop bits n held unread) : held ≤ p.1 := by
  induction n generalizing held unread with
  | zero => cases h
  | succ n ih =>
      rw [announcedLoop] at h
      split at h
      · cases h
      · rw [List.mem_cons] at h
        rcases h with rfl | h
        · exact Nat.le_refl _
        · split at h
          · cases h
          · split at h
            · cases h
            · split at h
              · cases h
              · exact Nat.le_trans (Nat.le_add_right ..) (ih h)

/-! ## One round -/

variable {body unread rest : Bytes}

theorem chunkRound_of_size (hsize : readChunkSize bits unread = .ok (size, rest))
    (hpos : size ≠ 0) :
    chunkRound bits limit body unread =
      if limit < (body.length + size) % 2 ^ bits then
        ⟨body.length, some size, none, .fault .failed⟩
      else ⟨body.length, some size, (readChunk bits body size rest).1,
        (readChunk bits body size rest).2⟩ := by
  unfold chunkRound
  simp only [hsize, if_neg hpos]

/-- A run of one round. -/
theorem withinLimit_single {round : ChunkRound} {result : ReadResult Bytes}
    (hround : RoundWithin limit result round)
    (hreturned : ∀ body unread, result = .ok (body, unread) → body.length ≤ limit) :
    WithinLimit limit ⟨[round], result⟩ where
  rounds := by
    intro r hr
    rw [List.mem_singleton.mp hr]
    exact hround
  returned := hreturned

theorem withinLimit_cons {round : ChunkRound} {run : ChunkedRun}
    (hround : RoundWithin limit run.result round) :
    WithinLimit limit ⟨round :: run.rounds, run.result⟩ ↔ WithinLimit limit run := by
  constructor
  · intro h
    exact ⟨fun r hr => h.rounds r (List.mem_cons_of_mem _ hr), h.returned⟩
  · intro h
    refine ⟨fun r hr => ?_, h.returned⟩
    rcases List.mem_cons.mp hr with rfl | hr
    · exact hround
    · exact h.rounds r hr

/-- A run that ends in a fault, over a size within the limit or with an error. -/
theorem withinLimit_fault {fault : Fault} {announced allocated : Option Nat} (hheld : held ≤ limit)
    (hbuffers : ∀ size ∈ allocated, size ≤ limit)
    (hrefuses : ∀ size ∈ announced, limit < held + size → fault = .failed) :
    WithinLimit limit ⟨[⟨held, announced, allocated, .fault fault⟩], .error fault⟩ :=
  withinLimit_single
    ⟨hheld, nofun, hbuffers, fun size hs hover => by rw [hrefuses size hs hover]⟩ nofun

theorem noWrap_cons {p : Nat × Nat} {sizes : List (Nat × Nat)} (h : p.1 + p.2 < 2 ^ bits) :
    NoWrap bits limit (p :: sizes) ↔ NoWrap bits limit sizes := by
  constructor
  · exact fun hall q hq => hall q (List.mem_cons_of_mem _ hq)
  · intro hall q hq
    rcases List.mem_cons.mp hq with rfl | hq
    · exact fun _ => h
    · exact hall q hq

theorem noWrap_single {p : Nat × Nat} (h : p.1 + p.2 < 2 ^ bits) : NoWrap bits limit [p] :=
  (noWrap_cons h).mpr nofun

/-! ## The loop -/

/-- A sum that wraps passes the check, and the allocation panics. -/
theorem chunkedLoop_of_wraps (hbits : 0 < bits) (hlimit : limit < 2 ^ bits) (n : Nat)
    (hheld : body.length ≤ limit) (hfits : body.length ≤ isizeMax bits)
    (hsize : readChunkSize bits unread = .ok (size, rest))
    (hwraps : 2 ^ bits ≤ body.length + size) :
    chunkedLoop bits limit (n + 1) body unread =
      ⟨[⟨body.length, some size, none, .fault .panicked⟩], .error .panicked⟩ := by
  have hpasses := wrapped_le hheld (size_lt hsize) hwraps hlimit
  have hlarge := isizeMax_lt_of_wraps hbits hfits hwraps
  rw [chunkedLoop, chunkRound_of_size hsize (by omega), if_neg (Nat.not_lt.mpr hpasses)]
  unfold readChunk
  rw [if_pos hlarge]

/-- A sum that does not wrap is checked. -/
theorem chunkedLoop_of_over (n : Nat) (hheld : body.length ≤ limit)
    (hsize : readChunkSize bits unread = .ok (size, rest)) (hsum : body.length + size < 2 ^ bits)
    (hover : limit < body.length + size) :
    chunkedLoop bits limit (n + 1) body unread =
      ⟨[⟨body.length, some size, none, .fault .failed⟩], .error .failed⟩ := by
  rw [chunkedLoop, chunkRound_of_size hsize (by omega), Nat.mod_eq_of_lt hsum, if_pos hover]

/-- A chunk within the limit: the loop ends there, or goes on with the chunk in the body. -/
theorem chunkedLoop_of_chunk (n : Nat) (hlimit : limit < 2 ^ bits) (hpos : size ≠ 0)
    (hsize : readChunkSize bits unread = .ok (size, rest))
    (hwithin : body.length + size ≤ limit) :
    (∃ fault allocated, (∀ s ∈ allocated, s ≤ limit) ∧
      chunkedLoop bits limit (n + 1) body unread =
        ⟨[⟨body.length, some size, allocated, .fault fault⟩], .error fault⟩ ∧
      announcedLoop bits (n + 1) body.length unread = [(body.length, size)]) ∨
    ∃ longer left, longer.length = body.length + size ∧ longer.length ≤ isizeMax bits ∧
      chunkedLoop bits limit (n + 1) body unread =
        ⟨⟨body.length, some size, some size, .more longer left⟩ ::
            (chunkedLoop bits limit n longer left).rounds,
          (chunkedLoop bits limit n longer left).result⟩ ∧
      announcedLoop bits (n + 1) body.length unread =
        (body.length, size) :: announcedLoop bits n longer.length left := by
  have hpasses : ¬ limit < (body.length + size) % 2 ^ bits := by
    rw [Nat.mod_eq_of_lt (by omega)]
    omega
  have hbuffer : ∀ s ∈ some size, s ≤ limit := by
    intro s hs
    obtain rfl := Option.some.inj hs
    omega
  rw [chunkedLoop, chunkRound_of_size hsize hpos, if_neg hpasses, announcedLoop, hsize]
  unfold readChunk
  dsimp only
  by_cases hlarge : isizeMax bits < size
  · rw [if_pos hlarge, if_pos (.inr (by omega))]
    exact .inl ⟨.panicked, none, nofun, rfl, rfl⟩
  rw [if_neg hlarge]
  cases hread : readExact size rest with
  | error fault =>
      exact .inl ⟨fault, some size, hbuffer, rfl, by split <;> rfl⟩
  | ok r =>
      obtain ⟨chunk, left⟩ := r
      have hchunk := length_of_readExact hread
      dsimp only
      by_cases hfull : isizeMax bits < body.length + size
      · rw [List.length_append, hchunk, if_pos hfull, if_pos (.inr hfull)]
        exact .inl ⟨.panicked, some size, hbuffer, rfl, rfl⟩
      rw [List.length_append, hchunk, if_neg hfull, if_neg (by omega)]
      cases hline : readLine left with
      | error fault => exact .inl ⟨fault, some size, hbuffer, rfl, rfl⟩
      | ok r =>
          refine .inr ⟨body ++ chunk, r.2, ?_, ?_, rfl, ?_⟩
          · rw [List.length_append, hchunk]
          · rw [List.length_append, hchunk]
            omega
          · rw [List.length_append, hchunk]

/-- Behind a size over the limit the body that is announced with is over it too. -/
theorem noWrap_of_over (n : Nat) (hsize : readChunkSize bits unread = .ok (size, rest))
    (hsum : body.length + size < 2 ^ bits) (hover : limit < body.length + size) :
    NoWrap bits limit (announcedLoop bits (n + 1) body.length unread) := by
  intro p hp hp'
  rw [announcedLoop, hsize] at hp
  dsimp only at hp
  rcases List.mem_cons.mp hp with rfl | hp
  · exact hsum
  · split at hp
    · cases hp
    split at hp
    · cases hp
    split at hp
    · cases hp
    · have := held_le_of_mem_announced hp
      omega

theorem announcedLoop_last (n held : Nat) (hsize : readChunkSize bits unread = .ok (0, rest)) :
    announcedLoop bits (n + 1) held unread = [(held, 0)] := by
  rw [announcedLoop, hsize]
  exact congrArg ((held, 0) :: ·) (if_pos (.inl rfl))

/-- The last chunk adds nothing. -/
theorem withinLimit_last (n : Nat) (hheld : body.length ≤ limit)
    (hsize : readChunkSize bits unread = .ok (0, rest)) :
    WithinLimit limit (chunkedLoop bits limit (n + 1) body unread) := by
  have hunder : ∀ s ∈ some 0, ¬ limit < body.length + s := by
    intro s hs
    obtain rfl := Option.some.inj hs
    omega
  rw [chunkedLoop]
  unfold chunkRound
  simp only [hsize, if_true]
  cases readTrailers (rest.length + 1) rest with
  | error fault => exact withinLimit_fault hheld nofun fun s hs hs' => absurd hs' (hunder s hs)
  | ok r =>
      refine withinLimit_single
        ⟨hheld, nofun, nofun, fun s hs hs' => absurd hs' (hunder s hs)⟩ ?_
      intro b u h
      obtain ⟨rfl, -⟩ := Prod.mk.inj (Except.ok.inj h)
      exact hheld

/-- The loop from any round on: the invariant is that the body held so far is within the
    limit and fits a `Vec`. -/
theorem chunkedLoop_within_iff (hbits : 0 < bits) (hlimit : limit < 2 ^ bits) (n : Nat)
    (hheld : body.length ≤ limit) (hfits : body.length ≤ isizeMax bits) :
    WithinLimit limit (chunkedLoop bits limit n body unread) ↔
      NoWrap bits limit (announcedLoop bits n body.length unread) := by
  induction n generalizing body unread with
  | zero => exact ⟨fun _ p hp => absurd hp List.not_mem_nil, fun _ => ⟨nofun, nofun⟩⟩
  | succ n ih =>
      cases hsize : readChunkSize bits unread with
      | error fault =>
          have hround : chunkRound bits limit body unread =
              ⟨body.length, none, none, .fault fault⟩ := by
            unfold chunkRound
            rw [hsize]
          rw [chunkedLoop, announcedLoop, hround, hsize]
          exact ⟨fun _ p hp => absurd hp List.not_mem_nil,
            fun _ => withinLimit_fault hheld nofun nofun⟩
      | ok r =>
          obtain ⟨size, rest⟩ := r
          have hfirst : (body.length, size) ∈ announcedLoop bits (n + 1) body.length unread := by
            rw [announcedLoop, hsize]
            exact List.mem_cons_self
          by_cases hwraps : 2 ^ bits ≤ body.length + size
          · rw [chunkedLoop_of_wraps hbits hlimit n hheld hfits hsize hwraps]
            constructor
            · intro h
              have hfailed := (h.rounds _ List.mem_cons_self).refuses size rfl
                (show limit < body.length + size by omega)
              cases hfailed
            · intro h
              have := h _ hfirst hheld
              omega
          have hsum : body.length + size < 2 ^ bits := Nat.lt_of_not_le hwraps
          by_cases hover : limit < body.length + size
          · rw [chunkedLoop_of_over n hheld hsize hsum hover]
            exact ⟨fun _ => noWrap_of_over n hsize hsum hover,
              fun _ => withinLimit_fault hheld nofun fun _ _ _ => rfl⟩
          have hwithin : body.length + size ≤ limit := Nat.le_of_not_lt hover
          have hunder : ∀ s ∈ some size, ¬ limit < body.length + s := by
            intro s hs
            obtain rfl := Option.some.inj hs
            exact hover
          by_cases hzero : size = 0
          · subst hzero
            rw [announcedLoop_last n body.length hsize]
            exact ⟨fun _ => noWrap_single hsum, fun _ => withinLimit_last n hheld hsize⟩
          · rcases chunkedLoop_of_chunk n hlimit hzero hsize hwithin with
              ⟨fault, allocated, hbuffers, hrun, hannounced⟩ |
              ⟨longer, left, hlen, hfits', hrun, hannounced⟩
            · rw [hrun, hannounced]
              exact ⟨fun _ => noWrap_single hsum, fun _ => withinLimit_fault hheld hbuffers
                fun s hs hs' => absurd hs' (hunder s hs)⟩
            · rw [hrun, hannounced, noWrap_cons hsum, ← ih (by omega) hfits']
              refine withinLimit_cons ⟨hheld, ?_, ?_, fun s hs hs' => absurd hs' (hunder s hs)⟩
              · intro b u h
                obtain ⟨rfl, -⟩ := ChunkStep.more.inj h
                omega
              · intro s hs
                obtain rfl := Option.some.inj hs
                omega

/-- A line that was read is gone from the bytes. -/
theorem length_of_readLine {line : List Char} (h : readLine unread = .ok (line, rest)) :
    rest.length < unread.length := by
  unfold readLine at h
  split at h
  · next hscan =>
      obtain ⟨-, rfl⟩ := Prod.mk.inj (Except.ok.inj h)
      exact (scan_found hscan).2.1
  · cases h
  · cases h

theorem length_of_readChunkSize (h : readChunkSize bits unread = .ok (size, rest)) :
    rest.length < unread.length := by
  unfold readChunkSize at h
  split at h
  · cases h
  · next hline =>
      split at h
      · obtain ⟨-, rfl⟩ := Prod.mk.inj (Except.ok.inj h)
        exact length_of_readLine hline
      · cases h

/-- A round that goes on has read something. -/
theorem length_of_more {longer left : Bytes}
    (h : (chunkRound bits limit body unread).step = .more longer left) :
    left.length < unread.length := by
  unfold chunkRound at h
  split at h
  · cases h
  · next size rest hsize =>
      have hlt := length_of_readChunkSize hsize
      split at h
      · split at h <;> cases h
      split at h
      · cases h
      unfold readChunk at h
      dsimp only at h
      split at h
      · cases h
      split at h
      · cases h
      next chunk rest' hread =>
        split at h
        · cases h
        split at h
        · cases h
        next hline =>
          obtain ⟨-, rfl⟩ := ChunkStep.more.inj h
          have hline := length_of_readLine hline
          unfold readExact at hread
          split at hread
          · obtain ⟨-, rfl⟩ := Prod.mk.inj (Except.ok.inj hread)
            rw [List.length_drop] at hline
            omega
          · cases hread

/-- The rounds never run out: more of them change nothing. -/
theorem chunkedLoop_enough {n n' : Nat} (h : unread.length < n) (h' : unread.length < n') :
    chunkedLoop bits limit n body unread = chunkedLoop bits limit n' body unread := by
  induction n generalizing body unread n' with
  | zero => omega
  | succ n ih =>
      obtain ⟨n', rfl⟩ := Nat.exists_eq_add_of_le' (show 1 ≤ n' by omega)
      rw [chunkedLoop, chunkedLoop]
      dsimp only
      cases hstep : (chunkRound bits limit body unread).step with
      | done left => rfl
      | fault fault => rfl
      | more longer left =>
          have := length_of_more hstep
          dsimp only
          have hrest : chunkedLoop bits limit n longer left =
              chunkedLoop bits limit n' longer left := ih (by omega) (by omega)
          rw [hrest]

end

/-- **When a body stays within its limit.** For every stream: exactly when no size that it
    announces within the limit takes the sum past the largest `usize`. -/
theorem within_limit_iff {bits limit : Nat} (hbits : bits = 32 ∨ bits = 64)
    (hlimit : limit < 2 ^ bits) (unread : Bytes) :
    WithinLimit limit (readChunked bits limit unread) ↔
      NoWrap bits limit (announced bits unread) := by
  unfold readChunked announced
  exact @chunkedLoop_within_iff bits limit [] unread (by omega) hlimit _ (Nat.zero_le _)
    (Nat.zero_le _)

/-- Two chunks that make up the limit, and a third that is refused. -/
theorem within_limit_three :
    (64 = 32 ∨ 64 = 64) ∧ 6 < 2 ^ 64 ∧
      WithinLimit 6 (readChunked 64 6 (asBytes "2\r\nab\r\n4;x=y\r\ncdef\r\n1\r\ng\r\n")) :=
  ⟨by decide, by decide, (within_limit_iff (.inr rfl) (by decide) _).mpr (by decide +kernel)⟩

/-- One byte, then the largest size: the sum is zero, and the process ends in the
    allocation. -/
theorem limit_passed_by_wrapping :
    (readChunked 64 maxBody (asBytes "1\r\nA\r\nffffffffffffffff\r\n")).result =
        .error .panicked ∧
      (readChunked 32 maxBody (asBytes "1\r\nA\r\nffffffff\r\n")).result = .error .panicked ∧
      ¬ WithinLimit maxBody
        (readChunked 64 maxBody (asBytes "1\r\nA\r\nffffffffffffffff\r\n")) := by
  have hpanics : (readChunked 64 maxBody (asBytes "1\r\nA\r\nffffffffffffffff\r\n")).result =
      .error .panicked := by
    decide +kernel
  refine ⟨hpanics, by decide +kernel, fun h => ?_⟩
  have hannounced : ∃ round ∈
      (readChunked 64 maxBody (asBytes "1\r\nA\r\nffffffffffffffff\r\n")).rounds,
      ∃ size ∈ round.announced, maxBody < round.held + size := by
    decide +kernel
  obtain ⟨round, hround, size, hsize, hover⟩ := hannounced
  have hfailed := (h.rounds round hround).refuses size hsize hover
  rw [hpanics] at hfailed
  cases hfailed

end Michoi
