/-
  What content negotiation owes a client, and when `negotiate` gives it.

  A type's own range is the most specific one of the header that covers it: its name before
  `kind/*`, and that before `*/*` (`Ruling`). The answer should be a type whose own q is
  positive and largest (`Respects`). `negotiate` looks at one range after another, the
  preferred ones first, and takes the first type that a range covers: a more specific range
  for that type, also one with q=0, is not looked at.

  Proved: `negotiate_eq_some_iff` says which type is the answer, and `respects_iff` for which
  headers and offered types it is the right one: unless the more specific ranges lower the
  first type that the foremost range covers, and so refuse it or rank it below another one
  (`Misled`). Where they lower no type (`Unlowered`) it always is. Qualities that are not
  numbers never reach the sort (`order_isSome`).
-/
import Michoi.AgentServer.Route
import Michoi.Lib.Ranked
import Mathlib.Data.Set.Finite.Lemmas
import Mathlib.Data.Set.Finite.List

namespace Michoi

section

variable {Q : Type}

/-! ## The place of a range -/

theorem rangeOf_index {lib : Library Q} {item : List Char × Nat} {c : Candidate Q}
    (h : rangeOf lib item = some c) : c.index = item.2 := by
  simp only [rangeOf, Option.ite_none_left_eq_some, Option.some.injEq] at h
  obtain ⟨_, rfl⟩ := h
  rfl

/-- No two ranges stand at one place. -/
theorem eq_of_index {lib : Library Q} {accept : String} {a b : Candidate Q}
    (ha : a ∈ ranges lib accept) (hb : b ∈ ranges lib accept) (h : a.index = b.index) : a = b := by
  obtain ⟨⟨item, i⟩, hitem, hrange⟩ := List.mem_filterMap.mp ha
  obtain ⟨⟨item', i'⟩, hitem', hrange'⟩ := List.mem_filterMap.mp hb
  have hplace : i = i' := (rangeOf_index hrange).symm.trans (h.trans (rangeOf_index hrange'))
  have hat := List.mem_zipIdx_iff_getElem?.mp hitem
  have hat' := List.mem_zipIdx_iff_getElem?.mp hitem'
  dsimp only at hat hat'
  rw [hplace, hat'] at hat
  rw [← Option.some.inj hat, hplace] at hrange
  exact Option.some.inj (hrange.symm.trans hrange')

/-! ## The order of the candidates -/

variable [LinearOrder Q]

theorem Quality.gt_iff {a b : Quality Q} :
    a.gt b = true ↔ ∃ x y, a = .num x ∧ b = .num y ∧ y < x := by
  cases a with
  | nan => simp [gt, partialCmp]
  | num x =>
      cases b with
      | nan => simp [gt, partialCmp]
      | num y => simp [gt, partialCmp, compare_gt_iff_gt]

/-- Only numbers are candidates. -/
theorem exists_num_of_mem {lib : Library Q} {accept : String} {c : Candidate Q}
    (h : c ∈ candidates lib accept) : ∃ x, c.q = .num x := by
  obtain ⟨x, _, hx, _⟩ := Quality.gt_iff.mp (List.mem_filter.mp h).2
  exact ⟨x, hx⟩

/-- **The sort finds an order** between any two of the candidates. -/
theorem order_isSome {lib : Library Q} {accept : String} {a b : Candidate Q}
    (ha : a ∈ candidates lib accept) (hb : b ∈ candidates lib accept) : (a.order b).isSome := by
  obtain ⟨x, hx⟩ := exists_num_of_mem ha
  obtain ⟨y, hy⟩ := exists_num_of_mem hb
  simp [Candidate.order, Quality.partialCmp, hx, hy]

theorem before_iff {a b : Candidate Q} {x y : Q} (hx : a.q = .num x) (hy : b.q = .num y) :
    a.before b = true ↔ y < x ∨ x = y ∧ a.index ≤ b.index := by
  have horder : a.order b = some ((compare y x).then (compare a.index b.index)) := by
    simp [Candidate.order, Quality.partialCmp, hx, hy]
  rw [Candidate.before, horder]
  rcases lt_trichotomy y x with hlt | heq | hgt
  · simp [compare_lt_iff_lt.mpr hlt, hlt]
  · subst heq
    simp [Nat.compare_eq_gt]
  · simp [compare_gt_iff_gt.mpr hgt, hgt.not_gt, hgt.ne]

/-- Candidates are ranked: no two of them stand at one place. -/
theorem ranks_candidates (lib : Library Q) (accept : String) :
    Ranked.Ranks Candidate.before (candidates lib accept) where
  trans a ha b hb c hc hab hbc := by
    obtain ⟨x, hx⟩ := exists_num_of_mem ha
    obtain ⟨y, hy⟩ := exists_num_of_mem hb
    obtain ⟨z, hz⟩ := exists_num_of_mem hc
    rw [before_iff hx hy] at hab
    rw [before_iff hy hz] at hbc
    rw [before_iff hx hz]
    rcases hab with hyx | ⟨rfl, hab⟩
    · rcases hbc with hzy | ⟨rfl, _⟩
      · exact .inl (hzy.trans hyx)
      · exact .inl hyx
    · rcases hbc with hzy | ⟨rfl, hbc⟩
      · exact .inl hzy
      · exact .inr ⟨rfl, hab.trans hbc⟩
  total a ha b hb := by
    obtain ⟨x, hx⟩ := exists_num_of_mem ha
    obtain ⟨y, hy⟩ := exists_num_of_mem hb
    rw [before_iff hx hy, before_iff hy hx]
    rcases lt_trichotomy x y with hlt | rfl | hgt
    · exact .inr (.inl hlt)
    · exact (le_total a.index b.index).imp (fun h => .inr ⟨rfl, h⟩) fun h => .inr ⟨rfl, h⟩
    · exact .inl (.inl hgt)
  antisymm a ha b hb hab hba := by
    obtain ⟨x, hx⟩ := exists_num_of_mem ha
    obtain ⟨y, hy⟩ := exists_num_of_mem hb
    rw [before_iff hx hy] at hab
    rw [before_iff hy hx] at hba
    have hplace : a.index = b.index := by
      rcases hab with hyx | ⟨rfl, hab⟩
      · rcases hba with hxy | ⟨rfl, _⟩
        · exact absurd hxy hyx.not_gt
        · exact absurd hyx (lt_irrefl _)
      · rcases hba with hlt | ⟨_, hba⟩
        · exact absurd hlt (lt_irrefl _)
        · exact le_antisymm hab hba
    exact eq_of_index (List.mem_filter.mp ha).1 (List.mem_filter.mp hb).1 hplace

end

/-! ## Covering -/

/-- `kind/*` covers the types of a kind. -/
def SubtypesOf (range type : String) : Prop :=
  ∃ kind sub : String, range = kind ++ "/*" ∧ type = kind ++ "/" ++ sub

/-- A kind and its slash. -/
theorem take_kind (kind : List Char) :
    (kind ++ ['/', '*']).take (kind.length + 1) = kind ++ ['/'] := by
  simp [List.take_append]

/-- What `negotiate` compares: a name, everything, or the types of a kind. -/
theorem matchesRange_iff {wanted offer : String} :
    matchesRange wanted offer = true ↔ wanted = mediaBase offer.toList ∨ wanted = "*/*" ∨
      SubtypesOf wanted (mediaBase offer.toList) := by
  have hkinds : ("/*".toList <:+ wanted.toList ∧
      wanted.toList.take (wanted.toList.length - 1) <+: (mediaBase offer.toList).toList) ↔
      SubtypesOf wanted (mediaBase offer.toList) := by
    constructor
    · rintro ⟨⟨kind, hwanted⟩, sub, htype⟩
      have hslash : wanted.toList.take (wanted.toList.length - 1) = kind ++ ['/'] := by
        rw [← hwanted]
        simpa using take_kind kind
      refine ⟨String.ofList kind, String.ofList sub, ?_, ?_⟩
      · apply String.toList_inj.mp
        simp [← hwanted]
      · apply String.toList_inj.mp
        simp [← htype, hslash]
    · rintro ⟨kind, sub, hwanted, htype⟩
      rw [hwanted, htype]
      exact ⟨⟨kind.toList, by simp⟩, sub.toList, by simp [take_kind]⟩
  simp only [matchesRange, Bool.or_eq_true, beq_iff_eq, Bool.and_eq_true, decide_eq_true_eq,
    hkinds, or_assoc]

section

variable {Q : Type}

/-- The most specific ranges for a type: those with its name, else those with its kind, else
    those for everything. -/
def MostSpecific (rs : List (Candidate Q)) (type : String) (r : Candidate Q) : Prop :=
  r ∈ rs ∧ (r.base = type ∨ (∀ s ∈ rs, s.base ≠ type) ∧
    (SubtypesOf r.base type ∨ (∀ s ∈ rs, ¬ SubtypesOf s.base type) ∧ r.base = "*/*"))

/-- The own ranges of an offered type. -/
def Ruling (lib : Library Q) (accept offer : String) (r : Candidate Q) : Prop :=
  MostSpecific (ranges lib accept) (mediaBase offer.toList) r

theorem Ruling.covers {lib : Library Q} {accept offer : String} {r : Candidate Q}
    (h : Ruling lib accept offer r) : matchesRange r.base offer = true := by
  rw [matchesRange_iff]
  rcases h.2 with hname | ⟨_, hkind | ⟨_, hall⟩⟩
  · exact .inl hname
  · exact .inr (.inr hkind)
  · exact .inr (.inl hall)

variable [LinearOrder Q]

/-! ## The answer -/

/-- The range that decides, and the type that it covers first: no range that accepts some
    offered type is preferred to it. -/
structure Leads (lib : Library Q) (accept : String) (offered : List String) (r : Candidate Q)
    (t : String) : Prop where
  accepts : r ∈ candidates lib accept
  covers : offered.find? (matchesRange r.base) = some t
  first : ∀ s ∈ candidates lib accept, (∃ t' ∈ offered, matchesRange s.base t') → r.before s

theorem negotiate_eq_some_iff {lib : Library Q} {accept t : String} {offered : List String} :
    negotiate lib (some accept) offered = some t ↔ ∃ r, Leads lib accept offered r t := by
  have hanswers : ∀ s : Candidate Q, (offered.find? (matchesRange s.base)).isSome ↔
      ∃ t' ∈ offered, matchesRange s.base t' := fun s => List.find?_isSome
  have hfirst := Ranked.findSome?_mergeSort_eq_some_iff (ranks_candidates lib accept)
    (f := fun c => offered.find? (matchesRange c.base)) (b := t)
  constructor
  · intro h
    obtain ⟨r, hr, hcovers, hbefore⟩ := hfirst.mp h
    exact ⟨r, hr, hcovers, fun s hs hsome => hbefore s hs ((hanswers s).mpr hsome)⟩
  · rintro ⟨r, hleads⟩
    exact hfirst.mpr ⟨r, hleads.accepts, hleads.covers, fun s hs hsome =>
      hleads.first s hs ((hanswers s).mp hsome)⟩

/-- No offered type has an own range that is preferred to the one that leads. -/
theorem Leads.largest {lib : Library Q} {accept t t' : String} {offered : List String}
    {r s : Candidate Q} (h : Leads lib accept offered r t) (ht' : t' ∈ offered)
    (hs : Ruling lib accept t' s) : ¬ s.q.gt r.q := by
  intro hgt
  obtain ⟨y, x, hy, hx, hlt⟩ := Quality.gt_iff.mp hgt
  obtain ⟨_, z, hx', hz, hpos⟩ := Quality.gt_iff.mp (List.mem_filter.mp h.accepts).2
  obtain rfl := Quality.num.inj (hx.symm.trans hx')
  have hcandidate : s ∈ candidates lib accept :=
    List.mem_filter.mpr ⟨hs.1, Quality.gt_iff.mpr ⟨y, z, hy, hz, hpos.trans hlt⟩⟩
  have hbefore := h.first s hcandidate ⟨t', ht', hs.covers⟩
  rcases (before_iff hx hy).mp hbefore with hlt' | ⟨heq, _⟩
  · exact hlt.not_gt hlt'
  · exact hlt.ne heq

/-! ## What a client is owed -/

/-- Refusals and preferences are respected: an answer has a positive q of its own, and no
    offered type has a larger one; with no such type there is no answer; and the sort
    compares numbers only. -/
structure Respects (lib : Library Q) (accept : String) (offered : List String) : Prop where
  preferred : ∀ t, negotiate lib (some accept) offered = some t → t ∈ offered ∧
    ∃ r, Ruling lib accept t r ∧ r.q.gt (.num lib.zero) ∧
      ∀ t' ∈ offered, ∀ r', Ruling lib accept t' r' → ¬ r'.q.gt r.q
  refused : (∀ t ∈ offered, ∀ r, Ruling lib accept t r → ¬ r.q.gt (.num lib.zero)) →
    negotiate lib (some accept) offered = none
  ordered : ∀ a ∈ candidates lib accept, ∀ b ∈ candidates lib accept, (a.order b).isSome

/-! ## Headers that mislead -/

/-- A range of the header that accepts some offered type. -/
structure Accepting (lib : Library Q) (accept : String) (offered : List String)
    (r : Candidate Q) : Prop where
  mem : r ∈ ranges lib accept
  positive : r.q.gt (.num lib.zero)
  covers : ∃ t ∈ offered, matchesRange r.base t

/-- The accepting range with the largest q, and of those the first in the header. -/
structure Foremost (lib : Library Q) (accept : String) (offered : List String)
    (r : Candidate Q) : Prop extends Accepting lib accept offered r where
  first : ∀ s, Accepting lib accept offered s → r.q.gt s.q ∨ r.q = s.q ∧ r.index ≤ s.index

/-- No own range of the type has a positive q. -/
def Refused (lib : Library Q) (accept t : String) : Prop :=
  ∀ s, Ruling lib accept t s → ¬ s.q.gt (.num lib.zero)

/-- An own range of some offered type has a larger q than all own ranges of this one that
    accept it. -/
def Outranked (lib : Library Q) (accept : String) (offered : List String) (t : String) : Prop :=
  ∃ t' ∈ offered, ∃ s', Ruling lib accept t' s' ∧
    ∀ s, Ruling lib accept t s → s.q.gt (.num lib.zero) → s'.q.gt s.q

/-- All own ranges of the type have a smaller q than this range, or none at all. -/
def Lowered (lib : Library Q) (accept t : String) (r : Candidate Q) : Prop :=
  ∀ s, Ruling lib accept t s → s.q ≠ r.q ∧ ¬ s.q.gt r.q

/-- The first offered type that the foremost range covers is lowered by the more specific ranges
    of the header, so that it is refused or outranked. -/
def Misled (lib : Library Q) (accept : String) (offered : List String) : Prop :=
  ∃ r t, Foremost lib accept offered r ∧ offered.find? (matchesRange r.base) = some t ∧
    Lowered lib accept t r ∧ (Refused lib accept t ∨ Outranked lib accept offered t)

/-- The header lowers no offered type below a range that accepts it. -/
def Unlowered (lib : Library Q) (accept : String) (offered : List String) : Prop :=
  ∀ t ∈ offered, ∀ r ∈ ranges lib accept, r.q.gt (.num lib.zero) → matchesRange r.base t →
    ¬ Lowered lib accept t r

section

variable {lib : Library Q} {accept t : String} {offered : List String} {r : Candidate Q}

theorem mem_candidates_iff : r ∈ candidates lib accept ↔
    r ∈ ranges lib accept ∧ r.q.gt (.num lib.zero) = true := List.mem_filter

/-- The range that leads is the foremost one of the header. -/
theorem leads_iff : Leads lib accept offered r t ↔
    Foremost lib accept offered r ∧ offered.find? (matchesRange r.base) = some t := by
  have hbefore : ∀ {s}, r ∈ candidates lib accept → s ∈ candidates lib accept →
      (r.before s = true ↔ r.q.gt s.q ∨ r.q = s.q ∧ r.index ≤ s.index) := by
    intro s hr hs
    obtain ⟨x, hx⟩ := exists_num_of_mem hr
    obtain ⟨y, hy⟩ := exists_num_of_mem hs
    rw [before_iff hx hy, Quality.gt_iff, hx, hy]
    simp
  constructor
  · intro h
    obtain ⟨hmem, hpos⟩ := mem_candidates_iff.mp h.accepts
    have hcovers : ∃ t' ∈ offered, matchesRange r.base t' :=
      ⟨t, List.mem_of_find?_eq_some h.covers, List.find?_some h.covers⟩
    refine ⟨⟨⟨hmem, hpos, hcovers⟩, fun s hs => ?_⟩, h.covers⟩
    have hcandidate := mem_candidates_iff.mpr ⟨hs.mem, hs.positive⟩
    exact (hbefore h.accepts hcandidate).mp (h.first s hcandidate hs.covers)
  · rintro ⟨h, hfind⟩
    have hr := mem_candidates_iff.mpr ⟨h.mem, h.positive⟩
    refine ⟨hr, hfind, fun s hs hcovers => (hbefore hr hs).mpr (h.first s ⟨?_, ?_, hcovers⟩)⟩
    · exact (mem_candidates_iff.mp hs).1
    · exact (mem_candidates_iff.mp hs).2

theorem Quality.gt_trans {a b c : Quality Q} (hab : a.gt b) (hbc : b.gt c) : a.gt c := by
  obtain ⟨x, y, rfl, rfl, hyx⟩ := gt_iff.mp hab
  obtain ⟨_, z, hy, rfl, hzy⟩ := gt_iff.mp hbc
  rw [← Quality.num.inj hy] at hzy
  exact gt_iff.mpr ⟨_, _, rfl, rfl, hzy.trans hyx⟩

/-- The number of a q, where it is one. -/
def Quality.number (zero : Q) : Quality Q → Q
  | num x => x
  | nan => zero

/-- Of the own ranges that accept a type one has the largest q. -/
theorem exists_largest (h : ¬ Refused lib accept t) :
    ∃ r, Ruling lib accept t r ∧ r.q.gt (.num lib.zero) ∧
      ∀ s, Ruling lib accept t s → s.q.gt (.num lib.zero) → ¬ s.q.gt r.q := by
  unfold Refused at h
  push Not at h
  let accepting : Set (Candidate Q) := {s | Ruling lib accept t s ∧ s.q.gt (.num lib.zero)}
  have hfinite : accepting.Finite :=
    (List.finite_toSet (ranges lib accept)).subset fun s hs => hs.1.1
  obtain ⟨r, ⟨hr, hpos⟩, hlargest⟩ :=
    Set.exists_max_image accepting (fun s => s.q.number lib.zero) hfinite h
  refine ⟨r, hr, hpos, fun s hs hs' hgt => ?_⟩
  obtain ⟨x, y, hx, hy, hlt⟩ := Quality.gt_iff.mp hgt
  have hle := hlargest s ⟨hs, hs'⟩
  rw [hx, hy] at hle
  exact hlt.not_ge hle

/-- A type that is neither refused nor outranked is a right answer. -/
theorem owed_of_not_misled (hrefused : ¬ Refused lib accept t)
    (houtranked : ¬ Outranked lib accept offered t) :
    ∃ r, Ruling lib accept t r ∧ r.q.gt (.num lib.zero) ∧
      ∀ t' ∈ offered, ∀ r', Ruling lib accept t' r' → ¬ r'.q.gt r.q := by
  obtain ⟨r, hr, hpos, hlargest⟩ := exists_largest hrefused
  refine ⟨r, hr, hpos, fun t' ht' r' hr' hgt => houtranked ⟨t', ht', r', hr', fun s hs hs' => ?_⟩⟩
  obtain ⟨x, y, hx, hy, hlt⟩ := Quality.gt_iff.mp hgt
  obtain ⟨z, _, hz, -, -⟩ := Quality.gt_iff.mp hs'
  refine Quality.gt_iff.mpr ⟨x, z, hx, hz, lt_of_le_of_lt (le_of_not_gt fun hlt' => ?_) hlt⟩
  exact hlargest s hs hs' (Quality.gt_iff.mpr ⟨z, y, hz, hy, hlt'⟩)

/-- A type that leads and is a wrong answer was lowered: an own range of the q of the range that
    leads accepts the type, and nothing outranks that. -/
theorem lowered_of_leads (hleads : Leads lib accept offered r t)
    (hbad : Refused lib accept t ∨ Outranked lib accept offered t) : Lowered lib accept t r := by
  intro s hs
  rw [← not_or]
  intro hge
  have hpos : s.q.gt (.num lib.zero) := by
    have hr := (mem_candidates_iff.mp hleads.accepts).2
    rcases hge with heq | hgt
    · exact heq ▸ hr
    · exact Quality.gt_trans hgt hr
  rcases hbad with hrefused | ⟨t', ht', s', hs', hlarger⟩
  · exact hrefused s hs hpos
  · have hgt := hlarger s hs hpos
    refine hleads.largest ht' hs' ?_
    rcases hge with heq | hgt'
    · exact heq ▸ hgt
    · exact Quality.gt_trans hgt hgt'

theorem not_misled_of_unlowered (h : Unlowered lib accept offered) :
    ¬ Misled lib accept offered := by
  rintro ⟨r, t, hr, hfind, hlowered, -⟩
  exact h t (List.mem_of_find?_eq_some hfind) r hr.mem hr.positive (List.find?_some hfind) hlowered

end

/-- **Negotiation respects the client** exactly where the header does not mislead it; so wherever
    no more specific range lowers an offered type. -/
theorem respects_iff (lib : Library Q) (accept : String) (offered : List String) :
    (Respects lib accept offered ↔ ¬ Misled lib accept offered) ∧
    (Unlowered lib accept offered → ¬ Misled lib accept offered) := by
  refine ⟨⟨?_, fun h => ?_⟩, not_misled_of_unlowered⟩
  · rintro h ⟨r, t, hr, hfind, -, hbad⟩
    have hanswer := negotiate_eq_some_iff.mpr ⟨r, leads_iff.mpr ⟨hr, hfind⟩⟩
    obtain ⟨_, s, hs, hpos, hlargest⟩ := h.preferred t hanswer
    rcases hbad with hrefused | ⟨t', ht', s', hs', hlarger⟩
    · exact hrefused s hs hpos
    · exact hlargest t' ht' s' hs' (hlarger s hs hpos)
  · have hpreferred : ∀ t, negotiate lib (some accept) offered = some t → t ∈ offered ∧
        ∃ r, Ruling lib accept t r ∧ r.q.gt (.num lib.zero) ∧
          ∀ t' ∈ offered, ∀ r', Ruling lib accept t' r' → ¬ r'.q.gt r.q := by
      intro t ht
      obtain ⟨r, hleads⟩ := negotiate_eq_some_iff.mp ht
      obtain ⟨hr, hfind⟩ := leads_iff.mp hleads
      have hright : ¬ (Refused lib accept t ∨ Outranked lib accept offered t) := fun hbad =>
        h ⟨r, t, hr, hfind, lowered_of_leads hleads hbad, hbad⟩
      exact ⟨List.mem_of_find?_eq_some hfind,
        owed_of_not_misled (fun hrefused => hright (.inl hrefused))
          fun houtranked => hright (.inr houtranked)⟩
    refine ⟨hpreferred, fun hrefused => ?_, fun a ha b => order_isSome ha⟩
    rw [Option.eq_none_iff_forall_ne_some]
    intro t ht
    obtain ⟨hmem, r, hr, hpos, _⟩ := hpreferred t ht
    exact hrefused t hmem r hr hpos

end

/-- A library that reads some qualities, in tenths. -/
def tenths : Library Nat where
  toVec _ := []
  commandRequest _ := .error ""
  monitorRequest _ := .error ""
  dialRequest _ := .error ""
  elevatorRequest _ := .error ""
  parseQ
    | "0" => some (.num 0)
    | "0.5" => some (.num 5)
    | "1" => some (.num 10)
    | "NaN" => some .nan
    | _ => none
  zero := 0
  one := 10
  openapiYaml := []
  padHtml := []
  swaggerHtml := []

/-- JSON is refused by name, and is the answer all the same. -/
theorem refused_beside_wildcard :
    ¬ Respects tenths "application/json;q=0, */*" [mediaTypeJson] := by
  intro h
  have hranges : ranges tenths "application/json;q=0, */*" =
      [⟨.num 0, 0, "application/json"⟩, ⟨.num 10, 1, "*/*"⟩] := by rfl
  have hbase : mediaBase mediaTypeJson.toList = "application/json" := by rfl
  have hleads : Leads tenths "application/json;q=0, */*" [mediaTypeJson]
      ⟨.num 10, 1, "*/*"⟩ mediaTypeJson := by
    have hcandidates : candidates tenths "application/json;q=0, */*" =
        [⟨.num 10, 1, "*/*"⟩] := by
      rw [candidates, hranges]
      rfl
    refine ⟨by simp [hcandidates], by decide +kernel, ?_⟩
    intro s hs _
    rw [hcandidates, List.mem_singleton] at hs
    subst hs
    decide
  obtain ⟨_, r, hruling, hpos, _⟩ := h.preferred _ (negotiate_eq_some_iff.mpr ⟨_, hleads⟩)
  rw [Ruling, hranges, hbase] at hruling
  have hname : r.base = "application/json" := by
    rcases hruling.2 with hname | ⟨hno, _⟩
    · exact hname
    · exact absurd rfl (hno _ List.mem_cons_self)
  rcases List.mem_cons.mp hruling.1 with rfl | hmem
  · cases hpos
  · rw [List.mem_singleton.mp hmem] at hname
    exact absurd hname (by decide)

end Michoi
