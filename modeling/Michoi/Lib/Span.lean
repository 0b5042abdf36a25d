/-
  The span of a trace: what lies between the first entry that opens it and the next entry
  that closes it.

  While a span is open it grows with the trace (`span_append`); once it is closed it stays
  (`Closed.span_append`).
-/
import Mathlib.Data.List.TakeWhile

namespace Lib

variable {ν : Type*} {opens closes : ν → Bool} {l new : List ν} {n : ν}

/-- The entries from the first that opens up to the next that closes. -/
def span (opens closes : ν → Bool) (l : List ν) : List ν :=
  (l.dropWhile fun n => !opens n).takeWhile fun n => !closes n

/-- Some entry from the first that opens on closes. -/
def Closed (opens closes : ν → Bool) (l : List ν) : Prop :=
  ∃ n ∈ l.dropWhile fun n => !opens n, closes n = true

theorem dropWhile_append_of_opened (h : ∃ n ∈ l, opens n = true) (new : List ν) :
    (l ++ new).dropWhile (fun n => !opens n) = l.dropWhile (fun n => !opens n) ++ new := by
  obtain ⟨n, hn, ho⟩ := h
  have hne : (l.dropWhile fun n => !opens n) ≠ [] := by
    intro he
    have := List.dropWhile_eq_nil_iff.mp he n hn
    rw [ho] at this
    cases this
  rw [List.dropWhile_append, if_neg (by simpa using hne)]

theorem Closed.opened (h : Closed opens closes l) : ∃ n ∈ l, opens n = true := by
  obtain ⟨n, hn, -⟩ := h
  by_contra hno
  have he : (l.dropWhile fun n => !opens n) = [] :=
    List.dropWhile_eq_nil_iff.mpr fun m hm => by
      simpa using fun ho => hno ⟨m, hm, ho⟩
  rw [he] at hn
  cases hn

/-- A closed span stays closed. -/
theorem Closed.append (h : Closed opens closes l) (new : List ν) :
    Closed opens closes (l ++ new) := by
  obtain ⟨n, hn, hc⟩ := h
  refine ⟨n, ?_, hc⟩
  rw [dropWhile_append_of_opened (Closed.opened ⟨n, hn, hc⟩)]
  exact List.mem_append_left _ hn

/-- A closed span stays as it is. -/
theorem Closed.span_append (h : Closed opens closes l) (new : List ν) :
    span opens closes (l ++ new) = span opens closes l := by
  obtain ⟨n, hn, hc⟩ := id h
  unfold span
  rw [dropWhile_append_of_opened h.opened, List.takeWhile_append, if_neg]
  intro hlen
  have hall := List.takeWhile_eq_self_iff.mp ((List.takeWhile_prefix _).eq_of_length hlen) n hn
  rw [hc] at hall
  cases hall

theorem span_of_open (h : ∀ n ∈ l, closes n = false) :
    span opens closes l = l.dropWhile fun n => !opens n :=
  List.takeWhile_eq_self_iff.mpr fun n hn => by
    rw [h n ((List.dropWhile_sublist _).subset hn)]
    rfl

/-- An open span grows with the trace. -/
theorem span_append (hopen : ∃ n ∈ l, opens n = true) (h : ∀ n ∈ l, closes n = false)
    (hnew : ∀ n ∈ new, closes n = false) :
    span opens closes (l ++ new) = span opens closes l ++ new := by
  have hall : ∀ n ∈ l ++ new, closes n = false := fun n hn =>
    (List.mem_append.mp hn).elim (h n) (hnew n)
  rw [span_of_open hall, span_of_open h, dropWhile_append_of_opened hopen]

/-- An entry that closes an open span is not part of it. -/
theorem span_close (hopen : ∃ n ∈ l, opens n = true) (h : ∀ n ∈ l, closes n = false)
    (hn : closes n = true) :
    span opens closes (l ++ [n]) = span opens closes l ∧ Closed opens closes (l ++ [n]) := by
  have hdrop := dropWhile_append_of_opened hopen [n]
  constructor
  · rw [span_of_open h]
    unfold span
    rw [hdrop, List.takeWhile_append_of_pos, List.takeWhile_cons, hn]
    · exact List.append_nil _
    · intro m hm
      rw [h m ((List.dropWhile_sublist _).subset hm)]
      rfl
  · exact ⟨n, by rw [hdrop]; exact List.mem_append_right _ List.mem_cons_self, hn⟩

/-- The entry that opens a span begins it. -/
theorem span_open (h : ∀ n ∈ l, opens n = false) (hn : opens n = true) (hc : closes n = false) :
    span opens closes (l ++ [n]) = [n] := by
  unfold span
  rw [List.dropWhile_append_of_pos, List.dropWhile_cons, hn]
  · exact (List.takeWhile_cons_of_pos (by rw [hc]; rfl)).trans rfl
  · intro m hm
    rw [h m hm]
    rfl

end Lib
