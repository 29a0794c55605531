import Mathlib.Data.List.Basic
import Mathlib.Tactic

/-!
# Splitting at a separator

`lines sep s` is what a line reader returns: the parts of `s` that `sep` ends,
and the rest after the last `sep` if it is not empty.
-/

namespace BuildYourOwnStuff.Foundations

variable {α : Type*} [DecidableEq α] {sep : α}

/-- The parts of a list between separators, without the separators. -/
def lines (sep : α) : List α → List (List α)
  | [] => []
  | a :: s =>
    if a = sep then [] :: lines sep s
    else
      match lines sep s with
      | [] => [[a]]
      | l :: ls => (a :: l) :: ls

/-- What comes before and after the first separator, if there is one. -/
def cut (sep : α) (s : List α) : Option (List α × List α) :=
  if sep ∈ s then some (s.takeWhile fun a => a != sep, (s.dropWhile fun a => a != sep).tail)
  else none

/-- The parts that separators end, with their separators, and what is left after them. -/
def terminated (sep : α) : List α → List (List α) × List α
  | [] => ([], [])
  | a :: s =>
    let parts := terminated sep s
    if a = sep then ([a] :: parts.1, parts.2)
    else
      match parts.1 with
      | [] => ([], a :: parts.2)
      | l :: ls => ((a :: l) :: ls, parts.2)

@[simp] theorem lines_nil : lines sep [] = [] := rfl

theorem lines_ne_nil {s : List α} (h : s ≠ []) : lines sep s ≠ [] := by
  obtain ⟨a, s, rfl⟩ := List.exists_cons_of_ne_nil h
  rw [lines]
  split_ifs
  · exact List.cons_ne_nil _ _
  · split <;> exact List.cons_ne_nil _ _

/-- A terminated line is split off. -/
theorem lines_append_sep {l : List α} (h : sep ∉ l) (s : List α) :
    lines sep (l ++ sep :: s) = l :: lines sep s := by
  induction l with
  | nil => simp [lines]
  | cons a l ih =>
    rw [List.mem_cons, not_or] at h
    rw [List.cons_append, lines, if_neg (Ne.symm h.1), ih h.2]

/-- A nonempty rest without a separator is a line of its own. -/
theorem lines_of_notMem {l : List α} (h : sep ∉ l) (hne : l ≠ []) : lines sep l = [l] := by
  induction l with
  | nil => exact absurd rfl hne
  | cons a l ih =>
    rw [List.mem_cons, not_or] at h
    rw [lines, if_neg (Ne.symm h.1)]
    rcases List.eq_nil_or_concat l with rfl | ⟨l', b, hl⟩
    · rfl
    · rw [ih h.2 (by rw [hl]; simp)]

/-- The lines of a concatenation of terminated lines. -/
theorem lines_terminated {ls : List (List α)} (h : ∀ l ∈ ls, sep ∉ l) (s : List α) :
    lines sep (ls.flatMap (fun l => l ++ [sep]) ++ s) = ls ++ lines sep s := by
  induction ls with
  | nil => rfl
  | cons l ls ih =>
    rw [List.forall_mem_cons] at h
    rw [List.flatMap_cons, List.append_assoc, List.append_assoc, List.singleton_append,
      lines_append_sep h.1, ih h.2, List.cons_append]

/-- No line contains the separator. -/
theorem notMem_of_mem_lines {s l : List α} (h : l ∈ lines sep s) : sep ∉ l := by
  induction s generalizing l with
  | nil => simp at h
  | cons a s ih =>
    rw [lines] at h
    split_ifs at h with ha
    · rcases List.mem_cons.mp h with rfl | h
      · exact List.not_mem_nil
      · exact ih h
    · split at h
      · rw [List.mem_singleton] at h
        simp [h, Ne.symm ha]
      · rename_i l' ls hls
        rcases List.mem_cons.mp h with rfl | h
        · have hl' := ih (l := l') (by simp [hls])
          simp [hl', Ne.symm ha]
        · exact ih (by simp [hls, h])

theorem bne_of_notMem {l : List α} (h : sep ∉ l) : ∀ a ∈ l, (a != sep) = true :=
  fun _ ha => bne_iff_ne.mpr (ne_of_mem_of_not_mem ha h)

theorem takeWhile_append_sep {l : List α} (h : sep ∉ l) (s : List α) :
    (l ++ sep :: s).takeWhile (fun a => a != sep) = l := by
  rw [List.takeWhile_append_of_pos (bne_of_notMem h)]
  simp

/-- The first separator is the one after a part without separators. -/
theorem cut_append_sep {l : List α} (h : sep ∉ l) (s : List α) :
    cut sep (l ++ sep :: s) = some (l, s) := by
  have hmem : sep ∈ l ++ sep :: s := List.mem_append_right _ List.mem_cons_self
  rw [cut, if_pos hmem, takeWhile_append_sep h, List.dropWhile_append_of_pos (bne_of_notMem h)]
  simp

theorem cut_eq_some_iff {s l t : List α} :
    cut sep s = some (l, t) ↔ sep ∉ l ∧ s = l ++ sep :: t := by
  refine ⟨fun h => ?_, fun ⟨hl, hs⟩ => hs ▸ cut_append_sep hl t⟩
  have hmem : sep ∈ s := by
    by_contra hnot
    rw [cut, if_neg hnot] at h
    cases h
  obtain ⟨l', t', rfl, hl'⟩ := List.eq_append_cons_of_mem hmem
  rw [cut_append_sep hl'] at h
  cases h
  exact ⟨hl', rfl⟩

theorem cut_eq_none_iff {s : List α} : cut sep s = none ↔ sep ∉ s := by
  rw [cut]
  split_ifs with h <;> simp [h]

theorem terminated_append_sep {l : List α} (h : sep ∉ l) (s : List α) :
    terminated sep (l ++ sep :: s) =
      ((l ++ [sep]) :: (terminated sep s).1, (terminated sep s).2) := by
  induction l with
  | nil => simp [terminated]
  | cons a l ih =>
    rw [List.mem_cons, not_or] at h
    rw [List.cons_append, terminated, ih h.2]
    exact if_neg (Ne.symm h.1)

theorem terminated_of_notMem {l : List α} (h : sep ∉ l) : terminated sep l = ([], l) := by
  induction l with
  | nil => rfl
  | cons a l ih =>
    rw [List.mem_cons, not_or] at h
    rw [terminated, ih h.2]
    exact if_neg (Ne.symm h.1)

/-- The parts of a concatenation of terminated parts and a rest. -/
theorem terminated_flatMap {ls : List (List α)} (h : ∀ l ∈ ls, sep ∉ l) {rest : List α}
    (hrest : sep ∉ rest) : terminated sep (ls.flatMap (fun l => l ++ [sep]) ++ rest) =
      (ls.map fun l => l ++ [sep], rest) := by
  induction ls with
  | nil => exact terminated_of_notMem hrest
  | cons l ls ih =>
    rw [List.forall_mem_cons] at h
    rw [List.flatMap_cons, List.append_assoc, List.append_assoc, List.singleton_append,
      terminated_append_sep h.1, ih h.2, List.map_cons]

/-- Every list is a sequence of terminated parts and a rest. -/
theorem exists_terminated (sep : α) (s : List α) :
    ∃ (ls : List (List α)) (rest : List α), (∀ l ∈ ls, sep ∉ l) ∧ sep ∉ rest ∧
      s = ls.flatMap (fun l => l ++ [sep]) ++ rest ∧
        terminated sep s = (ls.map fun l => l ++ [sep], rest) := by
  induction hn : s.length using Nat.strong_induction_on generalizing s with
  | _ n ih =>
    by_cases h : sep ∈ s
    · obtain ⟨l, s', rfl, hl⟩ := List.eq_append_cons_of_mem h
      have hlt : s'.length < n := by
        rw [← hn, List.length_append, List.length_cons]
        omega
      obtain ⟨ls, rest, hls, hrest, heq, hparts⟩ := ih _ hlt s' rfl
      refine ⟨l :: ls, rest, List.forall_mem_cons.mpr ⟨hl, hls⟩, hrest, ?_, ?_⟩
      · rw [List.flatMap_cons, List.append_assoc, ← heq, List.append_assoc, List.singleton_append]
      · rw [terminated_append_sep hl, hparts, List.map_cons]
    · exact ⟨[], s, by simp, h, rfl, terminated_of_notMem h⟩

end BuildYourOwnStuff.Foundations
