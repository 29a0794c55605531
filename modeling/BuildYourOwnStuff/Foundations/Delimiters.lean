import Mathlib.Data.List.Basic
import Mathlib.Tactic

/-!
# Parts between delimiters

A text is divided at the occurrences of a delimiter of several elements. Parts that do
not have the first element of the delimiter are found again; a second delimiter that
follows the first one divides the text after the parts.
-/

namespace BuildYourOwnStuff.Foundations

variable {α : Type*} [DecidableEq α] {a : α} {d l : List α} {ls : List (List α)}

/-- What comes before and after the first occurrence of a delimiter, if there is one. -/
def cutAt (delim : List α) : List α → Option (List α × List α)
  | [] => if delim = [] then some ([], []) else none
  | a :: s =>
    if delim <+: a :: s then some ([], (a :: s).drop delim.length)
    else (cutAt delim s).map fun parts => (a :: parts.1, parts.2)

theorem eq_append_of_cutAt {delim s before after : List α}
    (h : cutAt delim s = some (before, after)) : s = before ++ delim ++ after := by
  induction s generalizing before with
  | nil =>
    rw [cutAt] at h
    split_ifs at h with hnil
    cases h
    rw [hnil]
    rfl
  | cons a s ih =>
    rw [cutAt] at h
    split_ifs at h with hdelim
    · cases h
      obtain ⟨t, ht⟩ := hdelim
      rw [← ht, List.drop_left, List.nil_append]
    · obtain ⟨⟨before', after'⟩, hcut, heq⟩ := Option.map_eq_some_iff.mp h
      cases heq
      rw [ih hcut, List.cons_append, List.cons_append]

theorem length_of_cutAt {s before after : List α}
    (h : cutAt (a :: d) s = some (before, after)) : after.length < s.length := by
  rw [eq_append_of_cutAt h]
  simp only [List.length_append, List.length_cons]
  omega

/-- The parts of a text between delimiters. -/
def partsAt (a : α) (d s : List α) : List (List α) :=
  match h : cutAt (a :: d) s with
  | none => [s]
  | some (before, after) =>
    have := length_of_cutAt h
    before :: partsAt a d after
termination_by s.length

theorem cutAt_append_self (s : List α) : cutAt (a :: d) (a :: d ++ s) = some ([], s) := by
  rw [List.cons_append, cutAt, if_pos ⟨s, rfl⟩, ← List.cons_append, List.drop_left]

/-- Where the delimiter cannot begin, it is not found. -/
theorem cutAt_append (h : a ∉ l) (s : List α) :
    cutAt (a :: d) (l ++ s) = (cutAt (a :: d) s).map fun parts => (l ++ parts.1, parts.2) := by
  induction l with
  | nil => exact Option.map_id'.symm
  | cons b l ih =>
    rw [List.mem_cons, not_or] at h
    have hfirst : ¬ a :: d <+: b :: (l ++ s) := fun hdelim =>
      h.1 (List.cons_prefix_cons.mp hdelim).1
    rw [List.cons_append, cutAt, if_neg hfirst, ih h.2, Option.map_map]
    rfl

theorem cutAt_of_notMem (h : a ∉ l) : cutAt (a :: d) l = none := by
  rw [← List.append_nil l, cutAt_append h]
  rfl

theorem partsAt_of_notMem (h : a ∉ l) : partsAt a d l = [l] := by
  rw [partsAt]
  split
  · rfl
  · rename_i hcut
    rw [cutAt_of_notMem h] at hcut
    cases hcut

theorem partsAt_append (h : a ∉ l) (s : List α) :
    partsAt a d (l ++ a :: d ++ s) = l :: partsAt a d s := by
  have hcut : cutAt (a :: d) (l ++ a :: d ++ s) = some (l, s) := by
    rw [List.append_assoc, cutAt_append h, cutAt_append_self]
    simp
  rw [partsAt]
  split
  · rename_i hnone
    rw [hcut] at hnone
    cases hnone
  · rename_i hsome
    rw [hcut] at hsome
    cases hsome
    rfl

/-- The parts are those that were joined. -/
theorem partsAt_intercalate (hne : ls ≠ []) (hls : ∀ l ∈ ls, a ∉ l) :
    partsAt a d ((a :: d).intercalate ls) = ls := by
  induction ls with
  | nil => exact absurd rfl hne
  | cons l ls ih =>
    rw [List.forall_mem_cons] at hls
    rcases ls with _ | ⟨l', ls⟩
    · rw [List.intercalate_singleton, partsAt_of_notMem hls.1]
    · rw [List.intercalate_cons_cons, partsAt_append hls.1, ih (List.cons_ne_nil _ _) hls.2]

/-- A delimiter is not the first of two in a row if a part comes next. -/
theorem cutAt_single {b : α} (ha : a ∉ d) (hb : a ≠ b) (t : List α) :
    cutAt (a :: (d ++ a :: d)) (a :: (d ++ b :: t)) =
      (cutAt (a :: (d ++ a :: d)) (b :: t)).map fun parts => (a :: d ++ parts.1, parts.2) := by
  have hfirst : ¬ a :: (d ++ a :: d) <+: a :: (d ++ b :: t) := by
    rw [List.cons_prefix_cons, List.prefix_append_right_inj, List.cons_prefix_cons]
    exact fun hdelim => hb hdelim.2.1
  rw [cutAt, if_neg hfirst, cutAt_append ha, Option.map_map]
  rfl

/-- The first two delimiters in a row are those after the parts. -/
theorem cutAt_intercalate (ha : a ∉ d) (hne : ls ≠ []) (hls : ∀ l ∈ ls, l ≠ [] ∧ a ∉ l)
    (s : List α) : cutAt (a :: (d ++ a :: d))
      ((a :: d).intercalate ls ++ a :: (d ++ a :: d) ++ s) =
        some ((a :: d).intercalate ls, s) := by
  induction ls with
  | nil => exact absurd rfl hne
  | cons l ls ih =>
    rw [List.forall_mem_cons] at hls
    rcases ls with _ | ⟨l', ls⟩
    · rw [List.intercalate_singleton, List.append_assoc, cutAt_append hls.1.2, cutAt_append_self]
      simp
    · have htail := ih (List.cons_ne_nil _ _) hls.2
      obtain ⟨hl', ha'⟩ := hls.2 l' List.mem_cons_self
      obtain ⟨b, t, rfl⟩ := List.exists_cons_of_ne_nil hl'
      rw [List.mem_cons, not_or] at ha'
      rw [List.intercalate_cons_cons_left, List.cons_append, List.cons_append] at htail
      have htext : (a :: d).intercalate (l :: (b :: t) :: ls) ++ a :: (d ++ a :: d) ++ s =
          l ++ a :: (d ++ b :: ((a :: d).intercalate (t :: ls) ++ a :: (d ++ a :: d) ++ s)) := by
        simp
      rw [htext, cutAt_append hls.1.2, cutAt_single ha ha'.1, htail]
      simp

end BuildYourOwnStuff.Foundations
