import Mathlib.Data.List.TakeWhile
import Mathlib.Data.Nat.Notation
import Mathlib.Tactic

/-!
# Longest match

A text is cut from left to right into segments, each the longest one that starts
where it does. `Seg k w r` says that `w` is a segment of kind `k` when `r` comes
after it. If segments are not empty and have one kind each, a text is cut in at most
one way.
-/

namespace BuildYourOwnStuff.Foundations

variable {α κ : Type*} {Seg : κ → List α → List α → Prop} {k k' : κ} {w w' r r' : List α}

/-- No segment that starts at the same place is longer. -/
structure IsLongest (Seg : κ → List α → List α → Prop) (k : κ) (w r : List α) : Prop where
  segment : Seg k w r
  longest : ∀ k' w' r', w' ++ r' = w ++ r → Seg k' w' r' → w'.length ≤ w.length

/-- The cut of a text into longest segments. -/
inductive Decomposition (Seg : κ → List α → List α → Prop) : List α → List (κ × List α) → Prop
  | nil : Decomposition Seg [] []
  | cons {k : κ} {w r : List α} {segments : List (κ × List α)} (first : IsLongest Seg k w r)
      (rest : Decomposition Seg r segments) : Decomposition Seg (w ++ r) ((k, w) :: segments)

theorem IsLongest.unique (hkind : ∀ k k' w r, Seg k w r → Seg k' w r → k = k')
    (h : IsLongest Seg k w r) (h' : IsLongest Seg k' w' r') (htext : w ++ r = w' ++ r') :
    k = k' ∧ w = w' ∧ r = r' := by
  have hlength : w.length = w'.length :=
    le_antisymm (h'.longest k w r htext h.segment) (h.longest k' w' r' htext.symm h'.segment)
  obtain ⟨rfl, rfl⟩ := List.append_inj htext hlength
  exact ⟨hkind k k' w r h.segment h'.segment, rfl, rfl⟩

theorem Decomposition.unique (hne : ∀ k w r, Seg k w r → w ≠ [])
    (hkind : ∀ k k' w r, Seg k w r → Seg k' w r → k = k') {text : List α}
    {segments segments' : List (κ × List α)} (h : Decomposition Seg text segments)
    (h' : Decomposition Seg text segments') : segments = segments' := by
  induction h generalizing segments' with
  | nil =>
    generalize htext : ([] : List α) = text at h'
    cases h' with
    | nil => rfl
    | cons first rest =>
      exact absurd (List.append_eq_nil_iff.mp htext.symm).1 (hne _ _ _ first.segment)
  | cons first rest ih =>
    rename_i k w r segments
    generalize htext : w ++ r = text at h'
    cases h' with
    | nil => exact absurd (List.append_eq_nil_iff.mp htext).1 (hne _ _ _ first.segment)
    | cons first' rest' =>
      obtain ⟨rfl, rfl, rfl⟩ := first.unique hkind first' htext
      rw [ih rest']

/-- The segments are all of the text. -/
theorem Decomposition.flatMap_snd {text : List α} {segments : List (κ × List α)}
    (h : Decomposition Seg text segments) : segments.flatMap Prod.snd = text := by
  induction h with
  | nil => rfl
  | cons _ _ ih => rw [List.flatMap_cons, ih]

theorem Decomposition.segment_of_mem {text : List α} {segments : List (κ × List α)}
    (h : Decomposition Seg text segments) {p : κ × List α} (hp : p ∈ segments) :
    ∃ r, Seg p.1 p.2 r := by
  induction h with
  | nil => cases hp
  | cons first _ ih =>
    rcases List.mem_cons.mp hp with rfl | hp
    · exact ⟨_, first.segment⟩
    · exact ih hp

/-- A text is cut if each nonempty text starts with a longest segment. -/
theorem exists_decomposition (hne : ∀ k w r, Seg k w r → w ≠ [])
    (hfirst : ∀ text, text ≠ [] → ∃ k w r, text = w ++ r ∧ IsLongest Seg k w r)
    (text : List α) : ∃ segments, Decomposition Seg text segments := by
  induction hn : text.length using Nat.strong_induction_on generalizing text with
  | _ n ih =>
    rcases eq_or_ne text [] with rfl | htext
    · exact ⟨[], .nil⟩
    · obtain ⟨k, w, r, rfl, hlongest⟩ := hfirst text htext
      have hpos := List.length_pos_iff.mpr (hne k w r hlongest.segment)
      rw [List.length_append] at hn
      obtain ⟨segments, hrest⟩ := ih r.length (by omega) r rfl
      exact ⟨_, .cons hlongest hrest⟩

/-- Items that satisfy `p` do not go past a place where the next item does not. -/
theorem length_le_of_boundary {p : α → Prop} (htext : w' ++ r' = w ++ r) (hw' : ∀ a ∈ w', p a)
    (hr : ∀ a ∈ r.head?, ¬ p a) : w'.length ≤ w.length := by
  by_contra hlt
  rcases List.append_eq_append_iff.mp htext with ⟨t, rfl, -⟩ | ⟨t, rfl, ht⟩
  · rw [List.length_append] at hlt
    omega
  · rcases t with _ | ⟨a, t⟩
    · rw [List.append_nil] at hlt
      exact hlt le_rfl
    · exact hr a (by rw [ht]; rfl) (hw' a (by simp))

theorem exists_boundary (p : α → Prop) [DecidablePred p] (text : List α) :
    ∃ w r, text = w ++ r ∧ (∀ a ∈ w, p a) ∧ ∀ a ∈ r.head?, ¬ p a := by
  refine ⟨text.takeWhile p, text.dropWhile p, List.takeWhile_append_dropWhile.symm,
    fun a ha => ?_, fun a ha hp => ?_⟩
  · simpa using List.mem_takeWhile_imp ha
  have hhead := List.head?_dropWhile_not p text
  rw [Option.mem_def.mp ha] at hhead
  simp [hp] at hhead

/-- A text has one longest start of items that satisfy `p`. -/
theorem append_inj_of_boundary {p : α → Prop} (htext : w' ++ r' = w ++ r) (hw : ∀ a ∈ w, p a)
    (hw' : ∀ a ∈ w', p a) (hr : ∀ a ∈ r.head?, ¬ p a) (hr' : ∀ a ∈ r'.head?, ¬ p a) :
    w' = w ∧ r' = r :=
  List.append_inj htext (le_antisymm (length_le_of_boundary htext hw' hr)
    (length_le_of_boundary htext.symm hw hr'))

end BuildYourOwnStuff.Foundations
