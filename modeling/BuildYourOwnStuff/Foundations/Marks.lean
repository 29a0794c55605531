import Mathlib.Data.List.Basic
import Mathlib.Data.Set.Lattice
import Mathlib.Tactic

/-!
# Marks in an array

An array of booleans stands for the set of positions at which it is `true`.
Marking positions one after another adds them to the set, in whatever order and
however often.
-/

namespace BuildYourOwnStuff.Foundations

/-- The positions that are marked. -/
def marks (bits : List Bool) : Set ℕ := {j | bits[j]? = some true}

theorem mem_marks {bits : List Bool} {j : ℕ} : j ∈ marks bits ↔ bits[j]? = some true := Iff.rfl

/-- Mark some positions; those outside the array are left out. -/
def mark (bits : List Bool) (js : List ℕ) : List Bool :=
  js.foldl (fun bits j => bits.set j true) bits

@[simp] theorem mark_nil (bits : List Bool) : mark bits [] = bits := rfl

@[simp] theorem mark_cons (bits : List Bool) (j : ℕ) (js : List ℕ) :
    mark bits (j :: js) = mark (bits.set j true) js := rfl

@[simp] theorem length_mark (bits : List Bool) (js : List ℕ) :
    (mark bits js).length = bits.length := by
  induction js generalizing bits with
  | nil => rfl
  | cons j js ih => rw [mark_cons, ih, List.length_set]

theorem mark_append (bits : List Bool) (js ks : List ℕ) :
    mark bits (js ++ ks) = mark (mark bits js) ks := List.foldl_append

theorem mem_marks_set {bits : List Bool} {j : ℕ} (hj : j < bits.length) (k : ℕ) :
    k ∈ marks (bits.set j true) ↔ k = j ∨ k ∈ marks bits := by
  rw [mem_marks, mem_marks, List.getElem?_set]
  split_ifs with hjk
  · simp [hjk]
  · simp [Ne.symm hjk]

theorem marks_mark {bits : List Bool} {js : List ℕ} (h : ∀ j ∈ js, j < bits.length) :
    marks (mark bits js) = marks bits ∪ {j | j ∈ js} := by
  induction js generalizing bits with
  | nil => simp
  | cons j js ih =>
    rw [List.forall_mem_cons] at h
    rw [mark_cons, ih (by simpa using h.2)]
    ext k
    simp only [Set.mem_union, mem_marks_set h.1, Set.mem_ofPred_eq, List.mem_cons]
    tauto

theorem marks_replicate_false (n : ℕ) : marks (List.replicate n false) = ∅ := by
  ext j
  simp [marks, List.getElem?_replicate]

/-- An array is determined by its length and its marks. -/
theorem eq_of_marks {bits bits' : List Bool} (hlen : bits.length = bits'.length)
    (h : marks bits = marks bits') : bits = bits' := by
  refine List.ext_getElem hlen fun j hj hj' => ?_
  have hmem : j ∈ marks bits ↔ j ∈ marks bits' := by rw [h]
  simpa [marks, hj, hj'] using hmem

end BuildYourOwnStuff.Foundations
