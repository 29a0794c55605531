import Mathlib.Tactic

/-!
# What has held since

`Since P Q l` says of a history `l` that something with `P` has happened and
nothing with `Q` after it.
-/

namespace BuildYourOwnStuff.Foundations

variable {α : Type*} {P Q : α → Prop}

/-- Some element has `P`, and none after it has `Q`. -/
def Since (P Q : α → Prop) (l : List α) : Prop :=
  ∃ pre a post, l = pre ++ a :: post ∧ P a ∧ ∀ b ∈ post, ¬ Q b

@[simp] theorem not_since_nil : ¬ Since P Q [] := by
  rintro ⟨pre, a, post, h, -⟩
  simp at h

/-- One more element starts the condition, or leaves it if it does not end it. -/
theorem since_concat {l : List α} {a : α} :
    Since P Q (l ++ [a]) ↔ P a ∨ Since P Q l ∧ ¬ Q a := by
  constructor
  · rintro ⟨pre, b, post, heq, hb, hpost⟩
    rcases List.eq_nil_or_concat post with rfl | ⟨post, c, rfl⟩
    · obtain rfl := List.singleton_inj.mp (List.append_inj' heq rfl).2
      exact .inl hb
    · rw [List.concat_eq_append, ← List.cons_append, ← List.append_assoc] at heq
      obtain ⟨rfl, hc⟩ := List.append_inj' heq rfl
      obtain rfl := List.singleton_inj.mp hc
      rw [List.concat_eq_append, List.forall_mem_append] at hpost
      exact .inr ⟨⟨pre, b, post, rfl, hb, hpost.1⟩, hpost.2 a (List.mem_singleton_self a)⟩
  · rintro (ha | ⟨⟨pre, b, post, rfl, hb, hpost⟩, ha⟩)
    · exact ⟨l, a, [], rfl, ha, by simp⟩
    · refine ⟨pre, b, post ++ [a], by simp, hb, ?_⟩
      rw [List.forall_mem_append]
      exact ⟨hpost, by simpa using ha⟩

/-- Elements that neither start nor end the condition do not change it. -/
theorem since_append {l post : List α} (hpost : ∀ a ∈ post, ¬ P a ∧ ¬ Q a) :
    Since P Q (l ++ post) ↔ Since P Q l := by
  induction post using List.reverseRecOn with
  | nil => rw [List.append_nil]
  | append_singleton post a ih =>
    rw [List.forall_mem_append, List.forall_mem_singleton] at hpost
    rw [← List.append_assoc, since_concat, ih hpost.1]
    simp [hpost.2]

end BuildYourOwnStuff.Foundations
