import BuildYourOwnStuff.Foundations.LongestMatch

/-!
# Lexers made of rules

The next lexeme of a text is the longest start of it that some rule matches, and its
rule is the first one that does. These lexemes are the longest segments of the text.
-/

namespace BuildYourOwnStuff.Foundations

variable {α κ : Type*} {rules : List κ} {pattern : κ → List α → Bool}

/-- The first rule that matches the lexeme. -/
def RuleSegment (rules : List κ) (pattern : κ → List α → Bool) (k : κ) (w _r : List α) : Prop :=
  w ≠ [] ∧ rules.find? (fun k => pattern k w) = some k

/-- The lexeme among the first `n` items; longer ones are tried first. -/
def lexemeUpTo (rules : List κ) (pattern : κ → List α → Bool) (text : List α) :
    ℕ → Option (κ × List α × List α)
  | 0 => none
  | n + 1 =>
    match rules.find? fun k => pattern k (text.take (n + 1)) with
    | some k => some (k, text.take (n + 1), text.drop (n + 1))
    | none => lexemeUpTo rules pattern text n

/-- The next lexeme with its rule, and the rest of the text. -/
def nextLexeme (rules : List κ) (pattern : κ → List α → Bool) (text : List α) :
    Option (κ × List α × List α) :=
  lexemeUpTo rules pattern text text.length

theorem RuleSegment.kind_unique (k k' : κ) (w r : List α) (h : RuleSegment rules pattern k w r)
    (h' : RuleSegment rules pattern k' w r) : k = k' :=
  Option.some_injective _ (h.2.symm.trans h'.2)

theorem lexemeUpTo_of_isLongest {k : κ} {w r : List α}
    (h : IsLongest (RuleSegment rules pattern) k w r) {n : ℕ} (hn : w.length ≤ n)
    (hle : n ≤ (w ++ r).length) :
    lexemeUpTo rules pattern (w ++ r) n = some (k, w, r) := by
  induction n with
  | zero => exact absurd (List.length_eq_zero_iff.mp (Nat.le_zero.mp hn)) h.segment.1
  | succ n ih =>
    rcases hn.eq_or_lt with heq | hlt
    · rw [lexemeUpTo, ← heq, List.take_left, List.drop_left, h.segment.2]
    · have hnone : rules.find? (fun k => pattern k ((w ++ r).take (n + 1))) = none := by
        by_contra hsome
        obtain ⟨k', hk'⟩ := Option.ne_none_iff_exists'.mp hsome
        have hlength : ((w ++ r).take (n + 1)).length = n + 1 := List.length_take_of_le hle
        have hne : (w ++ r).take (n + 1) ≠ [] := List.ne_nil_of_length_eq_add_one hlength
        have hlongest := h.longest k' _ _ (List.take_append_drop (n + 1) (w ++ r)) ⟨hne, hk'⟩
        omega
      rw [lexemeUpTo, hnone]
      exact ih (Nat.le_of_lt_succ hlt) (by omega)

theorem nextLexeme_of_isLongest {k : κ} {w r : List α}
    (h : IsLongest (RuleSegment rules pattern) k w r) :
    nextLexeme rules pattern (w ++ r) = some (k, w, r) := by
  apply lexemeUpTo_of_isLongest h _ le_rfl
  rw [List.length_append]
  exact Nat.le_add_right _ _

theorem exists_isLongest {text : List α} (hne : text ≠ [])
    (hone : ∀ a, ∃ k ∈ rules, pattern k [a]) :
    ∃ k w r, text = w ++ r ∧ IsLongest (RuleSegment rules pattern) k w r := by
  classical
  let Matches (n : ℕ) : Prop := ∃ k, rules.find? (fun k => pattern k (text.take n)) = some k
  have hlength : 1 ≤ text.length := List.length_pos_iff.mpr hne
  have hfirst : Matches 1 := by
    obtain ⟨a, rest, rfl⟩ := List.exists_cons_of_ne_nil hne
    obtain ⟨k, hk, hmatch⟩ := hone a
    apply Option.isSome_iff_exists.mp
    rw [List.find?_isSome]
    exact ⟨k, hk, hmatch⟩
  obtain ⟨k, hk⟩ := Nat.findGreatest_spec hlength hfirst
  have hle : Nat.findGreatest Matches text.length ≤ text.length := Nat.findGreatest_le _
  have hpos : 1 ≤ Nat.findGreatest Matches text.length := Nat.le_findGreatest hlength hfirst
  refine ⟨k, text.take _, text.drop _, (List.take_append_drop _ text).symm, ⟨?_, hk⟩, ?_⟩
  · intro hnil
    have hzero := List.length_take_of_le hle
    rw [hnil, List.length_nil] at hzero
    omega
  · intro k' w' r' htext hsegment
    rw [List.take_append_drop] at htext
    rw [List.length_take_of_le hle]
    have hw' : text.take w'.length = w' := by rw [← htext, List.take_left]
    apply Nat.le_findGreatest
    · rw [← htext, List.length_append]
      exact Nat.le_add_right _ _
    · refine ⟨k', ?_⟩
      rw [hw']
      exact hsegment.2

/-- A text is cut by rules that match every single item. -/
theorem exists_rule_decomposition (hone : ∀ a, ∃ k ∈ rules, pattern k [a]) (text : List α) :
    ∃ segments, Decomposition (RuleSegment rules pattern) text segments :=
  exists_decomposition (fun _ _ _ h => h.1) (fun _ hne => exists_isLongest hne hone) text

theorem rule_decomposition_unique {text : List α} {segments segments' : List (κ × List α)}
    (h : Decomposition (RuleSegment rules pattern) text segments)
    (h' : Decomposition (RuleSegment rules pattern) text segments') : segments = segments' :=
  h.unique (fun _ _ _ h => h.1) RuleSegment.kind_unique h'

end BuildYourOwnStuff.Foundations
