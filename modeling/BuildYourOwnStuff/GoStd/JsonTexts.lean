import BuildYourOwnStuff.GoStd.JsonScanner

/-!
# Where a JSON text ends

A text that begins with an object is complete only after the brace that closes
the object, and only space may follow. So a proper prefix of such a text is not
a JSON text, and an object written right after such a prefix does not make it one.
-/

namespace BuildYourOwnStuff.GoStd.Json

open Foundations

namespace Scanner

/-- A container is open, or a value is complete. -/
def Opened (s : Scanner) : Prop := s.frames ≠ [] ∨ ∃ value, s.mode = .endValue value

/-- After a complete value, a container is still open or the next value is complete. -/
theorem opened_endValue {value : Value} {frames : List Frame} {c : UInt8} {s' : Scanner}
    (h : endValue value frames c = some s') : s'.Opened := by
  unfold endValue at h
  by_cases hc : isSpace c = true
  · rw [if_pos hc] at h
    cases h
    exact .inr ⟨value, rfl⟩
  · rw [if_neg hc] at h
    rcases frames with _ | ⟨members | ⟨members, key⟩ | elements, frames⟩ <;> dsimp only at h
    · cases h
    · split at h
      · split_ifs at h
        cases h
        exact .inl (List.cons_ne_nil _ _)
      · cases h
    · split_ifs at h <;> cases h
      · exact .inl (List.cons_ne_nil _ _)
      · exact .inr ⟨_, rfl⟩
    · split_ifs at h <;> cases h
      · exact .inl (List.cons_ne_nil _ _)
      · exact .inr ⟨_, rfl⟩

section Inside

variable {frames : List Frame} (hne : frames ≠ []) {c : UInt8} {s' : Scanner}

include hne

theorem opened_beginValue (h : beginValue frames c = some s') : s'.Opened := by
  refine .inl ?_
  unfold beginValue push at h
  split_ifs at h <;> cases h
  all_goals first
    | exact hne
    | exact List.cons_ne_nil _ _

theorem opened_beginString (h : beginString frames c = some s') : s'.Opened := by
  refine .inl ?_
  unfold beginString at h
  split_ifs at h <;> cases h <;> exact hne

theorem opened_integerEnd (h : integerEnd frames c = some s') : s'.Opened := by
  unfold integerEnd at h
  split_ifs at h
  · cases h
    exact .inl hne
  · cases h
    exact .inl hne
  · exact opened_endValue h

theorem opened_number {state : NumberState} (h : number state frames c = some s') :
    s'.Opened := by
  unfold number at h
  cases state <;> dsimp only at h
  case zero => exact opened_integerEnd hne h
  all_goals split_ifs at h
  all_goals first
    | exact opened_endValue h
    | exact opened_integerEnd hne h
    | cases h
      exact .inl hne

end Inside

/-- Once a container is open, one is open or the text is complete. -/
theorem opened_step {s s' : Scanner} {c : UInt8} (hs : s.Opened) (h : s.step c = some s') :
    s'.Opened := by
  rcases hs with hne | ⟨value, hmode⟩
  · obtain ⟨mode, frames⟩ := s
    cases mode <;> simp only [step] at h
    case beginValue => exact opened_beginValue hne h
    case beginValueOrEmpty =>
      split_ifs at h
      · cases h
        exact .inl hne
      · split at h <;> cases h
        exact .inr ⟨_, rfl⟩
      · exact opened_beginValue hne h
    case beginString => exact opened_beginString hne h
    case beginStringOrEmpty =>
      split_ifs at h
      · cases h
        exact .inl hne
      · split at h <;> cases h
        exact .inr ⟨_, rfl⟩
      · exact opened_beginString hne h
    case inString => split_ifs at h <;> cases h <;> exact .inl hne
    case inStringEsc => split_ifs at h <;> cases h <;> exact .inl hne
    case inStringEscU => split_ifs at h <;> cases h <;> exact .inl hne
    case number => exact opened_number hne h
    case word => split_ifs at h <;> cases h <;> exact .inl hne
    case endValue => exact opened_endValue h
  · rw [step, hmode] at h
    exact opened_endValue h

theorem opened_run {s s' : Scanner} {text : Bytes} (hs : s.Opened) (h : s.run text = some s') :
    s'.Opened := by
  induction text generalizing s with
  | nil =>
    cases h
    exact hs
  | cons c text ih =>
    rw [run_cons, Option.bind_eq_some_iff] at h
    obtain ⟨s₁, hstep, hrun⟩ := h
    exact ih (opened_step hs hstep) hrun

/-- A space neither opens nor closes a container. -/
theorem frames_of_step_space {s s' : Scanner} (h : s.step 0x20 = some s') :
    s'.frames = s.frames := by
  have hend : ∀ {value : Value} {frames : List Frame} {t : Scanner},
      endValue value frames 0x20 = some t → t.frames = frames := by
    intro value frames t ht
    cases ht
    rfl
  obtain ⟨mode, frames⟩ := s
  cases mode
  case beginValue => cases h; rfl
  case beginValueOrEmpty => cases h; rfl
  case beginString => cases h; rfl
  case beginStringOrEmpty => cases h; rfl
  case inString => cases h; rfl
  case inStringEsc => cases h
  case inStringEscU => cases h
  case number state => cases state <;> first | exact hend h | cases h
  case word =>
    simp only [step] at h
    split_ifs at h <;> cases h <;> rfl
  case endValue => exact hend h

theorem frames_of_finish {s : Scanner} {value : Value} (h : s.finish = some value) :
    s.frames = [] := by
  unfold finish at h
  split at h
  · rename_i hstep
    exact (frames_of_step_space hstep).symm
  · cases h

/-- A byte that neither separates values nor closes a container. -/
def StartsValue (c : UInt8) : Prop :=
  isSpace c = false ∧ c ≠ colon ∧ c ≠ comma ∧ c ≠ closeBrace ∧ c ≠ closeBracket

instance (c : UInt8) : Decidable (StartsValue c) := inferInstanceAs (Decidable (_ ∧ _))

/-- No value follows a value without a separator. -/
theorem endValue_eq_none {c : UInt8} (hc : StartsValue c) (value : Value) (frames : List Frame) :
    endValue value frames c = none := by
  obtain ⟨hspace, hcolon, hcomma, hbrace, hbracket⟩ := hc
  unfold endValue
  rw [if_neg (by simp [hspace])]
  rcases frames with _ | ⟨members | ⟨members, key⟩ | elements, frames⟩ <;> dsimp only
  · cases value <;> simp [hcolon]
  · rw [if_neg hcomma, if_neg hbrace]
  · rw [if_neg hcomma, if_neg hbracket]

/-- Where no value is expected, an opening brace is part of a string or an error. -/
theorem step_openBrace {s : Scanner} (hs : s.mode ≠ .beginValue)
    (hs' : s.mode ≠ .beginValueOrEmpty) :
    s.step openBrace = none ∨ ∃ literal, s.step openBrace = some ⟨.inString literal, s.frames⟩ := by
  have hend : ∀ value frames, endValue value frames openBrace = none :=
    endValue_eq_none (by decide)
  obtain ⟨mode, frames⟩ := s
  cases mode
  case beginValue => exact absurd rfl hs
  case beginValueOrEmpty => exact absurd rfl hs'
  case beginString => exact .inl rfl
  case beginStringOrEmpty => exact .inl rfl
  case inString literal => exact .inr ⟨literal ++ [openBrace], rfl⟩
  case inStringEsc => exact .inl rfl
  case inStringEscU => exact .inl rfl
  case number state =>
    have hnumber : number state frames openBrace = none ∨
        number state frames openBrace = endValue .number frames openBrace := by
      cases state <;> first | exact .inl rfl | exact .inr rfl
    rw [hend, or_self] at hnumber
    exact .inl hnumber
  case word word read =>
    have hmem : openBrace ∉ word.text := by cases word <;> decide
    refine .inl (if_neg fun hget => hmem (List.mem_of_getElem? hget))
  case endValue value => exact .inl (hend value frames)

/-- The text of a value, wherever a value is expected and not too deep. -/
def ReadsAs (text : Bytes) (value : Value) : Prop :=
  ∀ frames : List Frame, frames.length < maxNestingDepth →
    run ⟨.beginValue, frames⟩ text = some ⟨.endValue value, frames⟩

/-- An object after an unfinished or a finished text does not complete it. -/
theorem finish_run_object {s t : Scanner} {c : UInt8} {text : Bytes} {value : Value}
    (hs : s.Opened) (hc : StartsValue c)
    (htext : ReadsAs (openBrace :: quote :: c :: text) value)
    (h : s.run (openBrace :: quote :: c :: text) = some t) : t.finish = none := by
  by_cases hbegin : s.mode = .beginValue ∨ s.mode = .beginValueOrEmpty
  · have hfirst : s.step openBrace = step ⟨.beginValue, s.frames⟩ openBrace := by
      rcases hbegin with hmode | hmode <;> rw [step, hmode] <;> rfl
    have hne : s.frames ≠ [] := by
      rcases hs with hne | ⟨v, hv⟩
      · exact hne
      · rcases hbegin with hmode | hmode <;> rw [hmode] at hv <;> cases hv
    rw [run_cons, hfirst, ← run_cons] at h
    by_cases hdepth : s.frames.length < maxNestingDepth
    · rw [htext s.frames hdepth] at h
      cases h
      by_contra hfinish
      obtain ⟨v, hv⟩ := Option.ne_none_iff_exists'.mp hfinish
      have hframes := frames_of_finish hv
      exact hne hframes
    · have hpush : step ⟨.beginValue, s.frames⟩ openBrace = none := by
        change push .beginStringOrEmpty (.objectKey []) s.frames = none
        exact if_neg (by omega)
      rw [run_cons, hpush] at h
      cases h
  · rw [not_or] at hbegin
    rw [run_cons] at h
    rcases step_openBrace hbegin.1 hbegin.2 with hstep | ⟨literal, hstep⟩
    · rw [hstep] at h
      cases h
    · have hquote : step ⟨.inString literal, s.frames⟩ quote =
          some ⟨.endValue (.string literal), s.frames⟩ := rfl
      have hnext : step ⟨.endValue (.string literal), s.frames⟩ c = none :=
        endValue_eq_none hc _ _
      rw [hstep, Option.bind_some, run_cons, hquote, Option.bind_some, run_cons, hnext] at h
      cases h

/-- Only space may follow a complete text. -/
theorem isSpace_of_run {value : Value} {text : Bytes} {s' : Scanner}
    (h : run ⟨.endValue value, []⟩ text = some s') : ∀ c ∈ text, isSpace c = true := by
  induction text with
  | nil => simp
  | cons c text ih =>
    rw [run_cons, Option.bind_eq_some_iff] at h
    obtain ⟨s₁, hstep, hrun⟩ := h
    simp only [step, endValue] at hstep
    split_ifs at hstep with hc
    cases hstep
    exact List.forall_mem_cons.mpr ⟨hc, ih hrun⟩

end Scanner

open Scanner

theorem parse_nil : parse [] = none := rfl

theorem parse_eq_some {text : Bytes} {value : Value} :
    parse text = some value ↔ ∃ s, start.run text = some s ∧ s.finish = some value :=
  Option.bind_eq_some_iff

theorem opened_of_openBrace {text : Bytes} {s : Scanner}
    (h : start.run (openBrace :: text) = some s) : s.Opened := by
  have hfirst : start.step openBrace = some ⟨.beginStringOrEmpty, [.objectKey []]⟩ := rfl
  rw [run_cons, hfirst] at h
  exact opened_run (.inl (List.cons_ne_nil _ _)) h

/-- What follows a complete prefix of a text that begins with an object is space. -/
theorem isSpace_of_isPrefix {u w : Bytes} {value value' : Value}
    (hu : parse (openBrace :: u) = some value) (hw : parse (openBrace :: u ++ w) = some value') :
    ∀ c ∈ w, isSpace c = true := by
  obtain ⟨s, hrun, hfinish⟩ := parse_eq_some.mp hu
  obtain ⟨t, hrun', -⟩ := parse_eq_some.mp hw
  rw [run_append, hrun, Option.bind_some] at hrun'
  have hframes := frames_of_finish hfinish
  rcases opened_of_openBrace hrun with hne | ⟨v, hmode⟩
  · exact absurd hframes hne
  · obtain ⟨mode, frames⟩ := s
    dsimp only at hframes hmode
    subst hframes hmode
    exact isSpace_of_run hrun'

/-- A proper prefix of an object is not a JSON text. -/
theorem parse_of_isPrefix {text u : Bytes} {value : Value} (htext : parse text = some value)
    (hfirst : text.head? = some openBrace) (hlast : text.getLast? = some closeBrace)
    (hu : u <+: text) (hne : u ≠ text) : parse u = none := by
  obtain ⟨w, rfl⟩ := hu
  cases u with
  | nil => exact parse_nil
  | cons c u =>
    rw [List.cons_append, List.head?_cons, Option.some_inj] at hfirst
    subst hfirst
    cases hparse : parse (openBrace :: u) with
    | none => rfl
    | some v =>
      have hspace := isSpace_of_isPrefix hparse htext
      have hw : w ≠ [] := by
        rintro rfl
        exact hne (List.append_nil _).symm
      rw [List.getLast?_append_of_ne_nil _ hw] at hlast
      have hmem := List.mem_of_getLast? hlast
      exact absurd (hspace closeBrace hmem) (by decide)

/-- An object directly after the beginning of an object does not complete it. -/
theorem parse_append_object {u text : Bytes} {c : UInt8} {value : Value} (hc : StartsValue c)
    (htext : ReadsAs (openBrace :: quote :: c :: text) value)
    (hfirst : u.head? = some openBrace) :
    parse (u ++ openBrace :: quote :: c :: text) = none := by
  obtain ⟨u', rfl⟩ : ∃ u', u = openBrace :: u' := by
    cases u with
    | nil => cases hfirst
    | cons b u' =>
      cases hfirst
      exact ⟨u', rfl⟩
  rw [parse, run_append]
  cases hrun : start.run (openBrace :: u') with
  | none => rfl
  | some s =>
    have hs := opened_of_openBrace hrun
    rw [Option.bind_some]
    cases hrest : s.run (openBrace :: quote :: c :: text) with
    | none => rfl
    | some t => exact finish_run_object hs hc htext hrest

theorem parse_of_readsAs {text : Bytes} {value : Value} (h : ReadsAs text value) :
    parse text = some value := by
  have hrun : start.run text = some ⟨.endValue value, []⟩ := h [] (by decide)
  exact parse_eq_some.mpr ⟨_, hrun, rfl⟩

end BuildYourOwnStuff.GoStd.Json
