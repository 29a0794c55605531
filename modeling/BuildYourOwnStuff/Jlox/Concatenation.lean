import BuildYourOwnStuff.Jlox.Scanning

/-!
# Sources with a newline between them

A newline ends every segment but a string, as the end of the source does. So if
no string is open at the end of a source, the segments of that source, the newline
and the segments of another source are those of the three together.
-/

namespace BuildYourOwnStuff.Jlox

open JavaStd Foundations

variable {kind : Kind} {lexeme rest a b : JString} {segments : List (Kind × JString)}

/-- Only quotes and the newline itself have a newline in them. -/
theorem Segment.start_of_newline_mem (h : Segment kind lexeme rest) (hmem : chr '\n' ∈ lexeme) :
    kind.start = .quote ∨ lexeme = [chr '\n'] := by
  have hdigit : ¬ Digit (chr '\n') := by decide
  have hletter : ¬ Letter (chr '\n') := by decide
  cases kind with
  | whitespace =>
    obtain ⟨c, -, rfl⟩ := h
    exact .inr (by rw [List.mem_singleton.mp hmem])
  | comment =>
    obtain ⟨body, rfl, hbody, -⟩ := h
    simp only [List.mem_cons, hbody, or_false] at hmem
    exact absurd hmem (by decide)
  | operator type =>
    have hnone : ∀ p ∈ operators, chr '\n' ∉ p.1 := by decide
    exact absurd hmem (hnone _ h)
  | string => exact .inl rfl
  | number =>
    obtain ⟨c, whole, hwhole, rfl | ⟨d, frac, hfrac, rfl⟩⟩ := h
    · exact absurd (hwhole _ hmem) hdigit
    · rcases List.mem_append.mp hmem with hmem | hmem
      · exact absurd (hwhole _ hmem) hdigit
      · rcases List.mem_cons.mp hmem with hpoint | hmem
        · exact absurd hpoint (by decide)
        · exact absurd (hfrac _ hmem) hdigit
  | word =>
    obtain ⟨c, body, rfl, hc, hbody⟩ := h
    rcases List.mem_cons.mp hmem with rfl | hmem
    · exact absurd hc hletter
    · exact absurd (hbody _ hmem) (by simp [hdigit, hletter])
  | unterminated => exact .inl rfl
  | unexpected =>
    obtain ⟨c, rfl, hc⟩ := h
    rw [← List.mem_singleton.mp hmem] at hc
    exact absurd (.inl (by decide)) hc

/-- A newline is as good as the end of the source. -/
theorem Segment.append_newline (h : Segment kind lexeme rest) (hkind : kind ≠ .unterminated) :
    Segment kind lexeme (rest ++ chr '\n' :: b) := by
  cases kind <;> try exact h
  · obtain ⟨body, hlexeme, hbody, hrest⟩ := h
    refine ⟨body, hlexeme, hbody, fun c hc => ?_⟩
    cases rest with
    | nil => exact (Option.some.inj hc).symm
    | cons d rest => exact hrest c hc
  · exact absurd rfl hkind

theorem Segment.of_append_newline (h : Segment kind lexeme (rest ++ chr '\n' :: b)) :
    Segment kind lexeme rest := by
  cases kind <;> try exact h
  · obtain ⟨body, hlexeme, hbody, hrest⟩ := h
    refine ⟨body, hlexeme, hbody, fun c hc => hrest c ?_⟩
    cases rest with
    | nil => cases hc
    | cons d rest => exact hc
  · obtain ⟨body, -, -, hrest⟩ := h
    simp at hrest

/-- A segment that is not an open string ends at a newline where it ends at the end of
the source. -/
theorem isLongest_append_newline (h : IsLongest Segment kind lexeme rest)
    (hkind : kind ≠ .unterminated) (b : JString) :
    IsLongest Segment kind lexeme (rest ++ chr '\n' :: b) := by
  by_cases hstring : kind = .string
  · subst hstring
    obtain ⟨body, rfl, hbody⟩ := h.segment
    exact isLongest_string hbody
  have hquote : kind.start ≠ .quote := by
    cases kind <;> simp_all [Kind.start]
  refine ⟨h.segment.append_newline hkind, fun kind' lexeme' rest' htext h' => ?_⟩
  have hstart := (h.segment.append_newline hkind).start_eq h' htext
  rw [← List.append_assoc] at htext
  rcases List.append_eq_append_iff.mp htext with ⟨t, ht, rfl⟩ | ⟨t, rfl, ht⟩
  · exact h.longest kind' lexeme' t ht.symm h'.of_append_newline
  · rcases t with _ | ⟨c, t⟩
    · rw [List.append_nil] at h'
      rw [List.nil_append] at ht
      rw [← ht] at h'
      have hsegment : Segment kind' (lexeme ++ rest) [] :=
        Segment.of_append_newline (by rwa [List.nil_append])
      rw [List.append_nil]
      exact h.longest kind' (lexeme ++ rest) [] (List.append_nil _) hsegment
    · obtain rfl : chr '\n' = c := (List.cons.inj ht).1
      rcases h'.start_of_newline_mem (by simp) with hq | hone
      · exact absurd (hstart ▸ hq) hquote
      · have hne := h.segment.ne_nil
        have hlength := congrArg List.length hone
        have hpos := List.length_pos_iff.mpr hne
        simp only [List.length_append, List.length_cons, List.length_nil] at hlength
        omega

/-- A source without an open string, a newline and another source. -/
theorem decomposition_append_newline {segments' : List (Kind × JString)}
    (ha : Decomposition Segment a segments) (hb : Decomposition Segment b segments')
    (hclosed : ∀ p ∈ segments, p.1 ≠ .unterminated) :
    Decomposition Segment (a ++ chr '\n' :: b)
      (segments ++ (.whitespace, [chr '\n']) :: segments') := by
  induction ha with
  | nil => exact .cons (isLongest_whitespace (by decide)) hb
  | cons first _ ih =>
    rw [List.forall_mem_cons] at hclosed
    rw [List.append_assoc]
    exact .cons (isLongest_append_newline first hclosed.1 b) (ih hclosed.2)

/-- A string that is open at the end of the first source is open at the end of the
whole or spans the newline. -/
theorem exists_open_append_newline (ha : Decomposition Segment a segments)
    (hopen : ∃ p ∈ segments, p.1 = .unterminated) (b : JString) :
    ∃ segments', Decomposition Segment (a ++ chr '\n' :: b) segments' ∧
      ∃ p ∈ segments', p.1 = .unterminated ∨ (p.1 = .string ∧ chr '\n' ∈ p.2) := by
  induction ha with
  | nil => simp at hopen
  | @cons kind lexeme rest segments first hrest ih =>
    by_cases hkind : kind = .unterminated
    · subst hkind
      obtain ⟨body, rfl, hbody, rfl⟩ := first.segment
      obtain ⟨w, r, rfl, hw, hr⟩ := exists_boundary (fun c => c ≠ chr '"') b
      have hnot : chr '"' ∉ body ++ chr '\n' :: w := by
        simp only [List.mem_append, List.mem_cons, not_or]
        exact ⟨hbody, by decide, fun hmem => hw _ hmem rfl⟩
      rcases r with _ | ⟨c, r⟩
      · refine ⟨[(.unterminated, chr '"' :: (body ++ chr '\n' :: w))], ?_, _,
          List.mem_singleton_self _, .inl rfl⟩
        have hdec := Decomposition.cons (isLongest_unterminated hnot) .nil
        simpa using hdec
      · obtain rfl : c = chr '"' := by simpa using hr c rfl
        obtain ⟨segments', hsegments'⟩ := Scanner.exists_segments r
        have hdec := Decomposition.cons (isLongest_string hnot) hsegments'
        have htext : chr '"' :: (body ++ chr '\n' :: w) ++ [chr '"'] ++ r =
            chr '"' :: body ++ [] ++ chr '\n' :: (w ++ chr '"' :: r) := by simp
        rw [htext] at hdec
        exact ⟨_, hdec, _, List.mem_cons_self, .inr ⟨rfl, by simp⟩⟩
    · have hopen' : ∃ p ∈ segments, p.1 = .unterminated := by simpa [hkind] using hopen
      obtain ⟨segments', hdec, p, hp, hspan⟩ := ih hopen'
      refine ⟨(kind, lexeme) :: segments', ?_, p, List.mem_cons_of_mem _ hp, hspan⟩
      rw [List.append_assoc]
      exact .cons (isLongest_append_newline first hkind b) hdec

section Lines

/-- The token some lines further down. -/
def Token.shift (n : ℕ) (t : Token) : Token := { t with line := t.line + n }

/-- The error some lines further down. -/
def LoxError.shift (n : ℕ) (e : LoxError) : LoxError := { e with line := e.line + n }

/-- The line in which segments end that start in a line. -/
def endLine (line : ℕ) (segments : List (Kind × JString)) : ℕ :=
  line + (segments.flatMap Prod.snd).count (chr '\n')

theorem endLine_cons (line : ℕ) (segment : Kind × JString) (segments : List (Kind × JString)) :
    endLine line (segment :: segments) = endLine (line + segment.2.count (chr '\n')) segments := by
  rw [endLine, endLine, List.flatMap_cons, List.count_append, Nat.add_assoc]

theorem token?_shift (kind : Kind) (lexeme : JString) (line n : ℕ) :
    kind.token? lexeme (line + n) = (kind.token? lexeme line).map (Token.shift n) := by
  cases kind <;> rfl

theorem error?_shift (kind : Kind) (line n : ℕ) :
    kind.error? (line + n) = (kind.error? line).map (LoxError.shift n) := by
  cases kind <;> rfl

theorem tokensOf_shift (line n : ℕ) (segments : List (Kind × JString)) :
    tokensOf (line + n) segments = (tokensOf line segments).map (Token.shift n) := by
  induction segments generalizing line with
  | nil => rfl
  | cons segment segments ih =>
    simp only [tokensOf, Nat.add_right_comm line n, token?_shift, ih, List.map_append,
      Option.toList_map]

theorem errorsOf_shift (line n : ℕ) (segments : List (Kind × JString)) :
    errorsOf (line + n) segments = (errorsOf line segments).map (LoxError.shift n) := by
  induction segments generalizing line with
  | nil => rfl
  | cons segment segments ih =>
    simp only [errorsOf, Nat.add_right_comm line n, error?_shift, ih, List.map_append,
      Option.toList_map]

theorem tokensOf_ne_nil (line : ℕ) (segments : List (Kind × JString)) :
    tokensOf line segments ≠ [] := by
  induction segments generalizing line with
  | nil => exact List.cons_ne_nil _ _
  | cons segment segments ih => exact List.append_ne_nil_of_right_ne_nil _ (ih _)

/-- The tokens of two sources with a newline between them. -/
theorem tokensOf_append_newline (line : ℕ) (segments segments' : List (Kind × JString)) :
    tokensOf line (segments ++ (.whitespace, [chr '\n']) :: segments') =
      (tokensOf line segments).dropLast ++ tokensOf (endLine line segments + 1) segments' := by
  induction segments generalizing line with
  | nil => rfl
  | cons segment segments ih =>
    rw [List.cons_append, tokensOf, ih, tokensOf, List.dropLast_append_of_ne_nil
      (tokensOf_ne_nil _ _), List.append_assoc, endLine_cons]

theorem errorsOf_append_newline (line : ℕ) (segments segments' : List (Kind × JString)) :
    errorsOf line (segments ++ (.whitespace, [chr '\n']) :: segments') =
      errorsOf line segments ++ errorsOf (endLine line segments + 1) segments' := by
  induction segments generalizing line with
  | nil => rfl
  | cons segment segments ih =>
    rw [List.cons_append, errorsOf, ih, errorsOf, List.append_assoc, endLine_cons]

/-- An open string is reported. -/
theorem unterminated_mem_errorsOf (line : ℕ) (hmem : (.unterminated, lexeme) ∈ segments) :
    ∃ e ∈ errorsOf line segments, e.message = "Unterminated string." := by
  induction segments generalizing line with
  | nil => cases hmem
  | cons segment segments ih =>
    rw [errorsOf]
    rcases List.mem_cons.mp hmem with rfl | hmem
    · exact ⟨_, List.mem_append_left _ (List.mem_singleton_self _), rfl⟩
    · obtain ⟨e, he, hmessage⟩ := ih _ hmem
      exact ⟨e, List.mem_append_right _ he, hmessage⟩

theorem string_mem_tokensOf (line : ℕ) (hmem : (.string, lexeme) ∈ segments) :
    ∃ t ∈ tokensOf line segments, t.type = .STRING ∧ t.lexeme = lexeme := by
  induction segments generalizing line with
  | nil => cases hmem
  | cons segment segments ih =>
    rw [tokensOf]
    rcases List.mem_cons.mp hmem with rfl | hmem
    · exact ⟨_, List.mem_append_left _ (List.mem_singleton_self _), rfl, rfl⟩
    · obtain ⟨t, ht, htoken⟩ := ih _ hmem
      exact ⟨t, List.mem_append_right _ ht, htoken⟩

end Lines

namespace Scanner

/-- The scan of two sources with a newline between them, if no string is open at the end
of the first one. -/
theorem scanTokens_append_newline (a b : JString) {sa sb : Scanner} (ha : scanTokens a = .ok sa)
    (hb : scanTokens b = .ok sb) (hclosed : ∀ e ∈ sa.errors, e.message ≠ "Unterminated string.") :
    ∃ s, scanTokens (a ++ chr '\n' :: b) = .ok s ∧
      s.tokens = sa.tokens.dropLast ++ sb.tokens.map (Token.shift (a.count (chr '\n') + 1)) ∧
      s.errors = sa.errors ++ sb.errors.map (LoxError.shift (a.count (chr '\n') + 1)) := by
  obtain ⟨segments, hsegments⟩ := exists_segments a
  obtain ⟨segments', hsegments'⟩ := exists_segments b
  obtain ⟨sa', ha', hta, hea⟩ := scanTokens_of_segments hsegments
  obtain ⟨sb', hb', htb, heb⟩ := scanTokens_of_segments hsegments'
  obtain rfl : sa = sa' := Except.ok.inj (ha.symm.trans ha')
  obtain rfl : sb = sb' := Except.ok.inj (hb.symm.trans hb')
  have hnone : ∀ p ∈ segments, p.1 ≠ .unterminated := by
    rintro ⟨kind, lexeme⟩ hp rfl
    obtain ⟨e, he, hmessage⟩ := unterminated_mem_errorsOf 1 hp
    exact hclosed e (hea ▸ he) hmessage
  have hend : endLine 1 segments + 1 = 1 + (a.count (chr '\n') + 1) := by
    rw [endLine, hsegments.flatMap_snd, Nat.add_assoc]
  obtain ⟨s, hs, hts, hes⟩ :=
    scanTokens_of_segments (decomposition_append_newline hsegments hsegments' hnone)
  refine ⟨s, hs, ?_, ?_⟩
  · rw [hts, tokensOf_append_newline, hend, tokensOf_shift, hta, htb]
  · rw [hes, errorsOf_append_newline, hend, errorsOf_shift, hea, heb]

end Scanner

end BuildYourOwnStuff.Jlox
