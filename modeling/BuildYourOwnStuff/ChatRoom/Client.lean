import BuildYourOwnStuff.ChatRoom.Message
import BuildYourOwnStuff.CppStd.ReadUntil
import BuildYourOwnStuff.Foundations.Lines

/-!
# The chat client

Each turn of the client's loop has a stream buffer of its own and prints the first
line in it. What a read has brought beyond that line is gone, so every line is
printed exactly when no read brings anything after a newline.
-/

namespace BuildYourOwnStuff.ChatRoom.Client

open Foundations CppStd

/-- `std::getline` on a stream buffer. -/
def getline (buffer : Bytes) : Bytes := buffer.takeWhile fun b => b != newline

/-- The strings `received`, one for each turn, when the stream arrives in these chunks. -/
def asyncRead (chunks : List Bytes) : List Bytes :=
  match h : readUntil newline [] chunks with
  | none => []
  | some r =>
    have := length_chunks_readUntil List.not_mem_nil h
    getline r.buffer :: asyncRead r.chunks
termination_by chunks.length

/-- `std::cout << "Server: " << received << std::endl` -/
def shown (received : Bytes) : Bytes := GoStd.ascii "Server: " ++ received ++ [newline]

/-- What the client prints, one entry for each turn. -/
def printed (chunks : List Bytes) : List Bytes := (asyncRead chunks).map shown

/-- The bytes of newline-terminated lines. -/
def stream (ls : List Bytes) : Bytes := ls.flatMap fun l => l ++ [newline]

/-- A newline is at most the last byte that a read brings. -/
def EndsAtNewline (chunk : Bytes) : Prop := newline ∉ chunk.dropLast

instance (chunk : Bytes) : Decidable (EndsAtNewline chunk) := inferInstanceAs (Decidable (¬ _))

theorem asyncRead_of_none {chunks : List Bytes} (h : readUntil newline [] chunks = none) :
    asyncRead chunks = [] := by
  rw [asyncRead]
  split
  · rfl
  · rename_i hr
    rw [h] at hr
    cases hr

theorem asyncRead_of_some {chunks : List Bytes} {r : ReadUntil}
    (h : readUntil newline [] chunks = some r) :
    asyncRead chunks = getline r.buffer :: asyncRead r.chunks := by
  rw [asyncRead]
  split
  · rename_i hr
    rw [h] at hr
    cases hr
  · rename_i hr
    rw [h] at hr
    cases hr
    rfl

theorem getline_append {l : Bytes} (h : newline ∉ l) (rest : Bytes) :
    getline (l ++ newline :: rest) = l :=
  takeWhile_append_sep h rest

/-- What a turn prints and what is gone with its buffer. -/
theorem buffer_of_readUntil {chunks : List Bytes} {r : ReadUntil}
    (h : readUntil newline [] chunks = some r) :
    ∃ rest, r.buffer = getline r.buffer ++ newline :: rest ∧ newline ∉ getline r.buffer ∧
      chunks.flatten = r.buffer ++ r.chunks.flatten ∧
      ((∀ c ∈ chunks, EndsAtNewline c) ↔ rest = [] ∧ ∀ c ∈ r.chunks, EndsAtNewline c) := by
  obtain ⟨pre, c, hchunks, hpre, hc, hbuffer⟩ := readUntil_eq_some List.not_mem_nil h
  obtain ⟨l, rest, rfl, hl⟩ := List.eq_append_cons_of_mem hc
  have hfirst : newline ∉ pre.flatten ++ l := by
    rw [List.mem_append, not_or]
    refine ⟨fun hmem => ?_, hl⟩
    obtain ⟨d, hd, hmem⟩ := List.mem_flatten.mp hmem
    exact hpre d hd hmem
  have hsplit : r.buffer = (pre.flatten ++ l) ++ newline :: rest := by
    rw [hbuffer]
    simp
  have hline : getline r.buffer = pre.flatten ++ l := by
    rw [hsplit, getline_append hfirst]
  refine ⟨rest, by rw [hline, hsplit], hline ▸ hfirst, ?_, ?_⟩
  · rw [hsplit, hchunks]
    simp
  · have hends : EndsAtNewline (l ++ newline :: rest) ↔ rest = [] := by
      rcases List.eq_nil_or_concat rest with rfl | ⟨rest, b, rfl⟩
      · simpa [EndsAtNewline, List.dropLast_append_of_ne_nil] using hl
      · have hconcat : l ++ newline :: rest.concat b = (l ++ newline :: rest) ++ [b] := by simp
        rw [EndsAtNewline, hconcat, List.dropLast_concat]
        simp
    have hbefore : ∀ d ∈ pre, EndsAtNewline d := fun d hd hmem =>
      hpre d hd (List.dropLast_subset d hmem)
    rw [hchunks, List.forall_mem_append, List.forall_mem_cons, hends]
    exact ⟨fun h => h.2, fun h => ⟨hbefore, h⟩⟩

/-- If no read brings anything after a newline, the lines of the stream are
printed, and what comes after the last newline is left. -/
theorem flatten_eq {chunks : List Bytes} (h : ∀ c ∈ chunks, EndsAtNewline c) :
    ∃ rest, newline ∉ rest ∧ chunks.flatten = stream (asyncRead chunks) ++ rest ∧
      ∀ l ∈ asyncRead chunks, newline ∉ l := by
  induction hn : chunks.length using Nat.strong_induction_on generalizing chunks with
  | _ n ih =>
    cases hr : readUntil newline [] chunks with
    | none =>
      rw [asyncRead_of_none hr]
      refine ⟨chunks.flatten, fun hmem => ?_, rfl, by simp⟩
      obtain ⟨c, hc, hmem⟩ := List.mem_flatten.mp hmem
      exact (readUntil_eq_none.mp hr).2 c hc hmem
    | some r =>
      obtain ⟨gone, hbuffer, hline, hflatten, hends⟩ := buffer_of_readUntil hr
      obtain ⟨rfl, hrest⟩ := hends.mp h
      have hlt := length_chunks_readUntil List.not_mem_nil hr
      obtain ⟨rest, hnewline, hstream, hlines⟩ := ih _ (hn ▸ hlt) hrest rfl
      refine ⟨rest, hnewline, ?_, ?_⟩
      · rw [asyncRead_of_some hr, hflatten, hstream, stream, stream, List.flatMap_cons,
          ← hbuffer, List.append_assoc]
      · rw [asyncRead_of_some hr, List.forall_mem_cons]
        exact ⟨hline, hlines⟩

/-- The printed lines and their newlines are no more bytes than the stream has, and
as many only if no read brings anything after a newline. -/
theorem length_stream_asyncRead (chunks : List Bytes) :
    (stream (asyncRead chunks)).length ≤ chunks.flatten.length ∧
      ((stream (asyncRead chunks)).length = chunks.flatten.length →
        ∀ c ∈ chunks, EndsAtNewline c) := by
  induction hn : chunks.length using Nat.strong_induction_on generalizing chunks with
  | _ n ih =>
    cases hr : readUntil newline [] chunks with
    | none =>
      refine ⟨by simp [asyncRead_of_none hr, stream], fun _ c hc hmem => ?_⟩
      exact (readUntil_eq_none.mp hr).2 c hc (List.dropLast_subset c hmem)
    | some r =>
      obtain ⟨gone, hbuffer, -, hflatten, hends⟩ := buffer_of_readUntil hr
      have hlt := length_chunks_readUntil List.not_mem_nil hr
      obtain ⟨hle, heq⟩ := ih _ (hn ▸ hlt) r.chunks rfl
      have hlength : (stream (asyncRead chunks)).length + gone.length =
          r.buffer.length + (stream (asyncRead r.chunks)).length := by
        have hcount := congrArg List.length hbuffer
        rw [List.length_append, List.length_cons] at hcount
        rw [asyncRead_of_some hr, stream, List.flatMap_cons, List.length_append,
          List.length_append, List.length_singleton, ← stream]
        omega
      rw [hflatten, List.length_append]
      refine ⟨by omega, fun hsame => hends.mpr ⟨?_, heq (by omega)⟩⟩
      exact List.length_eq_zero_iff.mp (by omega)

theorem shown_injective : Function.Injective shown := by
  intro l l' h
  exact List.append_cancel_left (List.append_cancel_right h)

/-- However the lines are cut into chunks, all of them are printed in order exactly
when no chunk has anything after a newline. -/
theorem printed_iff (ls : List Bytes) (hls : ∀ l ∈ ls, newline ∉ l) (chunks : List Bytes)
    (hchunks : chunks.flatten = stream ls) :
    printed chunks = ls.map shown ↔ ∀ c ∈ chunks, EndsAtNewline c := by
  rw [printed, (List.map_injective_iff.mpr shown_injective).eq_iff]
  constructor
  · intro h
    apply (length_stream_asyncRead chunks).2
    rw [h, hchunks]
  · intro h
    obtain ⟨rest, hrest, hflatten, hprinted⟩ := flatten_eq h
    have hlines : ls = asyncRead chunks ++ lines newline rest := by
      rw [← lines_terminated hprinted rest, ← stream, ← hflatten, hchunks]
      simpa [stream] using (lines_terminated hls []).symm
    rcases eq_or_ne rest [] with rfl | hne
    · rw [hlines, lines_nil, List.append_nil]
    · -- a rest without a newline would be a line without its newline
      have hlength := congrArg List.length hflatten
      rw [hchunks, hlines, lines_of_notMem hrest hne] at hlength
      simp [stream] at hlength

theorem printed_two_reads : printed [[0x61], [newline], [0x62, newline]] =
    [[0x61], [0x62]].map shown :=
  (printed_iff [[0x61], [0x62]] (by decide) [[0x61], [newline], [0x62, newline]] (by decide)).mpr
    (by decide)

/-- Of two lines that arrive together the second one is lost. -/
theorem printed_lost : ¬ ∀ ls chunks : List Bytes, (∀ l ∈ ls, newline ∉ l) →
    chunks.flatten = stream ls → printed chunks = ls.map shown := by
  intro h
  have hprinted := h [[0x61], [0x62]] [[0x61, newline, 0x62, newline]] (by decide) (by decide)
  have hread : readUntil newline [] [[0x61, newline, 0x62, newline]] =
      some ⟨2, [0x61, newline, 0x62, newline], []⟩ := by decide
  rw [printed, asyncRead_of_some hread, asyncRead_of_none (by decide)] at hprinted
  exact absurd (congrArg List.length hprinted) (by decide)

end BuildYourOwnStuff.ChatRoom.Client
