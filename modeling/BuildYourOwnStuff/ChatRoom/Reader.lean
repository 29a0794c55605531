import BuildYourOwnStuff.ChatRoom.Message
import BuildYourOwnStuff.CppStd.ReadUntil
import BuildYourOwnStuff.Foundations.Lines

/-!
# The reader of a session

A read completes at the first newline in the buffer. The session consumes that line
and keeps what has come after it for the next read, so the lines it delivers are those
of the stream, however the stream is cut into chunks.
-/

namespace BuildYourOwnStuff.ChatRoom.Session

open Foundations CppStd

/-- The strings of which `async_read` makes the messages that it delivers, and what is
in the buffer when the chunks are used up. -/
def asyncRead (buffer : Bytes) (chunks : List Bytes) : List Bytes × Bytes :=
  match h : readUntil newline buffer chunks with
  | none => ([], buffer ++ chunks.flatten)
  | some r =>
    have := length_consume_readUntil h
    let data := r.buffer.take r.bytesTransferred
    let next := asyncRead (r.buffer.drop r.bytesTransferred) r.chunks
    (data :: next.1, next.2)
termination_by (buffer ++ chunks.flatten).length
decreasing_by assumption

theorem asyncRead_of_none {buffer : Bytes} {chunks : List Bytes}
    (h : readUntil newline buffer chunks = none) :
    asyncRead buffer chunks = ([], buffer ++ chunks.flatten) := by
  rw [asyncRead]
  split
  · rfl
  · rename_i hr
    rw [h] at hr
    cases hr

theorem asyncRead_of_some {buffer : Bytes} {chunks : List Bytes} {r : ReadUntil}
    (h : readUntil newline buffer chunks = some r) :
    asyncRead buffer chunks =
      (r.buffer.take r.bytesTransferred ::
          (asyncRead (r.buffer.drop r.bytesTransferred) r.chunks).1,
        (asyncRead (r.buffer.drop r.bytesTransferred) r.chunks).2) := by
  rw [asyncRead]
  split
  · rename_i hr
    rw [h] at hr
    cases hr
  · rename_i hr
    rw [h] at hr
    cases hr
    rfl

/-- The buffer and the chunks together decide what is delivered. -/
theorem asyncRead_eq_terminated (buffer : Bytes) (chunks : List Bytes) :
    asyncRead buffer chunks = terminated newline (buffer ++ chunks.flatten) := by
  induction hn : (buffer ++ chunks.flatten).length using Nat.strong_induction_on
    generalizing buffer chunks with
  | _ n ih =>
    cases hr : readUntil newline buffer chunks with
    | none =>
      obtain ⟨hbuffer, hchunks⟩ := readUntil_eq_none.mp hr
      have hnone : newline ∉ buffer ++ chunks.flatten := by
        rw [List.mem_append, List.mem_flatten, not_or]
        exact ⟨hbuffer, fun ⟨c, hc, hmem⟩ => hchunks c hc hmem⟩
      rw [asyncRead_of_none hr, terminated_of_notMem hnone]
    | some r =>
      obtain ⟨line, rest, hline, hbuffer, hcount, hstream⟩ := exists_line_readUntil hr
      have hdata : r.buffer.take r.bytesTransferred = line ++ [newline] := by
        rw [hbuffer, hcount, ← List.singleton_append, ← List.append_assoc]
        exact List.take_left' (by simp)
      have hleft : r.buffer.drop r.bytesTransferred = rest := by
        rw [hbuffer, hcount, ← List.singleton_append, ← List.append_assoc]
        exact List.drop_left' (by simp)
      have hlt : (rest ++ r.chunks.flatten).length < n := by
        rw [← hn, hstream, hbuffer]
        simp only [List.length_append, List.length_cons]
        omega
      rw [asyncRead_of_some hr, hdata, hleft, ih _ hlt rest r.chunks rfl, hstream, hbuffer,
        List.append_assoc, List.cons_append, terminated_append_sep hline]

/-- The lines of a stream are delivered in order with their newlines, the rest of it
stays in the buffer, and any other way to cut the stream gives the same. -/
theorem asyncRead_lines (chunks : List Bytes) :
    ∃ (ls : List Bytes) (rest : Bytes), (∀ l ∈ ls, newline ∉ l) ∧ newline ∉ rest ∧
      chunks.flatten = ls.flatMap (fun l => l ++ [newline]) ++ rest ∧
        asyncRead [] chunks = (ls.map fun l => l ++ [newline], rest) ∧
          ∀ chunks', chunks'.flatten = chunks.flatten →
            asyncRead [] chunks' = asyncRead [] chunks := by
  obtain ⟨ls, rest, hls, hrest, hstream, hparts⟩ := exists_terminated newline chunks.flatten
  refine ⟨ls, rest, hls, hrest, hstream, ?_, fun chunks' hsame => ?_⟩
  · rw [asyncRead_eq_terminated, List.nil_append, hparts]
  · rw [asyncRead_eq_terminated, asyncRead_eq_terminated, List.nil_append, List.nil_append, hsame]

end BuildYourOwnStuff.ChatRoom.Session
