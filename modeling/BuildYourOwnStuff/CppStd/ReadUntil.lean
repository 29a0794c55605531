import BuildYourOwnStuff.Foundations.Buffers

/-!
# Reading up to a delimiter

`async_read_until` takes bytes from a socket into a stream buffer, one chunk at a
time, until the buffer has the delimiter. The buffer may then have more bytes
after it.
-/

namespace BuildYourOwnStuff.CppStd

open Foundations

/-- A completed read. -/
structure ReadUntil where
  bytesTransferred : ℕ
  buffer : Bytes
  chunks : List Bytes
  deriving DecidableEq, Repr

/-- `bytesTransferred` counts the bytes up to and including the first delimiter. The
read does not complete, `none`, if the chunks end before there is one. -/
def readUntil (delim : UInt8) (buffer : Bytes) (chunks : List Bytes) : Option ReadUntil :=
  if delim ∈ buffer then some ⟨buffer.idxOf delim + 1, buffer, chunks⟩
  else
    match chunks with
    | [] => none
    | chunk :: chunks => readUntil delim (buffer ++ chunk) chunks

variable {delim : UInt8} {buffer : Bytes} {chunks : List Bytes} {r : ReadUntil}

theorem readUntil_of_mem (h : delim ∈ buffer) :
    readUntil delim buffer chunks = some ⟨buffer.idxOf delim + 1, buffer, chunks⟩ := by
  unfold readUntil
  rw [if_pos h]

theorem readUntil_eq_none :
    readUntil delim buffer chunks = none ↔ delim ∉ buffer ∧ ∀ c ∈ chunks, delim ∉ c := by
  induction chunks generalizing buffer with
  | nil =>
    rw [readUntil]
    simp
  | cons chunk chunks ih =>
    rw [readUntil]
    split_ifs with h
    · simp [h]
    · rw [ih, List.mem_append, not_or, List.forall_mem_cons, and_assoc]

/-- A read from a buffer without the delimiter takes the chunks up to the first one
that has it. -/
theorem readUntil_eq_some (h : delim ∉ buffer) (hr : readUntil delim buffer chunks = some r) :
    ∃ pre c, chunks = pre ++ c :: r.chunks ∧ (∀ d ∈ pre, delim ∉ d) ∧ delim ∈ c ∧
      r.buffer = buffer ++ pre.flatten ++ c := by
  induction chunks generalizing buffer with
  | nil =>
    rw [readUntil, if_neg h] at hr
    cases hr
  | cons chunk chunks ih =>
    rw [readUntil, if_neg h] at hr
    by_cases hchunk : delim ∈ chunk
    · rw [readUntil_of_mem (List.mem_append_right _ hchunk)] at hr
      cases hr
      exact ⟨[], chunk, rfl, by simp, hchunk, by simp⟩
    · have hbuffer : delim ∉ buffer ++ chunk := by simp [h, hchunk]
      obtain ⟨pre, c, hchunks, hpre, hc, hr⟩ := ih hbuffer hr
      refine ⟨chunk :: pre, c, by simp [hchunks], ?_, hc, by simp [hr]⟩
      rw [List.forall_mem_cons]
      exact ⟨hchunk, hpre⟩

/-- A completed read leaves the stream as it is, with the first line of it in the buffer. -/
theorem exists_line_readUntil (hr : readUntil delim buffer chunks = some r) :
    ∃ line rest, delim ∉ line ∧ r.buffer = line ++ delim :: rest ∧
      r.bytesTransferred = line.length + 1 ∧
        buffer ++ chunks.flatten = r.buffer ++ r.chunks.flatten := by
  induction chunks generalizing buffer with
  | nil =>
    rw [readUntil] at hr
    split_ifs at hr with h
    cases hr
    obtain ⟨line, rest, rfl, hline⟩ := List.eq_append_cons_of_mem h
    exact ⟨line, rest, hline, rfl, by simp [List.idxOf_append, hline], rfl⟩
  | cons chunk chunks ih =>
    rw [readUntil] at hr
    split_ifs at hr with h
    · cases hr
      obtain ⟨line, rest, rfl, hline⟩ := List.eq_append_cons_of_mem h
      exact ⟨line, rest, hline, rfl, by simp [List.idxOf_append, hline], rfl⟩
    · obtain ⟨line, rest, hline, hbuffer, hcount, hstream⟩ := ih hr
      refine ⟨line, rest, hline, hbuffer, hcount, ?_⟩
      rw [← hstream, List.flatten_cons, List.append_assoc]

/-- Less of the stream is left when the line is consumed. -/
theorem length_consume_readUntil (hr : readUntil delim buffer chunks = some r) :
    (r.buffer.drop r.bytesTransferred ++ r.chunks.flatten).length <
      (buffer ++ chunks.flatten).length := by
  obtain ⟨line, rest, -, hbuffer, hcount, hstream⟩ := exists_line_readUntil hr
  rw [hstream, List.length_append, List.length_append, List.length_drop, hcount, hbuffer,
    List.length_append, List.length_cons]
  omega

theorem length_chunks_readUntil (h : delim ∉ buffer)
    (hr : readUntil delim buffer chunks = some r) : r.chunks.length < chunks.length := by
  obtain ⟨pre, c, rfl, -⟩ := readUntil_eq_some h hr
  rw [List.length_append, List.length_cons]
  omega

end BuildYourOwnStuff.CppStd
