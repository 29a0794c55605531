import BuildYourOwnStuff.Wal.KVStore

/-!
# Logs

A record is one line of JSON. Replaying a log applies its calls; a proper prefix
of a record is skipped, and so is a record glued to such a prefix.
-/

namespace BuildYourOwnStuff.Wal

open Foundations GoStd Utf8

namespace Call

theorem fields_found : ∀ f ∈ LogEntry.fields,
    coerce f.name = f.name ∧ Json.findField LogEntry.fields f.name = some f := by
  simp only [LogEntry.fields, List.forall_mem_cons, List.not_mem_nil, false_imp_iff,
    implies_true, and_true]
  exact ⟨⟨by decide, rfl⟩, ⟨by decide, rfl⟩, ⟨by decide, rfl⟩⟩

/-- The call that the record of a call stands for: JSON has a replacement
character for each invalid byte. -/
def coerced (c : Call) : Call := c.map coerce coerce

theorem coerced_of_valid {c : Call} (h : Valid c) : coerced c = c := by
  cases c with
  | put key value =>
    rw [coerced, Update.map, coerce_of_validString h.1, coerce_of_validString h.2]
  | delete key =>
    have hkey : coerce key = key := coerce_of_validString h
    rw [coerced, Update.map, hkey]

/-- The record of a call is read back with replacement characters. -/
theorem unmarshal_json (c : Call) : LogEntry.unmarshal (json c) = some (entry (coerced c)) := by
  have hread := Json.unmarshal_marshal fields_found (entry c) LogEntry.zero
  refine hread.trans ?_
  have hput : coerce (ascii "put") = ascii "put" := by decide
  have hdelete : coerce (ascii "delete") = ascii "delete" := by decide
  have hempty : coerce [] = [] := rfl
  cases c with
  | put key value =>
    simp only [LogEntry.fields, List.foldl_cons, List.foldl_nil, entry, coerced, Update.map, hput]
  | delete key =>
    simp only [LogEntry.fields, List.foldl_cons, List.foldl_nil, entry, coerced, Update.map,
      hdelete, hempty]

theorem recoverLine_json_coerced (c : Call) (store : Store) :
    KVStore.recoverLine store (json c) = (coerced c).apply store := by
  rw [KVStore.recoverLine, unmarshal_json]
  cases c <;> rfl

/-- Replaying the record of a valid call applies the call. -/
theorem recoverLine_json {c : Call} (h : Valid c) (store : Store) :
    KVStore.recoverLine store (json c) = c.apply store := by
  rw [recoverLine_json_coerced, coerced_of_valid h]

theorem head?_json (c : Call) : (json c).head? = some Json.openBrace :=
  Json.head?_marshal LogEntry.fields (entry c)

theorem getLast?_json (c : Call) : (json c).getLast? = some Json.closeBrace :=
  Json.getLast?_marshal LogEntry.fields (entry c)

theorem json_ne_nil (c : Call) : json c ≠ [] := by
  intro h
  have hhead := head?_json c
  rw [h] at hhead
  cases hhead

/-- A record is longer than the key in it. -/
theorem length_key_lt_json (c : Call) : c.key.length < (json c).length := by
  have hliteral := Json.length_le_length_literal c.key
  have hkey : (entry c).key = c.key := by cases c <;> rfl
  simp only [json, LogEntry.marshal, Json.marshal, LogEntry.fields, Json.appendMembers,
    Json.memberText, Json.appendString, hkey, List.length_append, List.length_cons]
  omega

theorem newline_notMem_json (c : Call) : newline ∉ json c := by
  intro h
  have hprint := Json.printable_marshal LogEntry.fields (entry c) newline h
  exact absurd hprint (by decide)

theorem dropCR_append_json (u : Bytes) (c : Call) : dropCR (u ++ json c) = u ++ json c := by
  refine dropCR_of_getLast? (b := Json.closeBrace) ?_ (by decide)
  rw [List.getLast?_append_of_ne_nil _ (json_ne_nil c), getLast?_json]

theorem dropCR_json (c : Call) : dropCR (json c) = json c := dropCR_append_json [] c

/-- A proper prefix of a record is skipped. -/
theorem recoverLine_of_isPrefix {u : Bytes} {c : Call} (h : u <+: json c) (hne : u ≠ json c)
    (store : Store) : KVStore.recoverLine store u = store := by
  have hread := Json.parse_of_readsAs (Json.readsAs_marshal LogEntry.fields (entry c))
  have hparse : Json.parse u = none :=
    Json.parse_of_isPrefix hread (head?_json c) (getLast?_json c) h hne
  have hnone : LogEntry.unmarshal u = none := Json.unmarshal_of_parse_eq_none hparse
  rw [KVStore.recoverLine, hnone]

/-- A record after a nonempty part of a record is skipped with it. -/
theorem recoverLine_glued {u : Bytes} {c : Call} (h : u <+: json c) (hne : u ≠ []) (d : Call)
    (store : Store) : KVStore.recoverLine store (u ++ json d) = store := by
  have hfirst : u.head? = some Json.openBrace := by
    obtain ⟨w, hw⟩ := h
    rw [← head?_json c, ← hw, List.head?_append_of_ne_nil _ hne]
  have hshape : ∃ text, json d = Json.openBrace :: Json.quote :: Json.byte 't' :: text :=
    ⟨_, rfl⟩
  have hread := Json.readsAs_marshal LogEntry.fields (entry d)
  obtain ⟨text, htext⟩ := hshape
  change Json.Scanner.ReadsAs (json d) _ at hread
  rw [htext] at hread
  have hparse : Json.parse (u ++ json d) = none := by
    rw [htext]
    exact Json.parse_append_object (by decide) hread hfirst
  have hnone : LogEntry.unmarshal (u ++ json d) = none := Json.unmarshal_of_parse_eq_none hparse
  rw [KVStore.recoverLine, hnone]

end Call

namespace KVStore

/-- The log of calls that all returned nil. -/
def log (calls : List Call) : Bytes := calls.flatMap Call.record

theorem log_cons (c : Call) (calls : List Call) : log (c :: calls) = Call.record c ++ log calls :=
  List.flatMap_cons

theorem log_eq_terminated (calls : List Call) :
    log calls = (calls.map Call.json).flatMap fun l => l ++ [newline] := by
  rw [List.flatMap_map]
  rfl

theorem lines_log (calls : List Call) (rest : Bytes) :
    lines newline (log calls ++ rest) = calls.map Call.json ++ lines newline rest := by
  rw [log_eq_terminated]
  refine lines_terminated (fun l hl => ?_) rest
  obtain ⟨c, -, rfl⟩ := List.mem_map.mp hl
  exact Call.newline_notMem_json c

/-- Records that fit are replayed, with replacement characters, before what follows them. -/
theorem scan_log_coerced {calls : List Call} (hfits : ∀ c ∈ calls, Call.Fits c) (rest : Bytes)
    (store : Store) : scan recoverLine (log calls ++ rest) store =
      scan recoverLine rest (Update.replay store (calls.map Call.coerced)) := by
  have hlens : ∀ l ∈ calls.map Call.json, l.length < maxScanTokenSize := by
    intro l hl
    obtain ⟨c, hc, rfl⟩ := List.mem_map.mp hl
    exact hfits c hc
  have hreplay : ∀ (cs : List Call) (store : Store),
      (cs.map Call.json).foldl (fun s l => recoverLine s (dropCR l)) store =
        Update.replay store (cs.map Call.coerced) := by
    intro cs
    induction cs with
    | nil => intros; rfl
    | cons c cs ih =>
      intro store
      rw [List.map_cons, List.foldl_cons, Call.dropCR_json, Call.recoverLine_json_coerced,
        List.map_cons, Update.replay_cons]
      exact ih _
  rw [scan, lines_log, scanLines_append hlens, hreplay calls store]
  rfl

/-- Records that fit are replayed before what follows them. -/
theorem scan_log {calls : List Call} (hvalid : ∀ c ∈ calls, Call.Valid c)
    (hfits : ∀ c ∈ calls, Call.Fits c) (rest : Bytes) (store : Store) :
    scan recoverLine (log calls ++ rest) store =
      scan recoverLine rest (Update.replay store calls) := by
  have hcoerced : calls.map Call.coerced = calls.map id :=
    List.map_congr_left fun c hc => Call.coerced_of_valid (hvalid c hc)
  rw [scan_log_coerced hfits, hcoerced, List.map_id]

/-- A record that does not fit is an error. -/
theorem scan_log_eq_none {calls : List Call} {c : Call} (hc : c ∈ calls) (h : ¬ Call.Fits c)
    (store : Store) : scan recoverLine (log calls) store = none := by
  have hmem : Call.json c ∈ lines newline (log calls) := by
    rw [← List.append_nil (log calls), lines_log]
    exact List.mem_append_left _ (List.mem_map_of_mem hc)
  exact scanLines_eq_none hmem (Nat.not_lt.mp h) store

/-- A store opens exactly when the scanner reads its log to the end. -/
theorem newKVStore_eq_ok {logFile : Bytes} {kv : KVStore} : newKVStore logFile = .ok kv ↔
    scan recoverLine logFile ∅ = some kv.store ∧ kv.logFile = logFile := by
  unfold newKVStore recoverFromWAL
  cases scan recoverLine logFile ∅ with
  | none => simp
  | some store =>
    obtain ⟨s, l⟩ := kv
    simp [eq_comm]

/-- A log whose records fit is opened with the replay of its calls. -/
theorem newKVStore_log {calls : List Call} (hvalid : ∀ c ∈ calls, Call.Valid c)
    (hfits : ∀ c ∈ calls, Call.Fits c) :
    newKVStore (log calls) = .ok ⟨Update.replay ∅ calls, log calls⟩ := by
  have hscan := scan_log hvalid hfits [] ∅
  rw [List.append_nil] at hscan
  exact newKVStore_eq_ok.mpr ⟨hscan, rfl⟩

/-- The store that is opened on an empty log. -/
def fresh : KVStore := ⟨∅, []⟩

example : newKVStore [] = .ok fresh := rfl

theorem run_fresh (calls : List Call) : fresh.run calls = ⟨Update.replay ∅ calls, log calls⟩ := by
  rw [run_eq]
  rfl

/-- A part of a record at the end of a log is skipped unless it is the whole JSON text. -/
theorem scan_torn {c : Call} (hvalid : Call.Valid c) (hfits : Call.Fits c) {n : ℕ}
    (hn : n ≤ (Call.json c).length) (store : Store) :
    scan recoverLine ((Call.json c).take n) store =
      some (if n = (Call.json c).length then c.apply store else store) := by
  have hnot : newline ∉ (Call.json c).take n :=
    fun h => Call.newline_notMem_json c (List.mem_of_mem_take h)
  have hlen : ((Call.json c).take n).length = n := List.length_take_of_le hn
  have hpos := List.length_pos_of_ne_nil (Call.json_ne_nil c)
  unfold Call.Fits at hfits
  rcases Nat.eq_zero_or_pos n with rfl | hn0
  · rw [List.take_zero, if_neg (by omega)]
    rfl
  · have hne : (Call.json c).take n ≠ [] := by
      intro h
      rw [h, List.length_nil] at hlen
      omega
    rw [scan, lines_of_notMem hnot hne, scanLines, if_pos (by omega), scanLines]
    split_ifs with hfull
    · rw [hfull, List.take_length, Call.dropCR_json, Call.recoverLine_json hvalid]
    · have hpre : dropCR ((Call.json c).take n) <+: Call.json c :=
        (dropCR_isPrefix _).trans (List.take_prefix n _)
      have hshort := (dropCR_isPrefix ((Call.json c).take n)).length_le
      rw [Call.recoverLine_of_isPrefix hpre]
      intro heq
      rw [heq] at hshort
      omega

/-- A record glued to a part of another one is skipped with it, if they fit together. -/
theorem scan_glued {c : Call} {n : ℕ} (hn : n ≤ (Call.json c).length) (hpos : n ≠ 0) (d : Call)
    (rest : Bytes) (store : Store) :
    scan recoverLine ((Call.json c).take n ++ Call.record d ++ rest) store =
      if n + (Call.json d).length < maxScanTokenSize then scan recoverLine rest store
      else none := by
  have hnot : newline ∉ (Call.json c).take n ++ Call.json d := by
    rw [List.mem_append, not_or]
    exact ⟨fun h => Call.newline_notMem_json c (List.mem_of_mem_take h),
      Call.newline_notMem_json d⟩
  have hlen : ((Call.json c).take n).length = n := List.length_take_of_le hn
  have hne : (Call.json c).take n ≠ [] := by
    intro h
    rw [h, List.length_nil] at hlen
    exact hpos hlen.symm
  have hsplit : (Call.json c).take n ++ Call.record d ++ rest =
      ((Call.json c).take n ++ Call.json d) ++ newline :: rest := by
    simp [Call.record]
  rw [hsplit, scan, lines_append_sep hnot, scanLines, List.length_append, hlen,
    Call.dropCR_append_json, Call.recoverLine_glued (List.take_prefix n _) hne]
  rfl

end KVStore

end BuildYourOwnStuff.Wal
