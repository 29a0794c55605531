import BuildYourOwnStuff.ChatServer.DirectMessages
import BuildYourOwnStuff.ChatServer.Framing
import BuildYourOwnStuff.ChatServer.Receive

/-!
# The chat client

One thread of the client takes messages from the stream of the server, with a buffer
that is as long as each of them, and the other one sends lines until the user logs out.
-/

namespace BuildYourOwnStuff.ChatServer.Client

open Foundations GoStd CppStd

/-- What `receiveMessages` prints in a turn: a message, or that it has received none. -/
inductive Printed
  | message (text : Bytes)
  | error
  deriving DecidableEq, Repr

/-- The server has disconnected, a length is negative or has no place for the zero, or bytes
are written to a buffer for none. -/
inductive Ending
  | disconnected
  | badLength
  | overflow
  deriving DecidableEq, Repr

inductive Turn
  | ended (ending : Ending)
  | printed (output : Printed) (rest : Bytes)
  deriving DecidableEq, Repr

/-- One turn of the loop. The length is an `int`; that of a buffer is one more. -/
def receiveMessage (uninit : Word) (portion portion' : ℕ+) (stream : Bytes) : Turn :=
  let received := recv portion 4 stream
  if received.1 = [] then .ended .disconnected
  else
    let length := beNat (received.1 ++ uninit.1.drop received.1.length)
    if length = 2 ^ 32 - 1 then
      if received.2 = [] then .printed .error [] else .ended .overflow
    else if 2 ^ 31 - 1 ≤ length then .ended .badLength
    else
      let body := recv portion' length received.2
      if body.1 = [] then .printed .error body.2 else .printed (.message (cString body.1)) body.2

theorem length_of_printed {uninit : Word} {portion portion' : ℕ+} {stream rest : Bytes}
    {output : Printed} (h : receiveMessage uninit portion portion' stream = .printed output rest) :
    rest.length < stream.length := by
  have hportion := portion.pos
  simp only [receiveMessage] at h
  split_ifs at h with hlength hall hnil hlarge hbody <;> cases h
  all_goals
    rw [recv, List.take_eq_nil_iff, not_or] at hlength
    have hpos := List.length_pos_of_ne_nil hlength.2
    simp only [recv, List.length_drop, List.length_nil]
    omega

structure Received where
  outputs : List Printed
  ending : Ending
  deriving DecidableEq, Repr

/-- What the client prints of a stream that arrives in portions, where `uninit k` is in the
memory of `length` in turn `k`. -/
def receiveMessages (uninit : ℕ → Word) (portions : ℕ → ℕ+) (stream : Bytes) : Received :=
  match h : receiveMessage (uninit 0) (portions 0) (portions 1) stream with
  | .ended ending => ⟨[], ending⟩
  | .printed output rest =>
    have := length_of_printed h
    let received := receiveMessages (fun k => uninit (k + 1)) (fun k => portions (k + 2)) rest
    ⟨output :: received.outputs, received.ending⟩
termination_by stream.length

/-- What is printed for a message that is received as it was sent. -/
def shown (m : Bytes) : Printed := if m = [] then .error else .message (cString m)

theorem receiveMessages_of_ended {uninit : ℕ → Word} {portions : ℕ → ℕ+} {stream : Bytes}
    {ending : Ending}
    (h : receiveMessage (uninit 0) (portions 0) (portions 1) stream = .ended ending) :
    receiveMessages uninit portions stream = ⟨[], ending⟩ := by
  rw [receiveMessages]
  split
  · rename_i hr
    rw [h] at hr
    cases hr
    rfl
  · rename_i hr
    rw [h] at hr
    cases hr

theorem receiveMessages_of_printed {uninit : ℕ → Word} {portions : ℕ → ℕ+} {stream rest : Bytes}
    {output : Printed}
    (h : receiveMessage (uninit 0) (portions 0) (portions 1) stream = .printed output rest) :
    receiveMessages uninit portions stream =
      let next := receiveMessages (fun k => uninit (k + 1)) (fun k => portions (k + 2)) rest
      ⟨output :: next.outputs, next.ending⟩ := by
  rw [receiveMessages]
  split
  · rename_i hr
    rw [h] at hr
    cases hr
  · rename_i hr
    rw [h] at hr
    cases hr
    rfl

/-- With full reads a turn takes one frame, whatever its message is. -/
theorem receiveMessage_full {m : Bytes} (hm : m.length < 2 ^ 31 - 1) (uninit : Word)
    {portion portion' : ℕ+} (hportion : 4 ≤ (portion : ℕ)) (hportion' : m.length ≤ (portion' : ℕ))
    (s : Bytes) :
    receiveMessage uninit portion portion' (frame m ++ s) = .printed (shown m) s := by
  have hheader := recv_header hportion m s
  have hlength := beNat_frameHeader (by omega : m.length < 256 ^ 4) uninit
  have hbody : recv portion' m.length (m ++ s) = (m, s) := by
    rw [recv, min_eq_right hportion']
    exact Prod.ext List.take_left List.drop_left
  have hne : frameHeader m ≠ [] := by
    intro h
    have := congrArg List.length h
    simp [frameHeader] at this
  simp only [receiveMessage, hheader, hlength, hbody]
  rw [if_neg hne, if_neg (by omega), if_neg (by omega), shown]
  split_ifs <;> rfl

theorem receiveMessages_full {ms : List Bytes} (hms : ∀ m ∈ ms, m.length < 2 ^ 31 - 1)
    {portions : ℕ → ℕ+} (hfull : FullReads portions ms) (uninit : ℕ → Word) :
    receiveMessages uninit portions (ms.flatMap frame) = ⟨ms.map shown, .disconnected⟩ := by
  induction ms generalizing portions uninit with
  | nil =>
    refine receiveMessages_of_ended ?_
    simp [receiveMessage, recv]
  | cons m ms ih =>
    rw [List.forall_mem_cons] at hms
    obtain ⟨⟨hportion, hportion'⟩, hrest⟩ := fullReads_cons.mp hfull
    rw [List.flatMap_cons, receiveMessages_of_printed
      (receiveMessage_full hms.1 (uninit 0) hportion hportion' _), ih hms.2 hrest, List.map_cons]

/-- A message that can be told from a part of it. -/
def Displayable (m : Bytes) : Prop := m ≠ [] ∧ 0 ∉ m ∧ m.length < 2 ^ 31 - 1

instance (m : Bytes) : Decidable (Displayable m) := inferInstanceAs (Decidable (_ ∧ _))

theorem text_of_printed {uninit : Word} {portion portion' : ℕ+} {stream text rest : Bytes}
    (h : receiveMessage uninit portion portion' stream = .printed (.message text) rest) :
    text = cString ((stream.drop (min (portion : ℕ) 4)).take (min (portion' : ℕ)
      (beNat (stream.take (min (portion : ℕ) 4) ++
        uninit.1.drop (stream.take (min (portion : ℕ) 4)).length)))) := by
  simp only [receiveMessage] at h
  split_ifs at h <;> cases h
  rfl

theorem eq_zero_of_beNat_eq_zero {b : UInt8} (bs : Bytes) (h : beNat (b :: bs) = 0) : b = 0 := by
  have happend := beNat_append [b] bs
  rw [List.singleton_append, h] at happend
  have hone : beNat [b] = b.toNat := by simp [beNat, leNat]
  have hpos : 0 < 256 ^ bs.length := by positivity
  rw [hone] at happend
  apply UInt8.toNat_inj.mp
  by_contra hne
  have hmul := Nat.mul_pos (Nat.pos_of_ne_zero hne) hpos
  omega

theorem length_cString_le (s : Bytes) : (cString s).length ≤ s.length :=
  (List.takeWhile_sublist _).length_le

/-- Over zeros, a message is received as it was sent only if both calls return all the bytes
they ask for. -/
theorem full_of_printed {m : Bytes} (hm : Displayable m) {portion portion' : ℕ+} {s rest : Bytes}
    (h : receiveMessage zeroWord portion portion' (frame m ++ s) = .printed (.message m) rest) :
    4 ≤ (portion : ℕ) ∧ m.length ≤ (portion' : ℕ) := by
  obtain ⟨hne, -, hlength⟩ := hm
  have htext := text_of_printed h
  have hle := (congrArg List.length htext).trans_le (length_cString_le _)
  rw [List.length_take] at hle
  refine ⟨?_, by omega⟩
  by_contra hshort
  have hmin : min (portion : ℕ) 4 = portion := min_eq_left (by omega)
  rw [hmin] at htext hle
  -- the bytes of the length that are received, and those that are left for the body
  obtain ⟨b, bs, hleft⟩ : ∃ b bs, (frameHeader m).drop portion = b :: bs := by
    refine List.exists_cons_of_ne_nil fun hnil => ?_
    have := congrArg List.length hnil
    simp [frameHeader] at this
    omega
  have hsplit : frameHeader m = (frameHeader m).take portion ++ b :: bs := by
    rw [← hleft, List.take_append_drop]
  have hheader : (frameHeader m).length = 4 := length_beBytes 4 _
  have htake : (frame m ++ s).take portion = (frameHeader m).take portion := by
    rw [frame, List.append_assoc, List.take_append_of_le_length (by omega)]
  have hdrop : (frame m ++ s).drop portion = b :: bs ++ (m ++ s) := by
    rw [frame, List.append_assoc, List.drop_append_of_le_length (by omega), hleft]
  have hzeros : zeroWord.1.drop ((frameHeader m).take portion).length =
      List.replicate (b :: bs).length 0 := by
    have hcount : (b :: bs).length = 4 - portion := by rw [← hleft, List.length_drop, hheader]
    have htaken : ((frameHeader m).take portion).length = portion := by
      rw [List.length_take, hheader]
      omega
    rw [htaken, hcount]
    change (List.replicate 4 0).drop portion = _
    exact List.drop_replicate
  have hsum := beNat_append ((frameHeader m).take portion) (b :: bs)
  have hrequest := beNat_append ((frameHeader m).take portion) (List.replicate (b :: bs).length 0)
  have htotal : beNat (frameHeader m) = m.length := beNat_beBytes (by omega)
  rw [← hsplit, htotal] at hsum
  rw [beNat_zeros, List.length_replicate] at hrequest
  rw [htake, hzeros, hrequest] at hle
  have hb : b = 0 := eq_zero_of_beNat_eq_zero bs (by omega)
  refine hne ?_
  rw [htext, hdrop, hb]
  rcases min (portion' : ℕ) _ with _ | n <;> rfl

/-- Of a stream of frames every message is printed, whatever was in memory, exactly when each call
of `recv` returns all the bytes it asks for. -/
theorem outputs_iff (ms : List Bytes) (hms : ∀ m ∈ ms, Displayable m) (portions : ℕ → ℕ+) :
    (∀ uninit, (receiveMessages uninit portions (ms.flatMap frame)).outputs =
      ms.map Printed.message) ↔ FullReads portions ms := by
  have hshown : ∀ m, Displayable m → shown m = .message m := fun m hm => by
    rw [shown, if_neg hm.1, cString_eq_self hm.2.1]
  constructor
  · intro h
    induction ms generalizing portions with
    | nil => exact fun i m hm => by simp at hm
    | cons m ms ih =>
      rw [List.forall_mem_cons] at hms
      have hfirst : ∀ uninit : ℕ → Word, ∃ rest, receiveMessage (uninit 0) (portions 0) (portions 1)
          (frame m ++ ms.flatMap frame) = .printed (.message m) rest := by
        intro uninit
        have hall := h uninit
        rw [List.flatMap_cons] at hall
        cases hturn : receiveMessage (uninit 0) (portions 0) (portions 1)
            (frame m ++ ms.flatMap frame) with
        | ended ending =>
          rw [receiveMessages_of_ended hturn] at hall
          cases hall
        | printed output rest =>
          rw [receiveMessages_of_printed hturn] at hall
          obtain rfl : output = .message m := (List.cons.inj hall).1
          exact ⟨rest, rfl⟩
      obtain ⟨rest, hturn⟩ := hfirst fun _ => zeroWord
      have hfull := full_of_printed hms.1 hturn
      refine fullReads_cons.mpr ⟨hfull, ih hms.2 _ fun uninit => ?_⟩
      have hall := h (firstWord zeroWord uninit)
      rw [List.flatMap_cons, receiveMessages_of_printed (receiveMessage_full hms.1.2.2 _ hfull.1
        hfull.2 _)] at hall
      exact (List.cons.inj hall).2
  · intro hfull uninit
    rw [receiveMessages_full (fun m hm => (hms m hm).2.2) hfull]
    exact List.map_congr_left fun m hm => hshown m (hms m hm)

theorem outputs_two : FullReads (fun _ => 4) [[0x61, 0x62], [0x63]] ∧
    ∀ uninit, (receiveMessages uninit (fun _ => 4)
      ([[0x61, 0x62], [0x63]].flatMap frame)).outputs =
        [[0x61, 0x62], [0x63]].map Printed.message := by
  have hfull : FullReads (fun _ => 4) [[0x61, 0x62], [0x63]] := by
    rintro (_ | _ | i) m hm <;> cases hm <;> decide
  exact ⟨hfull, (outputs_iff [[0x61, 0x62], [0x63]] (by decide) fun _ => 4).mpr hfull⟩

/-- If no two threads send to the client at once, it prints every message that the server has sent
it, in order, once its calls of `recv` return all the bytes they ask for. The end is noted after
them if the connection ends there. -/
theorem outputs_of_separate {ι : Type} [DecidableEq ι] (actions : List (Action ι))
    (hseparate : AllSteps State.step State.Separate State.init actions) (client : Socket)
    (hopen : client ∈ (actions.foldl State.step State.init).directory.opened)
    (hmid : ¬ (actions.foldl State.step State.init).MidFrame client)
    (hlength : ∀ m ∈ (actions.foldl State.step State.init).messages client, m.length < 2 ^ 31 - 1)
    (portions : ℕ → ℕ+)
    (hfull : FullReads portions ((actions.foldl State.step State.init).messages client))
    (uninit : ℕ → Word) :
    receiveMessages uninit portions ((actions.foldl State.step State.init).stream client) =
      ⟨((actions.foldl State.step State.init).messages client).map shown, .disconnected⟩ := by
  have hframing : AllStates State.step State.Framing State.init actions :=
    allStates_of_allSteps (I := State.Framing)
      (fun s a hs ha => hs.effect ha (s.effect_step a)) (fun _ hs => hs) State.framing_init
      hseparate
  rw [hframing.last.between client hopen hmid]
  exact receiveMessages_full hlength hfull uninit

/-- The server answers a message that it does not know. -/
def answered : List (Action ℕ) := [.accept 4, .start 0, .receive 0 [0x3F], .step 0, .step 0]

theorem outputs_of_separate_answered :
    receiveMessages (fun _ => zeroWord) (fun _ => 32)
      ((answered.foldl State.step State.init).stream 4) =
        ⟨((answered.foldl State.step State.init).messages 4).map shown, .disconnected⟩ := by
  apply outputs_of_separate answered
  · refine ⟨?_, trivial, trivial, ?_, ?_, trivial⟩
    · rintro ⟨i, m, hi⟩
      cases hi
    · intro t client message next hthread _ hprogram
      obtain rfl := Option.some.inj hthread
      obtain ⟨rfl, rfl, rfl⟩ := Program.sendMessage.inj hprogram
      refine ⟨by decide, ?_⟩
      rintro ⟨_ | i, m, hi⟩ <;> cases hi
    · intro t client message next hthread hsending
      obtain rfl := Option.some.inj hthread
      cases hsending
  · decide
  · rintro ⟨_ | i, m, hi⟩ <;> cases hi
  · decide
  · rintro (_ | i) m hm <;> cases hm
    decide

section Sending

/-- The messages that the loop of `main` sends for the lines it reads. -/
def mainLoop : List Bytes → List Bytes
  | [] => []
  | msg :: input =>
    if msg = [] then mainLoop input
    else if msg = ascii "logout" then [msg]
    else msg :: mainLoop input

/-- The messages that `main` sends, the first one to log in. Without a username it sends none. -/
def main (username : Bytes) (input : List Bytes) : List Bytes :=
  if username = [] then [] else (ascii "login:" ++ username) :: mainLoop input

/-- The messages up to the first one that logs out. -/
def upToLogout : List Bytes → List Bytes
  | [] => []
  | m :: ms => if IsLogout m then [m] else m :: upToLogout ms

theorem handleClient_full {ms : List Bytes} (hms : ∀ m ∈ ms, Sendable m) {portions : ℕ → ℕ+}
    (hfull : FullReads portions ms) (uninit : ℕ → Word) :
    (handleClient uninit portions (ms.flatMap frame)).messages = upToLogout ms := by
  induction ms generalizing portions uninit with
  | nil =>
    have hended : ChatServer.receiveMessage (uninit 0) (portions 0) (portions 1) [] =
        .ended .closed := by simp [ChatServer.receiveMessage, recv]
    rw [List.flatMap_nil, handleClient_of_ended hended]
    rfl
  | cons m ms ih =>
    rw [List.forall_mem_cons] at hms
    obtain ⟨⟨hportion, hportion'⟩, hrest⟩ := fullReads_cons.mp hfull
    rw [List.flatMap_cons, handleClient_of_received
      (ChatServer.receiveMessage_full hms.1 (uninit 0) hportion hportion' _), ih hms.2 hrest,
      upToLogout]

theorem upToLogout_eq_self_iff (ms : List Bytes) :
    upToLogout ms = ms ↔ ∀ m ∈ ms.dropLast, ¬ IsLogout m := by
  induction ms with
  | nil => simp [upToLogout]
  | cons m ms ih =>
    rw [upToLogout, forall_mem_dropLast_cons, ← ih]
    split_ifs with hlogout
    · constructor
      · intro h
        obtain rfl := (List.cons.inj h).2
        exact ⟨fun hne => absurd rfl hne, rfl⟩
      · rintro ⟨h, -⟩
        rw [not_ne_iff.mp fun hne => h hne hlogout]
    · simp [hlogout]

/-- The server takes a message for a logout if there is nothing or a colon after the word. -/
theorem isLogout_iff {m : Bytes} :
    IsLogout m ↔ m = ascii "logout" ∨ ascii "logout:" <+: m := by
  have hevent : ∀ event, eventType event = .logout ↔ event = ascii "logout" := by
    intro event
    constructor
    · intro h
      rw [eventType] at h
      split_ifs at h
      assumption
    · rintro rfl
      decide
  have hcolon : ascii "logout:" = ascii "logout" ++ [colon] := by decide
  rw [IsLogout, parseMessage]
  by_cases hmem : colon ∈ m
  · obtain ⟨event, data, rfl, he⟩ := List.eq_append_cons_of_mem hmem
    rw [cut_append_sep he, hevent]
    constructor
    · rintro rfl
      exact .inr ⟨data, by rw [hcolon, List.append_assoc, List.singleton_append]⟩
    · rintro (h | ⟨rest, h⟩)
      · rw [h] at hmem
        exact absurd hmem (by decide)
      · have hcut := congrArg (cut colon) h
        rw [hcolon, List.append_assoc, List.singleton_append, cut_append_sep (by decide),
          cut_append_sep he] at hcut
        exact (Prod.ext_iff.mp (Option.some.inj hcut)).1.symm
  · rw [cut, if_neg hmem, hevent]
    refine ⟨.inl, fun h => h.resolve_right ?_⟩
    rintro ⟨rest, rfl⟩
    exact hmem (by simp [hcolon])

theorem not_isLogout_login (username : Bytes) : ¬ IsLogout (ascii "login:" ++ username) := by
  have hlogin : ascii "login:" ++ username = loginMessage username := by
    rw [loginMessage, List.append_cons]
    rfl
  rw [IsLogout, hlogin, parseMessage_loginMessage]
  rintro ⟨⟩

/-- The loop ends with the line that is just the word. -/
theorem ne_logout_of_mem_dropLast {input : List Bytes} {m : Bytes}
    (h : m ∈ (mainLoop input).dropLast) : m ≠ ascii "logout" := by
  induction input with
  | nil => cases h
  | cons msg input ih =>
    rw [mainLoop] at h
    split_ifs at h with hnil hlogout
    · exact ih h
    · cases h
    · cases hrest : mainLoop input with
      | nil =>
        rw [hrest] at h
        cases h
      | cons next rest =>
        rw [hrest, List.dropLast_cons_of_ne_nil (List.cons_ne_nil _ _), ← hrest] at h
        rcases List.mem_cons.mp h with rfl | hmem
        · exact hlogout
        · exact ih hmem

theorem mem_of_mem_mainLoop {input : List Bytes} {m : Bytes} (h : m ∈ mainLoop input) :
    m ∈ input ∧ m ≠ [] := by
  induction input with
  | nil => cases h
  | cons msg input ih =>
    rw [mainLoop] at h
    split_ifs at h with hnil hlogout
    · exact (ih h).imp_left (List.mem_cons_of_mem _)
    · rw [List.mem_singleton.mp h]
      exact ⟨List.mem_cons_self, hnil⟩
    · rcases List.mem_cons.mp h with rfl | hmem
      · exact ⟨List.mem_cons_self, hnil⟩
      · exact (ih hmem).imp_left (List.mem_cons_of_mem _)

/-- With full reads, the server processes everything that a client sends exactly if no line but
the last one that is sent begins with the word for a logout and a colon: after such a line the
server leaves, and the client goes on to send. -/
theorem processed_all_iff (username : Bytes) (input : List Bytes)
    (hname : (ascii "login:" ++ username).length < bufferSize ∧ 0 ∉ username)
    (hinput : ∀ msg ∈ input, msg.length < bufferSize ∧ 0 ∉ msg) (portions : ℕ → ℕ+)
    (hfull : FullReads portions (main username input)) (uninit : ℕ → Word) :
    (handleClient uninit portions ((main username input).flatMap frame)).messages =
        main username input ↔
      username = [] ∨ ∀ msg ∈ (mainLoop input).dropLast, ¬ ascii "logout:" <+: msg := by
  have hsendable : ∀ m ∈ main username input, Sendable m := by
    intro m hm
    rw [main] at hm
    split_ifs at hm with hempty
    · cases hm
    · rcases List.mem_cons.mp hm with rfl | hmem
      · exact ⟨by simp [ascii], hname.1, by simp [hname.2]; decide⟩
      · obtain ⟨hmem, hne⟩ := mem_of_mem_mainLoop hmem
        exact ⟨hne, hinput m hmem⟩
  rw [handleClient_full hsendable hfull, upToLogout_eq_self_iff, main]
  split_ifs with hempty
  · simp [hempty]
  · rw [forall_mem_dropLast_cons]
    have hlast : ∀ msg ∈ (mainLoop input).dropLast,
        ¬ IsLogout msg ↔ ¬ ascii "logout:" <+: msg := by
      intro msg hmsg
      rw [isLogout_iff, or_iff_right (ne_logout_of_mem_dropLast hmsg)]
    simp only [hempty, false_or, not_isLogout_login, not_false_eq_true, implies_true, true_and]
    exact forall₂_congr hlast

theorem processed_all_two : (handleClient (fun _ => zeroWord) (fun _ => 16)
    ((main [0x62] [[], [0x61]]).flatMap frame)).messages = main [0x62] [[], [0x61]] ↔
      ([0x62] : Bytes) = [] ∨ ∀ msg ∈ (mainLoop [[], [0x61]]).dropLast,
        ¬ ascii "logout:" <+: msg := by
  apply processed_all_iff [0x62] [[], [0x61]] (by decide) (by decide)
  rintro (_ | _ | i) m hm <;> cases hm <;> decide

end Sending

end BuildYourOwnStuff.ChatServer.Client
