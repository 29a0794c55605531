import BuildYourOwnStuff.MultiThreading.TwoLocks

/-!
# A consumer with `std::try_lock`

Two threads increment `X` and `Y` five times each, and a third one adds up what it
finds in both and resets them, until it has found something in both five times. It
finishes only if it has found exactly one increment in each of them every time.
-/

namespace BuildYourOwnStuff.MultiThreading.TryLock

open Foundations Threads

/-- The two variables. The last two fields are not read: the increments of each variable, and
what the consumer has found. -/
structure Shared where
  value : Mutex → ℕ
  added : Mutex → ℕ
  found : List (ℕ × ℕ)

/-- `incrementXY`, with the loop iterations that are left, and `consumeXY`, with `useCount` and
`XplusY`. -/
inductive Place
  | lock (left : ℕ)
  | increment (left : ℕ)
  | unlock (left : ℕ)
  | tryM1 (useCount XplusY : ℕ)
  | tryM2 (useCount XplusY : ℕ)
  | giveBack (useCount XplusY : ℕ)
  | check (useCount XplusY : ℕ)
  | use (useCount XplusY : ℕ)
  | resetX (useCount XplusY : ℕ)
  | resetY (useCount XplusY : ℕ)
  | unlockM1 (useCount XplusY : ℕ)
  | unlockM2 (useCount XplusY : ℕ)
  deriving DecidableEq, Repr

/-- `t1` and `t2` increment the variable that goes with a mutex, `X` with `m1` and `Y` with
`m2`; `t3` is the consumer. -/
inductive Worker
  | incrementer (m : Mutex)
  | consumer
  deriving DecidableEq, Repr

instance : Fintype Worker :=
  ⟨{.incrementer .m1, .incrementer .m2, .consumer}, fun i => by
    rcases i with (_ | _) | _ <;> decide⟩

/-- The mutex that the thread locks by `lock`; the consumer never does. -/
def Worker.mutex : Worker → Mutex
  | incrementer m => m
  | consumer => .m1

def Shared.increment (v : Shared) (m : Mutex) : Shared :=
  { v with
    value := Function.update v.value m (v.value m + 1)
    added := Function.update v.added m (v.added m + 1) }

def Shared.reset (v : Shared) (m : Mutex) : Shared :=
  { v with value := Function.update v.value m 0 }

def Shared.find (v : Shared) : Shared :=
  { v with found := v.found ++ [(v.value .m1, v.value .m2)] }

def program (i : Worker) : Place → Op Shared Mutex Empty Place
  | .lock left => if left = 0 then .done else .lock i.mutex (.increment left)
  | .increment left => .access fun v => (v.increment i.mutex, .unlock left)
  | .unlock left => .unlock i.mutex (.lock (left - 1))
  | .tryM1 useCount XplusY =>
    if useCount = 0 then .done
    else .tryLock .m1 (.tryM2 useCount XplusY) (.tryM1 useCount XplusY)
  | .tryM2 useCount XplusY => .tryLock .m2 (.check useCount XplusY) (.giveBack useCount XplusY)
  | .giveBack useCount XplusY => .unlock .m1 (.tryM1 useCount XplusY)
  | .check useCount XplusY => .access fun v =>
    (v, if v.value .m1 ≠ 0 ∧ v.value .m2 ≠ 0 then .use useCount XplusY
      else .unlockM1 useCount XplusY)
  | .use useCount XplusY => .access fun v =>
    (v.find, .resetX (useCount - 1) (XplusY + (v.value .m1 + v.value .m2)))
  | .resetX useCount XplusY => .access fun v => (v.reset .m1, .resetY useCount XplusY)
  | .resetY useCount XplusY => .access fun v => (v.reset .m2, .unlockM1 useCount XplusY)
  | .unlockM1 useCount XplusY => .unlock .m1 (.unlockM2 useCount XplusY)
  | .unlockM2 useCount XplusY => .unlock .m2 (.tryM1 useCount XplusY)

def held (i : Worker) : Place → Finset Mutex
  | .lock _ | .tryM1 _ _ => ∅
  | .increment _ | .unlock _ => {i.mutex}
  | .tryM2 _ _ | .giveBack _ _ => {.m1}
  | .unlockM2 _ _ => {.m2}
  | _ => {.m1, .m2}

def start : Worker → Place
  | .incrementer _ => .lock 5
  | .consumer => .tryM1 5 0

def init : Threads Worker Shared Mutex Empty Place :=
  Threads.start ⟨fun _ => 0, fun _ => 0, []⟩ start

def run (actions : List (Action Worker)) : Threads Worker Shared Mutex Empty Place :=
  actions.foldl (step program) init

theorem discipline : Discipline program held := by
  intro i l
  cases l with
  | lock left =>
    rw [program]
    split_ifs <;> simp [Op.Disciplined, held]
  | tryM1 useCount XplusY =>
    rw [program]
    split_ifs <;> simp [Op.Disciplined, held]
  | tryM2 useCount XplusY =>
    refine ⟨by simp [held], ?_, rfl⟩
    simp only [held]
    decide
  | check useCount XplusY =>
    intro v
    dsimp only
    split_ifs <;> rfl
  | unlockM1 useCount XplusY =>
    refine ⟨by simp [held], ?_⟩
    simp only [held]
    decide
  | _ => simp [program, Op.Disciplined, held]

/-- What the consumer has found in a variable. -/
def foundIn (m : Mutex) (v : Shared) : ℕ :=
  match m with
  | .m1 => (v.found.map Prod.fst).sum
  | .m2 => (v.found.map Prod.snd).sum

/-- The increments of a variable are those found and those still in it. -/
def Balanced (m : Mutex) (v : Shared) : Prop := foundIn m v + v.value m = v.added m

/-- The increments of a variable are those that the consumer has found. -/
def AllFound (m : Mutex) (v : Shared) : Prop := foundIn m v = v.added m

/-- What the consumer has done. -/
structure Consumed (useCount XplusY : ℕ) (v : Shared) : Prop where
  length : v.found.length + useCount = 5
  sum : XplusY = foundIn .m1 v + foundIn .m2 v
  pos : ∀ p ∈ v.found, p.1 ≠ 0 ∧ p.2 ≠ 0

def Asserts (i : Worker) (l : Place) (v : Shared) : Prop :=
  match i, l with
  | .incrementer m, .lock left => v.added m + left = 5
  | .incrementer m, .increment left => v.added m + left = 5 ∧ left ≠ 0 ∧ Balanced m v
  | .incrementer m, .unlock left => v.added m + left = 6 ∧ left ≠ 0 ∧ Balanced m v
  | .consumer, .tryM1 useCount XplusY => Consumed useCount XplusY v
  | .consumer, .tryM2 useCount XplusY =>
    useCount ≠ 0 ∧ Consumed useCount XplusY v ∧ Balanced .m1 v
  | .consumer, .giveBack useCount XplusY => Consumed useCount XplusY v ∧ Balanced .m1 v
  | .consumer, .check useCount XplusY =>
    useCount ≠ 0 ∧ Consumed useCount XplusY v ∧ Balanced .m1 v ∧ Balanced .m2 v
  | .consumer, .use useCount XplusY =>
    useCount ≠ 0 ∧ Consumed useCount XplusY v ∧ Balanced .m1 v ∧ Balanced .m2 v ∧
      v.value .m1 ≠ 0 ∧ v.value .m2 ≠ 0
  | .consumer, .resetX useCount XplusY =>
    Consumed useCount XplusY v ∧ AllFound .m1 v ∧ AllFound .m2 v
  | .consumer, .resetY useCount XplusY =>
    Consumed useCount XplusY v ∧ Balanced .m1 v ∧ AllFound .m2 v
  | .consumer, .unlockM1 useCount XplusY =>
    Consumed useCount XplusY v ∧ Balanced .m1 v ∧ Balanced .m2 v
  | .consumer, .unlockM2 useCount XplusY => Consumed useCount XplusY v ∧ Balanced .m2 v
  | _, _ => False

theorem Balanced.increment {m : Mutex} {v : Shared} (h : Balanced m v) (n : Mutex) :
    Balanced m (v.increment n) := by
  rw [Balanced] at h ⊢
  change foundIn m v + Function.update v.value n _ m = Function.update v.added n _ m
  by_cases hn : m = n
  · subst hn
    rw [Function.update_self, Function.update_self]
    omega
  · rwa [Function.update_of_ne hn, Function.update_of_ne hn]

theorem AllFound.reset {m : Mutex} {v : Shared} (h : AllFound m v) : Balanced m (v.reset m) := by
  change foundIn m v + Function.update v.value m 0 m = v.added m
  rwa [Function.update_self]

theorem Balanced.reset_of_ne {m n : Mutex} {v : Shared} (h : Balanced m v) (hne : m ≠ n) :
    Balanced m (v.reset n) := by
  change foundIn m v + Function.update v.value n 0 m = v.added m
  rwa [Function.update_of_ne hne]

theorem Consumed.increment {useCount XplusY : ℕ} {v : Shared} (h : Consumed useCount XplusY v)
    (m : Mutex) : Consumed useCount XplusY (v.increment m) :=
  ⟨h.length, h.sum, h.pos⟩

theorem Consumed.reset {useCount XplusY : ℕ} {v : Shared} (h : Consumed useCount XplusY v)
    (m : Mutex) : Consumed useCount XplusY (v.reset m) :=
  ⟨h.length, h.sum, h.pos⟩

theorem foundIn_find (m : Mutex) (v : Shared) : foundIn m v.find = foundIn m v + v.value m := by
  cases m <;> simp [foundIn, Shared.find]

theorem Balanced.find {m : Mutex} {v : Shared} (h : Balanced m v) : AllFound m v.find := by
  rw [AllFound, foundIn_find]
  exact h

theorem Consumed.find {useCount XplusY : ℕ} {v : Shared} (h : Consumed useCount XplusY v)
    (huse : useCount ≠ 0) (hX : v.value .m1 ≠ 0) (hY : v.value .m2 ≠ 0) :
    Consumed (useCount - 1) (XplusY + (v.value .m1 + v.value .m2)) v.find where
  length := by
    have hlength := h.length
    simp only [Shared.find, List.length_append, List.length_singleton]
    omega
  sum := by
    rw [foundIn_find, foundIn_find, h.sum]
    omega
  pos := List.forall_mem_append.mpr ⟨h.pos, List.forall_mem_singleton.mpr ⟨hX, hY⟩⟩

/-- An increment under a mutex keeps what a thread without that mutex knows. -/
theorem Asserts.increment {m : Mutex} {j : Worker} {l : Place} {v : Shared}
    (h : Asserts j l v) (hne : .incrementer m ≠ j) (hdisjoint : Disjoint {m} (held j l)) :
    Asserts j l (v.increment m) := by
  cases j with
  | incrementer n =>
    have hn : n ≠ m := fun h => hne (by rw [h])
    have hadded : (v.increment m).added n = v.added n := Function.update_of_ne hn _ _
    cases l with
    | lock left => exact (congrArg (· + left) hadded).trans h
    | increment left => exact ⟨(congrArg (· + left) hadded).trans h.1, h.2.1, h.2.2.increment m⟩
    | unlock left => exact ⟨(congrArg (· + left) hadded).trans h.1, h.2.1, h.2.2.increment m⟩
    | _ => exact h
  | consumer =>
    cases l with
    | tryM1 useCount XplusY => exact Consumed.increment h m
    | tryM2 useCount XplusY => exact ⟨h.1, h.2.1.increment m, h.2.2.increment m⟩
    | giveBack useCount XplusY => exact ⟨h.1.increment m, h.2.increment m⟩
    | unlockM2 useCount XplusY => exact ⟨h.1.increment m, h.2.increment m⟩
    | lock left => exact h
    | increment left => exact h
    | unlock left => exact h
    | _ => cases m <;> simp [held] at hdisjoint

/-- What an incrementer knows about a variable that the consumer does not have. -/
theorem Asserts.of_both {j : Worker} {l : Place} {v v' : Shared} (h : Asserts j l v)
    (hne : .consumer ≠ j) (hadded : v'.added = v.added)
    (hdisjoint : Disjoint {.m1, .m2} (held j l)) : Asserts j l v' := by
  cases j with
  | consumer => exact absurd rfl hne
  | incrementer m =>
    have hm : v'.added m = v.added m := congrFun hadded m
    cases l with
    | lock left => exact (congrArg (· + left) hm).trans h
    | increment left => cases m <;> simp [held, Worker.mutex] at hdisjoint
    | unlock left => cases m <;> simp [held, Worker.mutex] at hdisjoint
    | _ => exact h

theorem outline_incrementer (m : Mutex) (l : Place) :
    (program (.incrementer m) l).Outlined held Asserts Balanced (.incrementer m) l := by
  cases l with
  | lock left =>
    rw [program]
    split_ifs with hleft
    · trivial
    · exact fun v hA hR => ⟨hA, hleft, hR⟩
  | increment left =>
    rintro v ⟨hadded, hleft, hbalanced⟩
    refine ⟨⟨?_, hleft, hbalanced.increment m⟩, fun n _ hR => Balanced.increment hR m,
      fun j l' hne hA' hdisjoint => Asserts.increment hA' hne hdisjoint⟩
    change Function.update v.added m (v.added m + 1) m + left = 6
    rw [Function.update_self]
    omega
  | unlock left =>
    rintro v ⟨hadded, hleft, hbalanced⟩
    refine ⟨?_, hbalanced⟩
    change v.added m + (left - 1) = 5
    omega
  | tryM1 useCount XplusY =>
    rw [program]
    split_ifs
    · trivial
    · exact fun v hA => hA.elim
  | tryM2 useCount XplusY => exact fun v hA => hA.elim
  | _ => exact fun v hA => hA.elim

theorem outline_consumer (l : Place) :
    (program .consumer l).Outlined held Asserts Balanced .consumer l := by
  have hnone : ∀ {P : Prop} (n : Mutex), n ∉ ({.m1, .m2} : Finset Mutex) → P := by
    intro P n hn
    cases n <;> simp at hn
  cases l with
  | tryM1 useCount XplusY =>
    rw [program]
    split_ifs with huse
    · trivial
    · exact fun v hA => ⟨fun hR => ⟨huse, hA, hR⟩, hA⟩
  | tryM2 useCount XplusY =>
    exact fun v hA => ⟨fun hR => ⟨hA.1, hA.2.1, hA.2.2, hR⟩, hA.2.1, hA.2.2⟩
  | giveBack useCount XplusY => exact fun v hA => hA
  | check useCount XplusY =>
    rintro v ⟨huse, hconsumed, hX, hY⟩
    refine ⟨?_, fun n _ hR => hR, fun j l' _ hA' _ => hA'⟩
    dsimp only
    split_ifs with hboth
    · exact ⟨huse, hconsumed, hX, hY, hboth⟩
    · exact ⟨hconsumed, hX, hY⟩
  | use useCount XplusY =>
    rintro v ⟨huse, hconsumed, hX, hY, hX0, hY0⟩
    exact ⟨⟨hconsumed.find huse hX0 hY0, hX.find, hY.find⟩, fun n hn => hnone n hn,
      fun j l' hne hA' hdisjoint => Asserts.of_both hA' hne rfl hdisjoint⟩
  | resetX useCount XplusY =>
    rintro v ⟨hconsumed, hX, hY⟩
    exact ⟨⟨hconsumed.reset _, hX.reset, hY⟩, fun n hn => hnone n hn,
      fun j l' hne hA' hdisjoint => Asserts.of_both hA' hne rfl hdisjoint⟩
  | resetY useCount XplusY =>
    rintro v ⟨hconsumed, hX, hY⟩
    exact ⟨⟨hconsumed.reset _, hX.reset_of_ne (by decide), hY.reset⟩, fun n hn => hnone n hn,
      fun j l' hne hA' hdisjoint => Asserts.of_both hA' hne rfl hdisjoint⟩
  | unlockM1 useCount XplusY => exact fun v hA => ⟨⟨hA.1, hA.2.2⟩, hA.2.1⟩
  | unlockM2 useCount XplusY => exact fun v hA => hA
  | lock left =>
    rw [program]
    split_ifs
    · trivial
    · exact fun v hA => hA.elim
  | _ => exact fun v hA => hA.elim

theorem outline : Outline program held Asserts Balanced := by
  rintro (m | _) l
  · exact outline_incrementer m l
  · exact outline_consumer l

theorem asserted_run (actions : List (Action Worker)) :
    Asserted Asserts Balanced (run actions) := by
  refine Threads.asserted_run discipline outline (exclusive_start ?_) ⟨?_, fun m _ => ?_⟩ actions
  · rintro (m | _) <;> rfl
  · rintro (m | _)
    · rfl
    · exact ⟨rfl, rfl, by simp [Threads.start]⟩
  · cases m <;> rfl

theorem exclusive_run (actions : List (Action Worker)) : Exclusive held (run actions) := by
  refine Threads.exclusive_run discipline (exclusive_start ?_) actions
  rintro (m | _) <;> rfl

theorem added_le (actions : List (Action Worker)) (m : Mutex) :
    (run actions).memory.added m ≤ 5 := by
  have h := (asserted_run actions).place (.incrementer m)
  cases hplace : (run actions).place (.incrementer m) with
  | lock left =>
    rw [hplace] at h
    have hsum : (run actions).memory.added m + left = 5 := h
    omega
  | increment left =>
    rw [hplace] at h
    have hsum : (run actions).memory.added m + left = 5 := h.1
    omega
  | unlock left =>
    rw [hplace] at h
    have hsum : (run actions).memory.added m + left = 6 := h.1
    have hleft : left ≠ 0 := h.2.1
    omega
  | _ =>
    rw [hplace] at h
    exact h.elim

/-- While the consumer has no mutex, the increments of a variable are those found and those still
in it, also when the other thread has its mutex. -/
theorem balanced_of_consumer (actions : List (Action Worker))
    (h : held .consumer ((run actions).place .consumer) = ∅) (m : Mutex) :
    Balanced m (run actions).memory := by
  cases hholder : (run actions).holder m with
  | none => exact (asserted_run actions).free m hholder
  | some i =>
    have hmem := (exclusive_run actions m i).mp hholder
    have hplace := (asserted_run actions).place i
    cases i with
    | consumer =>
      rw [h] at hmem
      cases hmem
    | incrementer n =>
      cases hl : (run actions).place (.incrementer n) with
      | lock left =>
        rw [hl] at hmem
        cases hmem
      | increment left =>
        rw [hl] at hmem hplace
        obtain rfl : m = n := Finset.mem_singleton.mp hmem
        exact hplace.2.2
      | unlock left =>
        rw [hl] at hmem hplace
        obtain rfl : m = n := Finset.mem_singleton.mp hmem
        exact hplace.2.2
      | _ =>
        rw [hl] at hplace
        exact hplace.elim

/-- Positive numbers with a sum that is no more than how many they are. -/
theorem eq_replicate_of_sum_le {ns : List ℕ} (hpos : ∀ n ∈ ns, n ≠ 0) (hsum : ns.sum ≤ ns.length) :
    ns = List.replicate ns.length 1 := by
  have hge : ∀ ns : List ℕ, (∀ n ∈ ns, n ≠ 0) → ns.length ≤ ns.sum := by
    intro ns hpos
    have h := List.card_nsmul_le_sum ns 1 fun n hn => Nat.one_le_iff_ne_zero.mpr (hpos n hn)
    simpa using h
  induction ns with
  | nil => rfl
  | cons n ns ih =>
    rw [List.forall_mem_cons] at hpos
    have hrest := hge ns hpos.2
    rw [List.sum_cons, List.length_cons] at hsum
    have hn : n = 1 := by
      have := hpos.1
      omega
    rw [List.length_cons, List.replicate_succ, hn, ← ih hpos.2 (by omega)]

/-- The consumer has found one increment in each variable, five times. -/
structure Finished (XplusY : ℕ) (v : Shared) : Prop where
  sum : XplusY = 10
  found : v.found = List.replicate 5 (1, 1)
  value : ∀ m, v.value m = 0
  added : ∀ m, v.added m = 5

theorem finished_of_place {actions : List (Action Worker)} {XplusY : ℕ}
    (h : (run actions).place .consumer = .tryM1 0 XplusY) :
    Finished XplusY (run actions).memory := by
  have hconsumed : Consumed 0 XplusY (run actions).memory := by
    have hplace := (asserted_run actions).place .consumer
    rw [h] at hplace
    exact hplace
  have hbalanced := balanced_of_consumer actions (by rw [h]; rfl)
  obtain ⟨hlength, hsum, hpos⟩ := hconsumed
  have hones : ∀ f : ℕ × ℕ → ℕ, (∀ p ∈ (run actions).memory.found, f p ≠ 0) →
      ((run actions).memory.found.map f).sum ≤ 5 →
        (run actions).memory.found.map f = List.replicate 5 1 := by
    intro f hf hle
    have hmap : ((run actions).memory.found.map f).length = 5 := by
      rw [List.length_map]
      exact hlength
    rw [← hmap]
    exact eq_replicate_of_sum_le (List.forall_mem_map.mpr hf) (hmap ▸ hle)
  have hX := hbalanced .m1
  have hY := hbalanced .m2
  have hfst := hones Prod.fst (fun p hp => (hpos p hp).1)
    ((Nat.le_add_right _ _).trans (hX.le.trans (added_le actions .m1)))
  have hsnd := hones Prod.snd (fun p hp => (hpos p hp).2)
    ((Nat.le_add_right _ _).trans (hY.le.trans (added_le actions .m2)))
  have hfound : (run actions).memory.found = List.replicate 5 (1, 1) := by
    rw [← List.zip_unzip (run actions).memory.found, List.unzip_eq_map, hfst, hsnd]
    rfl
  have hfive : ∀ m, foundIn m (run actions).memory = 5 := by
    intro m
    cases m <;> simp [foundIn, hfound]
  have hvalue : ∀ m, (run actions).memory.value m = 0 ∧ (run actions).memory.added m = 5 := by
    intro m
    have hm : foundIn m (run actions).memory + (run actions).memory.value m =
        (run actions).memory.added m := hbalanced m
    have hle := added_le actions m
    rw [hfive] at hm
    omega
  rw [hfive, hfive] at hsum
  exact ⟨hsum, hfound, fun m => (hvalue m).1, fun m => (hvalue m).2⟩

/-- What was found stays found. -/
theorem found_move {s s' : Threads Worker Shared Mutex Empty Place} (hmove : Move program s s') :
    s.memory.found <+: s'.memory.found := by
  cases hmove with
  | @access i f hi hop =>
    change s.memory.found <+: (f s.memory).1.found
    cases hl : s.place i <;> rw [hl, program] at hop <;> (try split_ifs at hop) <;> cases hop
    all_goals first | exact List.prefix_refl _ | exact List.prefix_append _ _
  | _ => exact List.prefix_refl _

theorem found_run (actions more : List (Action Worker)) :
    (run actions).memory.found <+: (run (actions ++ more)).memory.found := by
  have happend : run (actions ++ more) = more.foldl (step program) (run actions) :=
    List.foldl_append
  rw [happend]
  let Kept (s : Threads Worker Shared Mutex Empty Place) : Prop :=
    (run actions).memory.found <+: s.memory.found
  have hmove : ∀ s s', Kept s → Move program s s' → Kept s' := fun s s' h hmove =>
    List.IsPrefix.trans h (found_move hmove)
  exact run_invariant (I := Kept) (fun s i h => h) hmove (List.prefix_refl _) more

theorem not_finished_of_found {actions : List (Action Worker)} {p : ℕ × ℕ}
    (hp : p ∈ (run actions).memory.found) (hne : p ≠ (1, 1)) (more : List (Action Worker))
    (XplusY : ℕ) : (run (actions ++ more)).place .consumer ≠ .tryM1 0 XplusY := by
  intro h
  have hmem := (found_run actions more).subset hp
  rw [(finished_of_place h).found] at hmem
  exact hne (List.eq_of_mem_replicate hmem)

/-- The consumer finishes with 10, and only if it has found one increment of each variable every
time. If it has ever found more in one of them, it never finishes, whatever happens. -/
theorem finishes_exactly (actions : List (Action Worker)) :
    (∀ XplusY, (run actions).place .consumer = .tryM1 0 XplusY →
      Finished XplusY (run actions).memory) ∧
    ((∃ p ∈ (run actions).memory.found, p ≠ (1, 1)) →
      ∀ more XplusY, (run (actions ++ more)).place .consumer ≠ .tryM1 0 XplusY) :=
  ⟨fun _ h => finished_of_place h, fun ⟨_, hp, hne⟩ => not_finished_of_found hp hne⟩

/-- Two increments of `X` before the consumer looks. -/
def twoAtOnce : List (Action Worker) :=
  List.replicate 6 (.run (.incrementer .m1) .consumer) ++
    List.replicate 3 (.run (.incrementer .m2) .consumer) ++
      List.replicate 4 (.run .consumer .consumer)

/-- So the program need not end. -/
theorem never_finishes (more : List (Action Worker)) (XplusY : ℕ) :
    (run (twoAtOnce ++ more)).place .consumer ≠ .tryM1 0 XplusY := by
  have hfound : (run twoAtOnce).memory.found = [(2, 1)] := by decide
  refine not_finished_of_found (p := (2, 1)) ?_ (by decide) more XplusY
  rw [hfound]
  exact List.mem_singleton_self _

end BuildYourOwnStuff.MultiThreading.TryLock
