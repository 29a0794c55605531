import Mathlib.Data.Finmap
import Mathlib.Tactic

/-!
# Updates of a finite map

A log of updates is replayed from the left. The value of a key after a replay is
what the last update of that key left, so two logs with the same updates of
each key, in the same order for each key, have the same replay.
-/

namespace BuildYourOwnStuff.Foundations

/-- An update of one key. -/
inductive Update (K V : Type*)
  | put (key : K) (value : V)
  | delete (key : K)
  deriving DecidableEq, Repr

namespace Update

variable {K V : Type*} [DecidableEq K]

def key : Update K V → K
  | put key _ => key
  | delete key => key

/-- What is stored for the key afterwards. -/
def effect : Update K V → Option V
  | put _ value => some value
  | delete _ => none

def apply (s : Finmap fun _ : K => V) : Update K V → Finmap fun _ : K => V
  | put key value => s.insert key value
  | delete key => s.erase key

def replay (s : Finmap fun _ : K => V) (us : List (Update K V)) : Finmap fun _ : K => V :=
  us.foldl apply s

/-- The effect of the last update of a key, if there is one. -/
def lastEffect (k : K) : List (Update K V) → Option (Option V)
  | [] => none
  | u :: us => (lastEffect k us).or (if u.key = k then some u.effect else none)

theorem lookup_apply (s : Finmap fun _ : K => V) (u : Update K V) (k : K) :
    (u.apply s).lookup k = if u.key = k then u.effect else s.lookup k := by
  cases u with
  | put key value =>
    by_cases h : key = k
    · simp [apply, Update.key, effect, h]
    · simp [apply, Update.key, h, Finmap.lookup_insert_of_ne _ (Ne.symm h)]
  | delete key =>
    by_cases h : key = k
    · simp [apply, Update.key, effect, h]
    · simp [apply, Update.key, h, Finmap.lookup_erase_ne (Ne.symm h)]

@[simp] theorem replay_nil (s : Finmap fun _ : K => V) : replay s [] = s := rfl

@[simp] theorem replay_cons (s : Finmap fun _ : K => V) (u : Update K V) (us : List (Update K V)) :
    replay s (u :: us) = replay (u.apply s) us := rfl

theorem replay_append (s : Finmap fun _ : K => V) (us vs : List (Update K V)) :
    replay s (us ++ vs) = replay (replay s us) vs := List.foldl_append

/-- A key has the value that its last update left, if there is one. -/
theorem lookup_replay (s : Finmap fun _ : K => V) (us : List (Update K V)) (k : K) :
    (replay s us).lookup k = (lastEffect k us).getD (s.lookup k) := by
  induction us generalizing s with
  | nil => rfl
  | cons u us ih =>
    rw [replay_cons, ih, lookup_apply, lastEffect]
    cases lastEffect k us with
    | some e => rfl
    | none => by_cases h : u.key = k <;> simp [h]

theorem lastEffect_eq_none {us : List (Update K V)} {k : K} :
    lastEffect k us = none ↔ ∀ u ∈ us, u.key ≠ k := by
  induction us with
  | nil => simp [lastEffect]
  | cons u us ih => simp [lastEffect, ih, and_comm]

/-- The same updates from two states end in one state exactly when the states
agree on every key that is not updated. -/
theorem replay_eq_replay_iff {s t : Finmap fun _ : K => V} {us : List (Update K V)} :
    replay s us = replay t us ↔ ∀ k, (∀ u ∈ us, u.key ≠ k) → s.lookup k = t.lookup k := by
  constructor
  · intro h k hk
    have hlookup := congrArg (Finmap.lookup k) h
    rwa [lookup_replay, lookup_replay, lastEffect_eq_none.mpr hk] at hlookup
  · intro h
    refine Finmap.ext_lookup fun k => ?_
    rw [lookup_replay, lookup_replay]
    cases hk : lastEffect k us with
    | some e => rfl
    | none => exact h k (lastEffect_eq_none.mp hk)

/-- Two logs have the same replay exactly when the last updates of each key
have the same effect, where a key without updates keeps its value. -/
theorem replay_eq_iff {s : Finmap fun _ : K => V} {us vs : List (Update K V)} :
    replay s us = replay s vs ↔
      ∀ k, (lastEffect k us).getD (s.lookup k) = (lastEffect k vs).getD (s.lookup k) := by
  constructor
  · intro h k
    rw [← lookup_replay, ← lookup_replay, h]
  · intro h
    refine Finmap.ext_lookup fun k => ?_
    rw [lookup_replay, lookup_replay, h k]

theorem lastEffect_filter (us : List (Update K V)) (k : K) :
    lastEffect k (us.filter fun u => u.key = k) = lastEffect k us := by
  induction us with
  | nil => rfl
  | cons u us ih =>
    by_cases h : u.key = k
    · rw [List.filter_cons_of_pos (by simpa using h), lastEffect, lastEffect, ih]
    · rw [List.filter_cons_of_neg (by simpa using h), ih, lastEffect, if_neg h, Option.or_none]

/-- Only the order of the updates of each key matters. -/
theorem replay_eq_of_filter_eq (s : Finmap fun _ : K => V) {us vs : List (Update K V)}
    (h : ∀ k, (us.filter fun u => u.key = k) = vs.filter fun u => u.key = k) :
    replay s us = replay s vs := by
  refine replay_eq_iff.mpr fun k => ?_
  rw [← lastEffect_filter us k, h k, lastEffect_filter]

/-- A value in the replay was put by an update that no later update of its key follows. -/
theorem lookup_replay_eq_some {us : List (Update K V)} {k : K} {v : V} :
    (replay ∅ us).lookup k = some v ↔
      ∃ pre post, us = pre ++ put k v :: post ∧ ∀ u ∈ post, u.key ≠ k := by
  constructor
  · intro h
    induction us using List.reverseRecOn with
    | nil => simp at h
    | append_singleton us u ih =>
      rw [replay_append, replay_cons, replay_nil, lookup_apply] at h
      split_ifs at h with hkey
      · cases u with
        | put key value =>
          cases h
          cases hkey
          exact ⟨us, [], rfl, by simp⟩
        | delete key => cases h
      · obtain ⟨pre, post, rfl, hpost⟩ := ih h
        refine ⟨pre, post ++ [u], by simp, ?_⟩
        simpa [or_imp, forall_and, hkey] using hpost
  · rintro ⟨pre, post, rfl, hpost⟩
    have hkey : (put k v).key = k := rfl
    rw [replay_append, replay_cons, lookup_replay, lastEffect_eq_none.mpr hpost, lookup_apply,
      if_pos hkey]
    rfl

omit [DecidableEq K] in
/-- The last update of a key stands at one place. -/
theorem eq_of_last {us pre pre' post post' : List (Update K V)} {u u' : Update K V}
    (hus : us = pre ++ u :: post) (hus' : us = pre' ++ u' :: post') (hkey : u.key = u'.key)
    (hpost : ∀ w ∈ post, w.key ≠ u.key) (hpost' : ∀ w ∈ post', w.key ≠ u.key) :
    post = post' := by
  rw [hus] at hus'
  rcases List.append_eq_append_iff.mp hus' with ⟨as, -, has⟩ | ⟨bs, -, hbs⟩
  · rcases as with _ | ⟨a, as⟩
    · exact (List.cons.inj has).2
    · have hmem : u' ∈ post := by
        rw [(List.cons.inj has).2]
        simp
      exact absurd hkey.symm (hpost u' hmem)
  · rcases bs with _ | ⟨b, bs⟩
    · exact (List.cons.inj hbs).2.symm
    · have hmem : u ∈ post' := by
        rw [(List.cons.inj hbs).2]
        simp
      exact absurd rfl (hpost' u hmem)

section Map

/-- The update with its key and its value changed. -/
def map (f : K → K) (g : V → V) : Update K V → Update K V
  | put key value => put (f key) (g value)
  | delete key => delete (f key)

variable {f : K → K} {g : V → V}

omit [DecidableEq K] in
@[simp] theorem key_map (u : Update K V) : (u.map f g).key = f u.key := by
  cases u <;> rfl

omit [DecidableEq K] in
theorem map_eq_put {u : Update K V} {k : K} {v : V} :
    u.map f g = put k v ↔ ∃ k' v', u = put k' v' ∧ f k' = k ∧ g v' = v := by
  cases u <;> simp [map]

theorem lookup_replay_map_eq_some {us : List (Update K V)} {k : K} {v : V} :
    (replay ∅ (us.map (map f g))).lookup k = some v ↔
      ∃ pre k' v' post, us = pre ++ put k' v' :: post ∧ f k' = k ∧ g v' = v ∧
        ∀ u ∈ post, f u.key ≠ k := by
  rw [lookup_replay_eq_some]
  constructor
  · rintro ⟨pre, post, hus, hpost⟩
    obtain ⟨pre', rest, rfl, rfl, hrest⟩ := List.map_eq_append_iff.mp hus
    obtain ⟨u, post', rfl, hu, rfl⟩ := List.map_eq_cons_iff.mp hrest
    obtain ⟨k', v', rfl, hk, hv⟩ := map_eq_put.mp hu
    exact ⟨pre', k', v', post', rfl, hk, hv, by simpa using hpost⟩
  · rintro ⟨pre, k', v', post, rfl, rfl, rfl, hpost⟩
    exact ⟨pre.map (map f g), post.map (map f g), by simp [map], by simpa using hpost⟩

/-- A log whose keys and values are normalised before the replay gives the same
map exactly when every put that survives is in normal form already and no later
key is normalised to its key. -/
theorem replay_map_eq_iff (hf : ∀ k, f (f k) = f k) (hg : ∀ v, g (g v) = g v)
    {us : List (Update K V)} : replay ∅ (us.map (map f g)) = replay ∅ us ↔
      ∀ pre k v post, us = pre ++ put k v :: post → (∀ u ∈ post, u.key ≠ k) →
        f k = k ∧ g v = v ∧ ∀ u ∈ post, f u.key ≠ k := by
  constructor
  · intro h pre k v post hus hpost
    have hlookup := lookup_replay_eq_some.mpr ⟨pre, post, hus, hpost⟩
    rw [← h] at hlookup
    obtain ⟨pre', k', v', post', hus', rfl, rfl, hpost'⟩ := lookup_replay_map_eq_some.mp hlookup
    -- the put that ends in `f k'` survives for `k'` as well, so `k'` is in normal form
    have hlast : ∀ u ∈ post', u.key ≠ k' := fun u hu heq => hpost' u hu (congrArg f heq)
    have hlookup' := lookup_replay_eq_some.mpr ⟨pre', post', hus', hlast⟩
    rw [← h] at hlookup'
    obtain ⟨-, k'', -, -, -, hk'', -⟩ := lookup_replay_map_eq_some.mp hlookup'
    have hk' : f k' = k' := by rw [← hk'', hf]
    have hkeys : (put (f k') (g v')).key = (put k' v').key := hk'
    rw [eq_of_last hus hus' hkeys hpost (by simpa [Update.key, hk'] using hlast)]
    exact ⟨hf k', hg v', hpost'⟩
  · intro h
    refine Finmap.ext_lookup fun k => ?_
    apply Option.ext
    intro v
    rw [lookup_replay_map_eq_some, lookup_replay_eq_some]
    constructor
    · rintro ⟨pre, k', v', post, hus, rfl, rfl, hpost⟩
      have hlast : ∀ u ∈ post, u.key ≠ k' := fun u hu heq => hpost u hu (congrArg f heq)
      obtain ⟨hk, hv, -⟩ := h pre k' v' post hus hlast
      rw [hk, hv]
      exact ⟨pre, post, hus, hlast⟩
    · rintro ⟨pre, post, hus, hlast⟩
      obtain ⟨hk, hv, hpost⟩ := h pre k v post hus hlast
      exact ⟨pre, k, v, post, hus, hk, hv, hpost⟩

end Map

end Update

end BuildYourOwnStuff.Foundations
