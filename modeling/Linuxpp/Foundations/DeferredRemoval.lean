import Mathlib.Data.List.Nodup
import Mathlib.Order.Nat
import Linuxpp.Foundations.Machine

/-!
# Queues whose removals may be deferred

The entries of a queue have numbers as keys, and a flag that marks those whose removal is deferred.
While the queue is walked, new entries are put aside, and they are merged in when it is settled. A
counter makes the keys. A step may call an entry that is not flagged.

The order of the entries does not matter here, so a change is given up to permutation. A machine
implements such a queue when each of its steps is a change of what is seen of it.
-/

namespace DeferredRemoval

/-- The keys and flags of the entries, of those put aside, and the key that is made next. -/
structure Queue where
  entries : List (ℕ × Bool) := []
  aside : List (ℕ × Bool) := []
  next : ℕ := 0

namespace Queue

/-- All keys in use. -/
def keys (q : Queue) : List ℕ := (q.entries ++ q.aside).map Prod.fst

/-- Flags the entry with the key. -/
def flagged (k : ℕ) (xs : List (ℕ × Bool)) : List (ℕ × Bool) :=
  xs.map fun x => if x.1 = k then (x.1, true) else x

/-- The entries without the one with the key. -/
def without (k : ℕ) (xs : List (ℕ × Bool)) : List (ℕ × Bool) := xs.filter fun x => x.1 ≠ k

/-- What a step does to the queue, and the key of the entry that it calls. -/
inductive Change (q : Queue) : Option ℕ → Queue → Prop
  /-- Keys may be made that are not used. -/
  | make (n : ℕ) (hn : q.next ≤ n) : Change q none { q with next := n }
  | add {entries : List (ℕ × Bool)} (h : entries.Perm ((q.next, false) :: q.entries)) :
      Change q none { q with entries := entries, next := q.next + 1 }
  | putAside :
      Change q none { q with aside := q.aside ++ [(q.next, false)], next := q.next + 1 }
  | erase (k : ℕ) :
      Change q none { q with entries := without k q.entries, aside := without k q.aside }
  | flag (k : ℕ) :
      Change q none { q with entries := flagged k q.entries, aside := without k q.aside }
  | call (k : ℕ) (hk : (k, false) ∈ q.entries) : Change q (some k) q
  /-- What is kept was not flagged, and what was put aside joins it. -/
  | settle {kept entries : List (ℕ × Bool)} (hkept : kept.Sublist q.entries)
      (hflag : ∀ x ∈ kept, x.2 = false) (h : entries.Perm (kept ++ q.aside)) :
      Change q none { q with entries := entries, aside := [] }

/-- The keys are distinct and made. -/
structure Sound (q : Queue) : Prop where
  distinct : q.keys.Nodup
  made : ∀ k ∈ q.keys, k < q.next

/-- The key was made, and it is not the key of an entry that was put aside. -/
structure NotAside (k : ℕ) (q : Queue) : Prop where
  made : k < q.next
  aside : k ∉ q.aside.map Prod.fst

/-- The key was removed: the entry with it, if there is one, is flagged. -/
structure Silenced (k : ℕ) (q : Queue) : Prop extends NotAside k q where
  entries : ∀ x ∈ q.entries, x.1 = k → x.2 = true

/-- The key was made, and no entry has it. -/
structure Gone (k : ℕ) (q : Queue) : Prop where
  made : k < q.next
  keys : k ∉ q.keys

variable {q q' : Queue} {k : ℕ} {called : Option ℕ}

theorem Change.same (q : Queue) : q.Change none q := .make q.next le_rfl

theorem without_sublist (k : ℕ) (xs : List (ℕ × Bool)) : (without k xs).Sublist xs :=
  List.filter_sublist

theorem not_mem_without (k : ℕ) (xs : List (ℕ × Bool)) : k ∉ (without k xs).map Prod.fst := by
  simp [without]

theorem map_fst_flagged (k : ℕ) (xs : List (ℕ × Bool)) :
    (flagged k xs).map Prod.fst = xs.map Prod.fst := by
  unfold flagged
  rw [List.map_map]
  apply List.map_congr_left
  intro x _
  simp only [Function.comp_apply]
  split_ifs <;> rfl

section Seen

variable {ε : Type*} {f : ε → ℕ × Bool}

/-- Elements that are seen as entries, without the one that has the key. -/
theorem map_filter_eq_without {p : ε → Bool} (hp : ∀ e, p e = decide ((f e).1 ≠ k))
    (es : List ε) : (es.filter p).map f = without k (es.map f) := by
  unfold without
  rw [List.filter_map]
  exact congrArg (List.map f) (List.filter_congr fun e _ => hp e)

/-- Elements that are seen as entries, with a flag for the one that has the key. -/
theorem map_ite_eq_flagged {p : ε → Prop} [DecidablePred p] {flag : ε → ε}
    (hp : ∀ e, p e ↔ (f e).1 = k) (hflag : ∀ e, f (flag e) = ((f e).1, true)) (es : List ε) :
    (es.map fun e => if p e then flag e else e).map f = flagged k (es.map f) := by
  unfold flagged
  rw [List.map_map, List.map_map]
  apply List.map_congr_left
  intro e _
  simp only [Function.comp_apply]
  by_cases he : p e
  · rw [if_pos he, if_pos ((hp e).mp he), hflag]
  · rw [if_neg he, if_neg fun hk => he ((hp e).mpr hk)]

/-- Elements that are kept for not being flagged. -/
theorem not_flagged_of_mem_filter {remove : ε → Bool} (hf : ∀ e, (f e).2 = remove e) (es : List ε) :
    ∀ x ∈ (es.filter fun e => !remove e).map f, x.2 = false := by
  intro x hx
  obtain ⟨e, he, rfl⟩ := List.mem_map.mp hx
  have hkeep := (List.mem_filter.mp he).2
  rw [hf]
  simpa using hkeep

end Seen

theorem mem_keys : k ∈ q.keys ↔ k ∈ q.entries.map Prod.fst ∨ k ∈ q.aside.map Prod.fst := by
  rw [keys, List.map_append, List.mem_append]

theorem sound_init : Sound {} where
  distinct := List.nodup_nil
  made := by simp [keys]

/-- A change that uses some of the keys only. -/
theorem Sound.of_part (h : q.Sound) {part : List ℕ} (hperm : q'.keys.Perm part)
    (hsub : part.Sublist q.keys) (hnext : q.next ≤ q'.next) : q'.Sound where
  distinct := hperm.nodup_iff.mpr (hsub.nodup h.distinct)
  made := fun k hk => (h.made k (hsub.subset (hperm.mem_iff.mp hk))).trans_le hnext

/-- A change that uses one key more. -/
theorem Sound.of_cons (h : q.Sound) (hperm : q'.keys.Perm (q.next :: q.keys))
    (hnext : q'.next = q.next + 1) : q'.Sound where
  distinct := hperm.nodup_iff.mpr
    (List.nodup_cons.mpr ⟨fun hin => (h.made q.next hin).false, h.distinct⟩)
  made := by
    intro k hk
    rw [hnext]
    rcases List.mem_cons.mp (hperm.mem_iff.mp hk) with rfl | hk
    · exact Nat.lt_succ_self _
    · exact Nat.lt_succ_of_lt (h.made k hk)

theorem Sound.change (h : q.Sound) (hc : q.Change called q') : q'.Sound := by
  cases hc with
  | make n hn => exact h.of_part (List.Perm.refl _) (List.Sublist.refl _) hn
  | add hperm => exact h.of_cons ((hperm.append_right _).map _) rfl
  | putAside =>
    refine h.of_cons ?_ rfl
    simp only [keys, ← List.append_assoc]
    exact (List.perm_append_singleton _ _).map _
  | erase k =>
    have hsub : (without k q.entries ++ without k q.aside).Sublist (q.entries ++ q.aside) :=
      (without_sublist k _).append (without_sublist k _)
    exact h.of_part (List.Perm.refl _) (hsub.map Prod.fst) le_rfl
  | flag k =>
    refine h.of_part (List.Perm.refl _) ?_ le_rfl
    simp only [keys, List.map_append, map_fst_flagged]
    exact ((without_sublist k q.aside).map _).append_left _
  | call k hk => exact h
  | settle hkept hflag hperm =>
    have hkeys := hperm.map Prod.fst
    refine h.of_part ?_ ((hkept.append_right q.aside).map Prod.fst) le_rfl
    simpa [keys] using hkeys

theorem Change.next_le (hc : q.Change called q') : q.next ≤ q'.next := by
  cases hc with
  | make n hn => exact hn
  | add | putAside => exact Nat.le_succ _
  | _ => exact le_rfl

/-- Only new entries are put aside. -/
theorem NotAside.change (h : q.NotAside k) (hc : q.Change called q') : q'.NotAside k where
  made := h.made.trans_le hc.next_le
  aside := by
    have hout : ∀ k', k ∉ (without k' q.aside).map Prod.fst := fun k' hin =>
      h.aside (((without_sublist k' q.aside).map _).subset hin)
    cases hc with
    | make | add | call => exact h.aside
    | putAside => simpa [h.aside] using h.made.ne
    | erase k' | flag k' => exact hout k'
    | settle => simp

/-- An entry that was removed stays so, and is not called. -/
theorem Silenced.change (h : q.Silenced k) (hc : q.Change called q') :
    q'.Silenced k ∧ called ≠ some k := by
  have haside := h.toNotAside.change hc
  cases hc with
  | make n hn => exact ⟨⟨haside, h.entries⟩, nofun⟩
  | add hperm =>
    refine ⟨⟨haside, fun x hx hxk => ?_⟩, nofun⟩
    rcases List.mem_cons.mp (hperm.mem_iff.mp hx) with rfl | hx
    · exact absurd hxk h.made.ne'
    · exact h.entries x hx hxk
  | putAside => exact ⟨⟨haside, h.entries⟩, nofun⟩
  | erase k' =>
    exact ⟨⟨haside, fun x hx => h.entries x ((without_sublist k' _).subset hx)⟩, nofun⟩
  | flag k' =>
    refine ⟨⟨haside, fun x hx hxk => ?_⟩, nofun⟩
    obtain ⟨y, hy, rfl⟩ := List.mem_map.mp hx
    split_ifs at hxk ⊢ with hyk
    · rfl
    · exact h.entries y hy hxk
  | call k' hk' =>
    refine ⟨h, fun heq => ?_⟩
    obtain rfl : k' = k := Option.some.inj heq
    exact Bool.false_ne_true (h.entries (k', false) hk' rfl)
  | settle hkept hflag hperm =>
    refine ⟨⟨haside, fun x hx hxk => ?_⟩, nofun⟩
    rcases List.mem_append.mp (hperm.mem_iff.mp hx) with hx | hx
    · exact h.entries x (hkept.subset hx) hxk
    · exact absurd (List.mem_map.mpr ⟨x, hx, hxk⟩) h.aside

/-- Settling the queue erases what was removed. -/
theorem Silenced.gone_of_settle (h : q.Silenced k) {kept entries : List (ℕ × Bool)}
    (hkept : kept.Sublist q.entries) (hflag : ∀ x ∈ kept, x.2 = false)
    (hperm : entries.Perm (kept ++ q.aside)) :
    Gone k { q with entries := entries, aside := [] } where
  made := h.made
  keys := by
    rw [mem_keys]
    rintro (hk | hk)
    · obtain ⟨x, hx, hxk⟩ := List.mem_map.mp hk
      rcases List.mem_append.mp (hperm.mem_iff.mp hx) with hx' | hx'
      · have hflagged := h.entries x (hkept.subset hx') hxk
        rw [hflag x hx'] at hflagged
        cases hflagged
      · exact h.aside (List.mem_map.mpr ⟨x, hx', hxk⟩)
    · simp at hk

/-- Both ways of removing an entry that was not put aside silence its key. -/
theorem silenced_erase (hk : k < q.next) : Silenced k
    { q with entries := without k q.entries, aside := without k q.aside } where
  made := hk
  aside := not_mem_without k _
  entries := fun x hx hxk => absurd (List.mem_map.mpr ⟨x, hx, hxk⟩) (not_mem_without k _)

theorem silenced_flag (hk : k < q.next) : Silenced k
    { q with entries := flagged k q.entries, aside := without k q.aside } where
  made := hk
  aside := not_mem_without k _
  entries := by
    intro x hx hxk
    obtain ⟨y, -, rfl⟩ := List.mem_map.mp hx
    split_ifs at hxk ⊢
    · rfl
    · contradiction

end Queue

section Machines

variable {σ α ε : Type*}

/-- Every step of `m` is a change of the queue that `view` sees, and `log` grows by events that tell
the keys of the entries that are called. -/
def Implements (m : Machine σ α) (view : σ → Queue) (log : σ → List ε) (key : ε → Option ℕ) : Prop :=
  ∀ s l t, (view s).Sound → m s l = some t →
    ∃ called evs, (view s).Change called (view t) ∧ log t = log s ++ evs ∧
      ∀ ev ∈ evs, ∀ k, key ev = some k → called = some k

variable {m : Machine σ α} {view : σ → Queue} {log : σ → List ε} {key : ε → Option ℕ} {s t : σ}
  {ls : List α} {k : ℕ}

theorem Implements.sound_step (h : Implements m view log key) {l : α} (hs : (view s).Sound)
    (hl : m s l = some t) : (view t).Sound := by
  obtain ⟨_, _, hc, -, -⟩ := h s l t hs hl
  exact hs.change hc

theorem Implements.sound_of_reachable (h : Implements m view log key) (hst : m.Reachable s t)
    (hs : (view s).Sound) : (view t).Sound :=
  hst.invariant (fun _ _ _ hs hl => h.sound_step hs hl) hs

/-- A key that no entry put aside has does not come to be one. -/
theorem Implements.notAside_run (h : Implements m view log key) (hrun : m.run s ls = some t)
    (hs : (view s).Sound) (hk : (view s).NotAside k) : (view t).NotAside k := by
  have hstep : ∀ s l t, (view s).Sound ∧ (view s).NotAside k → m s l = some t →
      (view t).Sound ∧ (view t).NotAside k := by
    rintro s l t ⟨hs, hk⟩ hl
    obtain ⟨_, _, hc, -, -⟩ := h s l t hs hl
    exact ⟨hs.change hc, hk.change hc⟩
  exact (Machine.run_invariant hstep hrun ⟨hs, hk⟩).2

/-- In every run from a removal on, the entry stays removed and is not called. -/
theorem Implements.silenced_run (h : Implements m view log key) (hrun : m.run s ls = some t)
    (hs : (view s).Sound) (hk : (view s).Silenced k) :
    (view t).Silenced k ∧ ∃ evs, log t = log s ++ evs ∧ ∀ ev ∈ evs, key ev ≠ some k := by
  have hstep : ∀ u l v, (view u).Sound ∧ (view u).Silenced k ∧
        (∃ evs, log u = log s ++ evs ∧ ∀ ev ∈ evs, key ev ≠ some k) → m u l = some v →
      (view v).Sound ∧ (view v).Silenced k ∧
        ∃ evs, log v = log s ++ evs ∧ ∀ ev ∈ evs, key ev ≠ some k := by
    rintro u l v ⟨hu, hk, evs, hlog, hevs⟩ hl
    obtain ⟨called, new, hc, hnew, hcalled⟩ := h u l v hu hl
    obtain ⟨hk', hnot⟩ := hk.change hc
    refine ⟨hu.change hc, hk', evs ++ new, by rw [hnew, hlog, List.append_assoc], ?_⟩
    intro ev hev hkey
    rcases List.mem_append.mp hev with hev | hev
    · exact hevs ev hev hkey
    · exact hnot (hcalled ev hev k hkey)
  exact (Machine.run_invariant hstep hrun
    ⟨hs, hk, [], (List.append_nil _).symm, by simp⟩).2

end Machines

end DeferredRemoval
