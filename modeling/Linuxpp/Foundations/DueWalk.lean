import Linuxpp.Foundations.SortedInsert

/-!
# Walks over what is due

A list that is sorted by deadlines is walked from its front. At each element the walk passes by when
the element was removed, calls it when it is due, and stops otherwise. Between two calls elements
may be removed, by name, and others may be added elsewhere.

`xs` is the list as it was when the walk began, `evs` is what has happened since, and `i` is how far
the walk has come.
-/

namespace DueWalk

open SortedInsert

/-- What happens during a walk. -/
inductive WalkEvent (ε ι : Type*) where
  | added (e : ε)
  | removed (name : ι)
  | called (e : ε)
deriving DecidableEq, Repr

variable {ε ι τ : Type*}

/-- The elements that were called, in order. -/
def calls (evs : List (WalkEvent ε ι)) : List ε :=
  evs.filterMap fun
    | .called e => some e
    | _ => none

/-- The elements that were added, in order. -/
def additions (evs : List (WalkEvent ε ι)) : List ε :=
  evs.filterMap fun
    | .added e => some e
    | _ => none

/-- The names that were removed, in order. -/
def removals (evs : List (WalkEvent ε ι)) : List ι :=
  evs.filterMap fun
    | .removed name => some name
    | _ => none

/-- What is picked from a list of events is what the event that stands for it was in. -/
theorem mem_filterMap_iff {α β : Type*} {pick : α → Option β} {event : β → α}
    (hpick : ∀ a b, pick a = some b ↔ a = event b) {l : List α} {b : β} :
    b ∈ l.filterMap pick ↔ event b ∈ l := by
  rw [List.mem_filterMap]
  constructor
  · rintro ⟨a, ha, hsome⟩
    obtain rfl := (hpick a b).mp hsome
    exact ha
  · intro hin
    exact ⟨event b, hin, (hpick _ _).mpr rfl⟩

theorem mem_calls {evs : List (WalkEvent ε ι)} {e : ε} : e ∈ calls evs ↔ .called e ∈ evs := by
  refine mem_filterMap_iff fun ev e => ?_
  cases ev <;> simp

theorem mem_additions {evs : List (WalkEvent ε ι)} {e : ε} :
    e ∈ additions evs ↔ .added e ∈ evs := by
  refine mem_filterMap_iff fun ev e => ?_
  cases ev <;> simp

theorem mem_removals {evs : List (WalkEvent ε ι)} {name : ι} :
    name ∈ removals evs ↔ .removed name ∈ evs := by
  refine mem_filterMap_iff fun ev name => ?_
  cases ev <;> simp

section Events

variable (evs evs' : List (WalkEvent ε ι)) (e : ε) (i : ι)

@[simp] theorem calls_append : calls (evs ++ evs') = calls evs ++ calls evs' :=
  List.filterMap_append

@[simp] theorem additions_append : additions (evs ++ evs') = additions evs ++ additions evs' :=
  List.filterMap_append

@[simp] theorem removals_append : removals (evs ++ evs') = removals evs ++ removals evs' :=
  List.filterMap_append

@[simp] theorem calls_called : calls [(.called e : WalkEvent ε ι)] = [e] := rfl

@[simp] theorem calls_added : calls [(.added e : WalkEvent ε ι)] = [] := rfl

@[simp] theorem calls_removed : calls [(.removed i : WalkEvent ε ι)] = [] := rfl

@[simp] theorem additions_called : additions [(.called e : WalkEvent ε ι)] = [] := rfl

@[simp] theorem additions_added : additions [(.added e : WalkEvent ε ι)] = [e] := rfl

@[simp] theorem additions_removed : additions [(.removed i : WalkEvent ε ι)] = [] := rfl

@[simp] theorem removals_called : removals [(.called e : WalkEvent ε ι)] = [] := rfl

@[simp] theorem removals_added : removals [(.added e : WalkEvent ε ι)] = [] := rfl

@[simp] theorem removals_removed : removals [(.removed i : WalkEvent ε ι)] = [i] := rfl

end Events

variable (name : ε → ι) (key : ε → τ)

/-- The element at position `k` was removed when only elements before it had been called. -/
def RemovedBeforeTurn (xs : List ε) (evs : List (WalkEvent ε ι)) (k : ℕ) (e : ε) : Prop :=
  ∃ before after, evs = before ++ .removed (name e) :: after ∧ (calls before).Sublist (xs.take k)

/-- No element was called after it had been removed. -/
def NoneCalledRemoved (evs : List (WalkEvent ε ι)) : Prop :=
  ∀ before e after, evs = before ++ .called e :: after → name e ∉ removals before

variable [LinearOrder τ]

/-- The elements that were called are exactly those that were due and had not been removed before
their turn, each once and in the order of their deadlines. -/
structure CallsExactlyDue (xs : List ε) (now : τ) (evs : List (WalkEvent ε ι)) : Prop where
  order : (calls evs).Sublist xs
  sorted : SortedBy key (calls evs)
  due : ∀ e ∈ calls evs, key e ≤ now
  live : NoneCalledRemoved name evs
  complete : ∀ k e, xs[k]? = some e → key e ≤ now →
    e ∈ calls evs ∨ RemovedBeforeTurn name xs evs k e

/-- The walk has come to position `i`. -/
structure Walk (xs : List ε) (now : τ) (evs : List (WalkEvent ε ι)) (i : ℕ) : Prop where
  le : i ≤ xs.length
  order : (calls evs).Sublist (xs.take i)
  due : ∀ e ∈ calls evs, key e ≤ now
  live : NoneCalledRemoved name evs
  turned : ∀ k e, k < i → xs[k]? = some e →
    e ∈ calls evs ∨ RemovedBeforeTurn name xs evs k e

/-- The walk stops at position `i`: it is the end, or its element is not due. -/
def Over (xs : List ε) (now : τ) (i : ℕ) : Prop := ∀ e, xs[i]? = some e → now < key e

variable {name key} {xs : List ε} {now : τ} {evs : List (WalkEvent ε ι)} {i k : ℕ} {e : ε}

theorem RemovedBeforeTurn.mem (h : RemovedBeforeTurn name xs evs k e) : name e ∈ removals evs := by
  obtain ⟨before, after, rfl, -⟩ := h
  rw [removals_append]
  exact List.mem_append_right _ List.mem_cons_self

theorem RemovedBeforeTurn.mono (h : RemovedBeforeTurn name xs evs k e) (ev : WalkEvent ε ι) :
    RemovedBeforeTurn name xs (evs ++ [ev]) k e := by
  obtain ⟨before, after, rfl, hsub⟩ := h
  exact ⟨before, after ++ [ev], by rw [List.append_assoc, List.cons_append], hsub⟩

theorem NoneCalledRemoved.concat (h : NoneCalledRemoved name evs) {ev : WalkEvent ε ι}
    (hev : ∀ e, ev = .called e → name e ∉ removals evs) : NoneCalledRemoved name (evs ++ [ev]) := by
  intro before e after heq
  rcases List.eq_nil_or_concat after with rfl | ⟨after, last, rfl⟩
  · obtain ⟨rfl, hlast⟩ := List.append_inj' heq rfl
    exact hev e (List.cons.inj hlast).1
  · rw [List.concat_eq_append, ← List.cons_append, ← List.append_assoc] at heq
    obtain ⟨heq, -⟩ := List.append_inj' heq rfl
    exact h before e after heq

namespace Walk

theorem start (xs : List ε) (now : τ) : Walk name key xs now ([] : List (WalkEvent ε ι)) 0 where
  le := Nat.zero_le _
  order := List.nil_sublist _
  due := by simp [calls]
  live := fun before e after h => absurd h (by simp)
  turned := fun k e hk => absurd hk (Nat.not_lt_zero k)

/-- What is added or removed meanwhile does not move the walk. -/
theorem other (h : Walk name key xs now evs i) {ev : WalkEvent ε ι} (hev : ∀ e, ev ≠ .called e) :
    Walk name key xs now (evs ++ [ev]) i := by
  have hcalls : calls (evs ++ [ev]) = calls evs := by
    cases ev with
    | called e => exact absurd rfl (hev e)
    | _ => simp
  refine ⟨h.le, hcalls ▸ h.order, hcalls ▸ h.due, h.live.concat fun e heq => absurd heq (hev e), ?_⟩
  intro k e hk he
  rw [hcalls]
  exact (h.turned k e hk he).imp_right fun hremoved => hremoved.mono ev

/-- The walk passes by an element that was removed. -/
theorem skip (h : Walk name key xs now evs i) (he : xs[i]? = some e)
    (hremoved : name e ∈ removals evs) : Walk name key xs now evs (i + 1) := by
  have hmore : (xs.take i).Sublist (xs.take (i + 1)) :=
    (List.take_prefix_take_left (Nat.le_succ i)).sublist
  refine ⟨(List.getElem?_eq_some_iff.mp he).1, h.order.trans hmore, h.due, h.live, ?_⟩
  intro k e' hk he'
  rcases Nat.lt_succ_iff_lt_or_eq.mp hk with hk | rfl
  · exact h.turned k e' hk he'
  · obtain rfl : e = e' := Option.some.inj (he.symm.trans he')
    obtain ⟨before, after, hsplit⟩ := List.append_of_mem (mem_removals.mp hremoved)
    have hbefore : (calls before).Sublist (calls evs) := by
      rw [hsplit, calls_append]
      exact List.sublist_append_left _ _
    exact Or.inr ⟨before, after, hsplit, hbefore.trans h.order⟩

/-- The walk calls an element that is due and was not removed. -/
theorem call (h : Walk name key xs now evs i) (he : xs[i]? = some e) (hdue : key e ≤ now)
    (hlive : name e ∉ removals evs) : Walk name key xs now (evs ++ [.called e]) (i + 1) := by
  have hcalls : calls (evs ++ [.called e]) = calls evs ++ [e] := by simp
  refine ⟨(List.getElem?_eq_some_iff.mp he).1, ?_, ?_, h.live.concat ?_, ?_⟩
  · rw [hcalls, List.take_add_one, he]
    exact h.order.append_right _
  · intro e' he'
    rw [hcalls] at he'
    rcases List.mem_append.mp he' with he' | he'
    · exact h.due e' he'
    · obtain rfl := List.mem_singleton.mp he'
      exact hdue
  · intro e' heq
    obtain rfl := WalkEvent.called.inj heq
    exact hlive
  · intro k e' hk he'
    rw [hcalls]
    rcases Nat.lt_succ_iff_lt_or_eq.mp hk with hk | rfl
    · refine (h.turned k e' hk he').imp (fun hin => List.mem_append_left _ hin) ?_
      exact fun hremoved => hremoved.mono _
    · obtain rfl : e = e' := Option.some.inj (he.symm.trans he')
      exact Or.inl (List.mem_append_right _ List.mem_cons_self)

/-- From the place where a walk stops on, nothing is due. -/
theorem late_of_over (hsorted : SortedBy key xs) (hover : Over key xs now i)
    (he : xs[k]? = some e) (hk : i ≤ k) : now < key e := by
  obtain ⟨hlt, rfl⟩ := List.getElem?_eq_some_iff.mp he
  have hi : i < xs.length := lt_of_le_of_lt hk hlt
  have hstop := hover xs[i] (List.getElem?_eq_getElem hi)
  rcases Nat.eq_or_lt_of_le hk with rfl | hk
  · exact hstop
  · exact lt_of_lt_of_le hstop (List.pairwise_iff_getElem.mp hsorted i k hi hlt hk)

/-- A walk that is over has called exactly what was due. -/
theorem callsExactlyDue (h : Walk name key xs now evs i) (hsorted : SortedBy key xs)
    (hover : Over key xs now i) : CallsExactlyDue name key xs now evs where
  order := h.order.trans (List.take_sublist _ _)
  sorted := hsorted.sublist (h.order.trans (List.take_sublist _ _))
  due := h.due
  live := h.live
  complete := by
    intro k e he hdue
    by_cases hk : k < i
    · exact h.turned k e hk he
    · exact absurd hdue (not_le.mpr (late_of_over hsorted hover he (Nat.le_of_not_lt hk)))

/-- Among the elements that were not removed, the called ones come first. -/
theorem called_first (h : Walk name key xs now evs i) (hsorted : SortedBy key xs)
    (hover : Over key xs now i) :
    xs.Pairwise fun a b => name a ∉ removals evs → b ∈ calls evs → a ∈ calls evs := by
  refine List.pairwise_iff_getElem.mpr fun k l hk hl hlt hlive hcalled => ?_
  have hdue : key xs[l] ≤ now := h.due _ hcalled
  have hli : l < i := by
    by_contra hli
    have hlate := late_of_over hsorted hover (List.getElem?_eq_getElem hl) (Nat.le_of_not_lt hli)
    exact absurd hdue (not_le.mpr hlate)
  have hget : xs[k]? = some xs[k] := List.getElem?_eq_getElem hk
  exact (h.turned k xs[k] (by omega) hget).resolve_right fun hremoved => hlive hremoved.mem

end Walk

end DueWalk
