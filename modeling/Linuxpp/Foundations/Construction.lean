import Mathlib.Data.List.ReduceOption
import Linuxpp.Foundations.References

/-!
# Constructors of objects that have descriptors

A constructor makes the members of an object one after the other and then runs its body. What throws
destroys the members that are there, the last one first, and destroying a member closes the
descriptors that it has. A constructor is sound if it leaves no trace when it throws.
-/

namespace Construction

variable {φ ε ε' α β : Type*}

/-- A constructor or a part of one: it returns or throws, and acts on the descriptors. -/
abbrev Attempt (φ ε α : Type*) := DescriptorTable φ → Except ε α × DescriptorTable φ

namespace Attempt

/-- Makes something of what is returned. -/
def map (f : α → β) (x : Attempt φ ε α) : Attempt φ ε β := fun t => ((x t).1.map f, (x t).2)

/-- Throws something else instead. -/
def mapError (f : ε → ε') (x : Attempt φ ε α) : Attempt φ ε' α := fun t =>
  ((x t).1.mapError f, (x t).2)

/-- Goes on when `x` returns. -/
def andThen (x : Attempt φ ε α) (rest : α → Attempt φ ε β) : Attempt φ ε β := fun t =>
  match x t with
  | (.error e, t) => (.error e, t)
  | (.ok a, t) => rest a t

/-- An exception closes the descriptors `fds`. -/
def orClose (fds : List Int) (x : Attempt φ ε α) : Attempt φ ε α := fun t =>
  match x t with
  | (.error e, t) => (.error e, fds.foldl DescriptorTable.close t)
  | (.ok a, t) => (.ok a, t)

/-- Makes a member, which has the descriptors `fds`, and then the rest of the object. -/
def member (make : Attempt φ ε α) (fds : α → List Int) (rest : α → Attempt φ ε β) :
    Attempt φ ε (α × β) :=
  make.andThen fun a => (rest a).orClose (fds a) |>.map (Prod.mk a)

/-- A constructor that delegates to another one. Behind that the object is complete, so that an
exception from the body destroys it. -/
def delegate (target : Attempt φ ε α) (fds : α → List Int) (body : α → Attempt φ ε Unit) :
    Attempt φ ε α :=
  (member target fds body).map Prod.fst

/-- A system call that returns a new descriptor for `x`, or fails. -/
def openNew (x : φ) (failure : Option ε) : Attempt φ ε Int := fun t =>
  match failure with
  | some e => (.error e, t)
  | none => (.ok t.lowestFree, t.insert x)

/-- A system call on an open descriptor, which changes what it refers to, or fails. -/
def change (fd : Int) (f : φ → φ) (failure : Option ε) : Attempt φ ε Unit := fun t =>
  match failure with
  | some e => (.error e, t)
  | none => (.ok (), t.put fd ((t.get fd).map f))

end Attempt

section Sound

variable (P : φ → Prop)

/-- The descriptors are different ones, and open for something that has the property. -/
structure HasOpen (t : DescriptorTable φ) (fds : List Int) : Prop where
  distinct : fds.Nodup
  isOpen : ∀ fd ∈ fds, ∃ x, t.get fd = some x ∧ P x

/-- The descriptors `fds` are new, and of the others at most those in `held` were changed. -/
structure Acquired (held : List Int) (t t' : DescriptorTable φ) (fds : List Int) : Prop where
  free : ∀ fd ∈ fds, t.get fd = none
  isOpen : HasOpen P t' (held ++ fds)
  others : ∀ fd, fd ∉ held → fd ∉ fds → t'.get fd = t.get fd

/-- A constructor, or a part of one in which the members made before have the descriptors `held`, is
sound: it either throws and has touched no other descriptor, or returns something that has the
descriptors `fds`, which are new. -/
structure Sound (held : List Int) (x : Attempt φ ε α) (fds : α → List Int) : Prop where
  throws : ∀ t e t', HasOpen P t held → x t = (.error e, t') →
    ∀ fd, fd ∉ held → t'.get fd = t.get fd
  returns : ∀ t a t', HasOpen P t held → x t = (.ok a, t') → Acquired P held t t' (fds a)

/-- It throws exactly if one of its calls fails, what the first of these reports. -/
def Reports (held : List Int) (failures : List (Option ε)) (x : Attempt φ ε α) : Prop :=
  ∀ t, HasOpen P t held →
    (∃ a u, x t = (.ok a, u) ∧ failures.reduceOption = []) ∨
    ∃ e u, x t = (.error e, u) ∧ failures.reduceOption.head? = some e

end Sound

section Rules

variable {P : φ → Prop} {held fds fds' : List Int} {t t' u : DescriptorTable φ}

theorem HasOpen.get_ne_none (h : HasOpen P t fds) {fd : Int} (hfd : fd ∈ fds) :
    t.get fd ≠ none := by
  obtain ⟨x, hx, -⟩ := h.isOpen fd hfd
  rw [hx]
  exact Option.some_ne_none x

/-- What is acquired behind `fds`, which are new themselves, is acquired with them. -/
theorem Acquired.append (h : Acquired P held t t' fds) (h' : Acquired P (held ++ fds) t' u fds') :
    Acquired P held t u (fds ++ fds') := by
  have hbefore : ∀ fd ∈ fds', fd ∉ held ∧ fd ∉ fds := by
    intro fd hfd
    have hopen : fd ∉ held ++ fds := fun hmem => h.isOpen.get_ne_none hmem (h'.free fd hfd)
    exact ⟨fun hheld => hopen (List.mem_append_left _ hheld),
      fun hnew => hopen (List.mem_append_right _ hnew)⟩
  refine ⟨?_, ?_, ?_⟩
  · intro fd hfd
    rcases List.mem_append.mp hfd with hfd | hfd
    · exact h.free fd hfd
    · obtain ⟨hheld, hnew⟩ := hbefore fd hfd
      rw [← h.others fd hheld hnew]
      exact h'.free fd hfd
  · rw [← List.append_assoc]
    exact h'.isOpen
  · intro fd hheld hnew
    obtain ⟨hfds, hfds'⟩ := not_or.mp fun hor => hnew (List.mem_append.mpr hor)
    have hheld' : fd ∉ held ++ fds := fun hmem => (List.mem_append.mp hmem).elim hheld hfds
    rw [h'.others fd hheld' hfds', h.others fd hheld hfds]

section Cases

variable {x make : Attempt φ ε α} {rest : α → Attempt φ ε β} {f : α → β} {a : α} {e : ε}
  {own : α → List Int}

theorem map_of_ok (h : x t = (.ok a, t')) : x.map f t = (.ok (f a), t') := by
  unfold Attempt.map
  rw [h]
  rfl

theorem map_of_error (h : x t = (.error e, t')) : x.map f t = (.error e, t') := by
  unfold Attempt.map
  rw [h]
  rfl

theorem mapError_of_ok {g : ε → ε'} (h : x t = (.ok a, t')) : x.mapError g t = (.ok a, t') := by
  unfold Attempt.mapError
  rw [h]
  rfl

theorem mapError_of_error {g : ε → ε'} (h : x t = (.error e, t')) :
    x.mapError g t = (.error (g e), t') := by
  unfold Attempt.mapError
  rw [h]
  rfl

theorem andThen_of_ok (h : x t = (.ok a, t')) : x.andThen rest t = rest a t' := by
  unfold Attempt.andThen
  rw [h]

theorem andThen_of_error (h : x t = (.error e, t')) : x.andThen rest t = (.error e, t') := by
  unfold Attempt.andThen
  rw [h]

theorem orClose_of_ok (h : x t = (.ok a, t')) : x.orClose fds t = (.ok a, t') := by
  unfold Attempt.orClose
  rw [h]

theorem orClose_of_error (h : x t = (.error e, t')) :
    x.orClose fds t = (.error e, fds.foldl DescriptorTable.close t') := by
  unfold Attempt.orClose
  rw [h]

/-- The member throws, or the rest does, which then closes what the member has, or both return. -/
theorem member_cases (make : Attempt φ ε α) (own : α → List Int) (rest : α → Attempt φ ε β)
    (t : DescriptorTable φ) :
    (∃ e u, make t = (.error e, u) ∧ Attempt.member make own rest t = (.error e, u)) ∨
    ∃ a u, make t = (.ok a, u) ∧
      ((∃ e v, rest a u = (.error e, v) ∧
        Attempt.member make own rest t = (.error e, (own a).foldl DescriptorTable.close v)) ∨
      ∃ b v, rest a u = (.ok b, v) ∧ Attempt.member make own rest t = (.ok (a, b), v)) := by
  unfold Attempt.member
  rcases hmake : make t with ⟨e | a, u⟩
  · exact .inl ⟨e, u, rfl, andThen_of_error hmake⟩
  · refine .inr ⟨a, u, rfl, ?_⟩
    rw [andThen_of_ok hmake]
    rcases hrest : rest a u with ⟨e | b, v⟩
    · exact .inl ⟨e, v, rfl, map_of_error (orClose_of_error hrest)⟩
    · exact .inr ⟨b, v, rfl, map_of_ok (orClose_of_ok hrest)⟩

theorem map_eq_ok {b : β} (h : x.map f t = (.ok b, u)) : ∃ a, x t = (.ok a, u) ∧ f a = b := by
  rcases hx : x t with ⟨e | a, v⟩
  · rw [map_of_error hx] at h
    cases h
  · rw [map_of_ok hx] at h
    cases h
    exact ⟨a, rfl, rfl⟩

/-- A constructor that returns has made the member and then the rest. -/
theorem member_eq_ok {p : α × β} (h : Attempt.member make own rest t = (.ok p, u)) :
    ∃ v, make t = (.ok p.1, v) ∧ rest p.1 v = (.ok p.2, u) := by
  rcases member_cases make own rest t with ⟨e, v, -, hmember⟩ |
    ⟨a, v, hmake, ⟨e, w, -, hmember⟩ | ⟨b, w, hrest, hmember⟩⟩
  · rw [hmember] at h
    cases h
  · rw [hmember] at h
    cases h
  · rw [hmember] at h
    cases h
    exact ⟨v, hmake, hrest⟩

section Delegation

variable {body : α → Attempt φ ε Unit}

theorem delegate_of_error (h : make t = (.error e, t')) :
    Attempt.delegate make own body t = (.error e, t') :=
  map_of_error (andThen_of_error h)

theorem delegate_of_ok (h : make t = (.ok a, t')) (hbody : body a t' = (.ok (), u)) :
    Attempt.delegate make own body t = (.ok a, u) := by
  refine map_of_ok (?_ : Attempt.member make own body t = (.ok (a, ()), u))
  unfold Attempt.member
  rw [andThen_of_ok h]
  exact map_of_ok (orClose_of_ok hbody)

theorem delegate_of_body_error (h : make t = (.ok a, t')) (hbody : body a t' = (.error e, u)) :
    Attempt.delegate make own body t = (.error e, (own a).foldl DescriptorTable.close u) := by
  refine map_of_error ?_
  unfold Attempt.member
  rw [andThen_of_ok h]
  exact map_of_error (orClose_of_error hbody)

end Delegation

end Cases

section Sound

variable {x make : Attempt φ ε α} {rest : α → Attempt φ ε β} {own : α → List Int}
  {own' : β → List Int}

theorem Sound.map {f : α → β} (h : Sound P held x own) (hown : ∀ a, own' (f a) = own a) :
    Sound P held (x.map f) own' := by
  constructor
  · intro t e t' ht heq
    rcases hx : x t with ⟨e' | a, u⟩
    · rw [map_of_error hx] at heq
      cases heq
      exact h.throws t _ _ ht hx
    · rw [map_of_ok hx] at heq
      cases heq
  · intro t b t' ht heq
    rcases hx : x t with ⟨e' | a, u⟩
    · rw [map_of_error hx] at heq
      cases heq
    · rw [map_of_ok hx] at heq
      cases heq
      rw [hown]
      exact h.returns t _ _ ht hx

theorem Sound.mapError {g : ε → ε'} (h : Sound P held x own) : Sound P held (x.mapError g) own := by
  constructor
  · intro t e t' ht heq
    rcases hx : x t with ⟨e' | a, u⟩
    · rw [mapError_of_error hx] at heq
      cases heq
      exact h.throws t _ _ ht hx
    · rw [mapError_of_ok hx] at heq
      cases heq
  · intro t a t' ht heq
    rcases hx : x t with ⟨e' | a', u⟩
    · rw [mapError_of_error hx] at heq
      cases heq
    · rw [mapError_of_ok hx] at heq
      cases heq
      exact h.returns t _ _ ht hx

/-- **Members.** If a member is sound, and the rest of the constructor is behind it, then they are
together: an exception behind the member closes what it has. -/
theorem Sound.member (hmake : Sound P held make own)
    (hrest : ∀ a, Sound P (held ++ own a) (rest a) own') :
    Sound P held (Attempt.member make own rest) fun p => own p.1 ++ own' p.2 := by
  constructor
  · intro t e t' ht heq fd hheld
    rcases member_cases make own rest t with ⟨e', u, hu, hmember⟩ |
      ⟨a, u, hu, ⟨e', v, hv, hmember⟩ | ⟨b, v, -, hmember⟩⟩
    · rw [hmember] at heq
      cases heq
      exact hmake.throws t _ _ ht hu fd hheld
    · rw [hmember] at heq
      cases heq
      have hacquired := hmake.returns t a u ht hu
      by_cases hnew : fd ∈ own a
      · rw [DescriptorTable.get_foldl_close_eq_none _ _ hnew, hacquired.free fd hnew]
      · have hbehind : fd ∉ held ++ own a :=
          fun hmem => (List.mem_append.mp hmem).elim hheld hnew
        rw [DescriptorTable.get_foldl_close_of_not_mem hnew,
          (hrest a).throws u _ _ hacquired.isOpen hv fd hbehind, hacquired.others fd hheld hnew]
    · rw [hmember] at heq
      cases heq
  · intro t p t' ht heq
    rcases member_cases make own rest t with ⟨e', u, -, hmember⟩ |
      ⟨a, u, hu, ⟨e', v, -, hmember⟩ | ⟨b, v, hv, hmember⟩⟩
    · rw [hmember] at heq
      cases heq
    · rw [hmember] at heq
      cases heq
    · rw [hmember] at heq
      cases heq
      have hacquired := hmake.returns t a u ht hu
      exact hacquired.append ((hrest a).returns u _ _ hacquired.isOpen hv)

/-- What only looks at the descriptors. -/
theorem sound_of_kept (hx : ∀ t, (x t).2 = t) : Sound P held x fun _ => [] := by
  constructor
  · intro t e t' _ heq fd _
    have hkept := hx t
    rw [heq] at hkept
    rw [← hkept]
  · intro t a t' ht heq
    have hkept := hx t
    rw [heq] at hkept
    obtain rfl : t' = t := hkept
    refine ⟨fun fd hfd => absurd hfd List.not_mem_nil, ?_, fun fd _ _ => rfl⟩
    rw [List.append_nil]
    exact ht

/-- A system call that opens a descriptor. -/
theorem sound_openNew {y : φ} (hy : P y) (failure : Option ε) :
    Sound P held (.openNew y failure) fun fd => [fd] := by
  constructor
  · intro t e t' _ heq fd _
    unfold Attempt.openNew at heq
    cases failure with
    | none => cases heq
    | some e' =>
      cases heq
      rfl
  · intro t fd t' ht heq
    unfold Attempt.openNew at heq
    cases failure with
    | some e' => cases heq
    | none =>
      cases heq
      refine ⟨?_, ⟨?_, ?_⟩, ?_⟩
      · intro fd hfd
        rw [List.mem_singleton.mp hfd]
        exact DescriptorTable.get_lowestFree
      · refine List.nodup_append.mpr ⟨ht.distinct, List.pairwise_singleton _ _, ?_⟩
        rintro fd hheld fd' hnew rfl
        rw [List.mem_singleton.mp hnew] at hheld
        exact ht.get_ne_none hheld DescriptorTable.get_lowestFree
      · intro fd hfd
        rcases List.mem_append.mp hfd with hheld | hnew
        · obtain ⟨x, hx, hpx⟩ := ht.isOpen fd hheld
          exact ⟨x, DescriptorTable.extends_insert t y fd x hx, hpx⟩
        · rw [List.mem_singleton.mp hnew, DescriptorTable.get_insert, if_pos rfl]
          exact ⟨y, rfl, hy⟩
      · intro fd _ hfd
        rw [DescriptorTable.get_insert, if_neg (fun heq => hfd (List.mem_singleton.mpr heq))]

end Sound

section Reports

variable {x make : Attempt φ ε α} {rest : α → Attempt φ ε β} {failures failures' : List (Option ε)}
  {own : α → List Int}

theorem reduceOption_append_head? {e : ε} (h : failures.reduceOption.head? = some e) :
    (failures ++ failures').reduceOption.head? = some e := by
  rw [List.reduceOption_append, List.head?_append, h]
  rfl

theorem reduceOption_append_of_nil (h : failures.reduceOption = []) :
    (failures ++ failures').reduceOption = failures'.reduceOption := by
  rw [List.reduceOption_append, h, List.nil_append]

theorem Reports.map {f : α → β} (h : Reports P held failures x) :
    Reports P held failures (x.map f) := by
  intro t ht
  rcases h t ht with ⟨a, u, hx, hnone⟩ | ⟨e, u, hx, hfirst⟩
  · exact .inl ⟨f a, u, map_of_ok hx, hnone⟩
  · exact .inr ⟨e, u, map_of_error hx, hfirst⟩

theorem Reports.mapError {g : ε → ε'} (h : Reports P held failures x) :
    Reports P held (failures.map (Option.map g)) (x.mapError g) := by
  intro t ht
  rw [List.reduceOption_map]
  rcases h t ht with ⟨a, u, hx, hnone⟩ | ⟨e, u, hx, hfirst⟩
  · exact .inl ⟨a, u, mapError_of_ok hx, by rw [hnone]; rfl⟩
  · exact .inr ⟨g e, u, mapError_of_error hx, by rw [List.head?_map, hfirst]; rfl⟩

theorem Reports.andThen (hsound : Sound P held x own) (h : Reports P held failures x)
    (hrest : ∀ a, Reports P (held ++ own a) failures' (rest a)) :
    Reports P held (failures ++ failures') (x.andThen rest) := by
  intro t ht
  rcases h t ht with ⟨a, u, hx, hnone⟩ | ⟨e, u, hx, hfirst⟩
  · rw [andThen_of_ok hx, reduceOption_append_of_nil hnone]
    exact hrest a u (hsound.returns t a u ht hx).isOpen
  · exact .inr ⟨e, u, andThen_of_error hx, reduceOption_append_head? hfirst⟩

theorem Reports.orClose (h : Reports P held failures x) :
    Reports P held failures (x.orClose fds) := by
  intro t ht
  rcases h t ht with ⟨a, u, hx, hnone⟩ | ⟨e, u, hx, hfirst⟩
  · exact .inl ⟨a, u, orClose_of_ok hx, hnone⟩
  · exact .inr ⟨e, _, orClose_of_error hx, hfirst⟩

theorem Reports.member (hsound : Sound P held make own) (hmake : Reports P held failures make)
    (hrest : ∀ a, Reports P (held ++ own a) failures' (rest a)) :
    Reports P held (failures ++ failures') (Attempt.member make own rest) :=
  hmake.andThen hsound fun a => (hrest a).orClose.map

theorem reports_openNew (y : φ) (failure : Option ε) :
    Reports P held [failure] (.openNew y failure : Attempt φ ε Int) := by
  intro t _
  cases failure with
  | none => exact .inl ⟨_, _, rfl, rfl⟩
  | some e => exact .inr ⟨e, _, rfl, rfl⟩

end Reports

end Rules

end Construction
