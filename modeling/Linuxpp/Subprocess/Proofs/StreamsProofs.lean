import Linuxpp.Subprocess.StandardStreams

/-!
# Proofs: opening the streams

A stream that opens something gets numbers that were free, so opening only adds to the table. The
three streams are opened one after the other, so each finds the descriptors of the earlier ones
taken.
-/

namespace Linuxpp.Subprocess

/-- What `open` of a stream that may not be configured does to the table. -/
structure Opened (s : Option Stream) (t t' : FdTable) (d : StreamDescriptors) : Prop where
  grows : t.Extends t'
  new : ∀ fd, t.get fd = none → t'.get fd ≠ none → s ≠ none ∧ d.Uses fd
  usable : s ≠ none → ∀ fd, d.Uses fd → t'.get fd ≠ none
  absent : s = none → d = {}
  given : ∀ readFd writeFd, s = some (.fdStream readFd writeFd) → d = ⟨readFd, writeFd⟩
  fresh : ∀ st, s = some st → st.opens = true → ∀ fd, d.Uses fd → t.get fd = none
  pipe : s = some .pipeStream → ∃ id,
    t'.get d.readFd = some (.pipeRead id) ∧ t'.get d.writeFd = some (.pipeWrite id)

variable {s : Option Stream} {p p' : Process} {d : StreamDescriptors} {failure : Option Errno}

theorem Opened.of_none (t : FdTable) : Opened none t t {} where
  grows := .refl t
  new := fun _ h h' => absurd h h'
  usable := fun h => absurd rfl h
  absent := fun _ => rfl
  given := by simp
  fresh := by simp
  pipe := by simp

theorem openPath_ok {path : String} : openPath path p failure = (.ok d, p') ↔
    failure = none ∧ d = .ofFd p.table.lowestFree ∧
      p' = { p with table := p.table.insert (.file p.opened), opened := p.opened + 1 } := by
  cases failure <;> simp [openPath, eq_comm]

theorem pipeFd_ok : pipeFd p failure = (.ok d, p') ↔
    failure = none ∧
      d = ⟨p.table.lowestFree, (p.table.insert (.pipeRead p.opened)).lowestFree⟩ ∧
      p' = { p with
        table := (p.table.insert (.pipeRead p.opened)).insert (.pipeWrite p.opened)
        opened := p.opened + 1 } := by
  cases failure <;> simp [pipeFd, eq_comm]

theorem Opened.of_openPath {path : String} {st : Stream} (hst : st.opens = true)
    (hpipe : st ≠ .pipeStream) (h : openPath path p failure = (.ok d, p')) :
    Opened (some st) p.table p'.table d := by
  obtain ⟨-, rfl, rfl⟩ := openPath_ok.mp h
  have hopen : (p.table.insert (.file p.opened)).get p.table.lowestFree ≠ none := by
    simp
  refine ⟨DescriptorTable.extends_insert _ _, ?_, ?_, by simp, ?_, ?_, ?_⟩
  · intro fd hfd hfd'
    exact ⟨by simp, Or.inl (DescriptorTable.eq_lowestFree_of_insert hfd hfd')⟩
  · rintro - fd (rfl | rfl) <;> exact hopen
  · intro readFd writeFd heq
    rw [Option.some.inj heq] at hst
    cases hst
  · rintro - - - fd (rfl | rfl) <;> exact p.table.get_lowestFree
  · intro heq
    exact absurd (Option.some.inj heq) hpipe

theorem Opened.of_pipeFd (h : pipeFd p failure = (.ok d, p')) :
    Opened (some .pipeStream) p.table p'.table d := by
  obtain ⟨-, rfl, rfl⟩ := pipeFd_ok.mp h
  set u := p.table.insert (.pipeRead p.opened) with hu
  have hread : u.get p.table.lowestFree = some (.pipeRead p.opened) := by simp [hu]
  have hread' : (u.insert (.pipeWrite p.opened)).get p.table.lowestFree =
      some (.pipeRead p.opened) := DescriptorTable.extends_insert _ _ _ _ hread
  have hwrite : (u.insert (.pipeWrite p.opened)).get u.lowestFree =
      some (.pipeWrite p.opened) := by simp
  have hgrows : p.table.Extends u := DescriptorTable.extends_insert _ _
  refine ⟨hgrows.trans (DescriptorTable.extends_insert _ _), ?_, ?_, by simp, by simp, ?_, ?_⟩
  · intro fd hfd hfd'
    refine ⟨by simp, ?_⟩
    by_cases hfdu : u.get fd = none
    · exact Or.inr (DescriptorTable.eq_lowestFree_of_insert hfdu hfd')
    · exact Or.inl (DescriptorTable.eq_lowestFree_of_insert hfd hfdu)
  · rintro - fd (rfl | rfl)
    · exact Option.ne_none_iff_exists'.mpr ⟨_, hread'⟩
    · exact Option.ne_none_iff_exists'.mpr ⟨_, hwrite⟩
  · rintro - - - fd (rfl | rfl)
    · exact p.table.get_lowestFree
    · -- what is free after the first end was free before
      by_contra hget
      exact hgrows.get_ne_none hget u.get_lowestFree
  · intro _
    exact ⟨p.opened, hread', hwrite⟩

theorem Opened.of_openStream (h : openStream s p failure = (.ok d, p'))
    (hover : ∀ st, s = some st → st.OverOpen p.table) : Opened s p.table p'.table d := by
  cases s with
  | none =>
    obtain ⟨hd, rfl⟩ := Prod.mk.inj h
    obtain rfl := Except.ok.inj hd
    exact .of_none _
  | some st =>
    cases st with
    | pipeStream => exact .of_pipeFd h
    | pathStream path => exact .of_openPath rfl (by simp) h
    | nullStream => exact .of_openPath rfl (by simp) h
    | fdStream readFd writeFd =>
      obtain ⟨hd, rfl⟩ := Prod.mk.inj h
      obtain rfl := Except.ok.inj hd
      have hopen : p.table.get readFd ≠ none ∧ p.table.get writeFd ≠ none := hover _ rfl
      refine ⟨.refl _, fun _ h h' => absurd h h', ?_, by simp, ?_, by simp [Stream.opens], by simp⟩
      · rintro - fd (rfl | rfl)
        · exact hopen.1
        · exact hopen.2
      · intro readFd' writeFd' heq
        cases heq
        rfl

/-- The descriptors of a stream are set exactly when it is configured. -/
theorem Opened.toBool_eq {t t' : FdTable} (h : Opened s t t' d) : d.toBool = s.isSome := by
  cases s with
  | none =>
    rw [h.absent rfl]
    rfl
  | some st =>
    have hne : ∀ fd, d.Uses fd → fd ≠ closedFd := by
      rintro fd hfd rfl
      exact h.usable (by simp) _ hfd (DescriptorTable.get_of_neg (by decide))
    simp [StreamDescriptors.toBool, hne _ (Or.inl rfl), hne _ (Or.inr rfl)]

/-- A pipe shares no descriptor with a stream that was opened before it. -/
theorem Opened.apart_earlier {s' : Option Stream} {t₀ u t t' : FdTable} {d' : StreamDescriptors}
    (h : Opened (some .pipeStream) t t' d) (h' : Opened s' t₀ u d') (hs' : s' ≠ none)
    (hgrows : u.Extends t) {fd fd' : Int} (hfd : d.Uses fd) (hfd' : d'.Uses fd') : fd' ≠ fd :=
  DescriptorTable.ne_of_get (hgrows.get_ne_none (h'.usable hs' _ hfd')) (h.fresh _ rfl rfl _ hfd)

theorem Stream.OverOpen.mono {st : Stream} {t t' : FdTable} (h : st.OverOpen t)
    (hgrows : t.Extends t') : st.OverOpen t' := by
  cases st with
  | fdStream readFd writeFd => exact ⟨hgrows.get_ne_none h.1, hgrows.get_ne_none h.2⟩
  | _ => trivial

/-- A pipe shares no descriptor with a stream that is opened after it. -/
theorem Opened.apart_later {st : Stream} {t₀ t t' u u' : FdTable} {d' : StreamDescriptors}
    (h : Opened (some .pipeStream) t t' d) (h' : Opened (some st) u u' d')
    (hover : st.OverOpen t₀) (hbefore : t₀.Extends t) (hgrows : t'.Extends u) {fd fd' : Int}
    (hfd : d.Uses fd) (hfd' : d'.Uses fd') : fd' ≠ fd := by
  cases hst : st.opens with
  | true =>
    have hopen := hgrows.get_ne_none (h.usable (by simp) _ hfd)
    exact (DescriptorTable.ne_of_get hopen (h'.fresh _ rfl hst _ hfd')).symm
  | false =>
    cases st with
    | fdStream readFd writeFd =>
      obtain rfl := h'.given _ _ rfl
      have hopen : t₀.get fd' ≠ none := by
        rcases hfd' with rfl | rfl
        · exact hover.1
        · exact hover.2
      exact DescriptorTable.ne_of_get (hbefore.get_ne_none hopen) (h.fresh _ rfl rfl _ hfd)
    | _ => cases hst

end Linuxpp.Subprocess
