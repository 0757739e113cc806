import Linuxpp.Foundations.Machine

/-!
# Custody

Holders have things. One of them, the giver, makes new things and can hand a thing over to another
holder, keeping nothing of it; all others only drop what they have. Then nothing ever has two
holders, what nobody has is never had again, and what has left the giver stays where it is.
-/

/-- A step of custody: what is held afterwards was held before, or the giver has made it, or the
receiver has it from the giver, who has kept nothing of it. -/
def Passes {η ρ : Type*} (made : ρ → Prop) (giver receiver : η) (held held' : η → ρ → Prop) :
    Prop :=
  ∀ h x, held' h x → held h x ∨ (h = giver ∧ ¬ made x) ∨
    (h = receiver ∧ (held giver x ∨ ¬ made x) ∧ ¬ held' giver x)

/-- Nothing has two holders, and what is held was made. -/
structure Custody {η ρ : Type*} (made : ρ → Prop) (held : η → ρ → Prop) : Prop where
  sole : ∀ x h h', held h x → held h' x → h = h'
  known : ∀ h x, held h x → made x

section Step

variable {η ρ : Type*} {made : ρ → Prop} {giver receiver h : η} {held held' : η → ρ → Prop} {x : ρ}

theorem passes_of_drops (hdrops : ∀ h x, held' h x → held h x) :
    Passes made giver receiver held held' := fun h x hx => Or.inl (hdrops h x hx)

/-- **Step rule.** Nothing gets a second holder. -/
theorem Custody.passes {made' : ρ → Prop} (hc : Custody made held)
    (hp : Passes made giver receiver held held') (hmade : ∀ h x, held' h x → made' x) :
    Custody made' held' := by
  refine ⟨fun x h h' hh hh' => ?_, hmade⟩
  rcases hp h x hh with hold | ⟨rfl, hnew⟩ | ⟨rfl, hfrom, hgone⟩
  · rcases hp h' x hh' with hold' | ⟨-, hnew⟩ | ⟨rfl, hfrom, hgone⟩
    · exact hc.sole x h h' hold hold'
    · exact absurd (hc.known h x hold) hnew
    · -- the giver had it, and it has kept nothing
      have hgiver := hfrom.resolve_right (not_not_intro (hc.known h x hold))
      obtain rfl := hc.sole x h giver hold hgiver
      exact absurd hh hgone
  · rcases hp h' x hh' with hold' | ⟨rfl, -⟩ | ⟨rfl, -, hgone⟩
    · exact absurd (hc.known h' x hold') hnew
    · rfl
    · exact absurd hh hgone
  · rcases hp h' x hh' with hold' | ⟨rfl, -⟩ | ⟨rfl, -, -⟩
    · have hgiver := hfrom.resolve_right (not_not_intro (hc.known h' x hold'))
      obtain rfl := hc.sole x h' giver hold' hgiver
      exact absurd hh' hgone
    · exact absurd hh' hgone
    · rfl

/-- What was made and nobody has is not had again. -/
theorem Passes.unheld (hp : Passes made giver receiver held held') (hmade : made x)
    (hnone : ∀ h, ¬ held h x) (h : η) : ¬ held' h x := by
  intro hx
  rcases hp h x hx with hold | ⟨-, hnew⟩ | ⟨-, hfrom, -⟩
  · exact hnone h hold
  · exact hnew hmade
  · exact hnone giver (hfrom.resolve_right (not_not_intro hmade))

/-- What only a holder other than the giver has stays with it. -/
theorem Passes.only (hp : Passes made giver receiver held held') (hmade : made x)
    (hne : h ≠ giver) (honly : ∀ h', held h' x → h' = h) {h' : η} (hx : held' h' x) : h' = h := by
  rcases hp h' x hx with hold | ⟨-, hnew⟩ | ⟨-, hfrom, -⟩
  · exact honly h' hold
  · exact absurd hmade hnew
  · have hgiver := hfrom.resolve_right (not_not_intro hmade)
    exact absurd (honly giver hgiver).symm hne

end Step

section Runs

variable {σ α η ρ : Type*} {m : Machine σ α} {made : σ → ρ → Prop} {held : σ → η → ρ → Prop}
  {giver : η} {Inv : σ → Prop} {s t : σ} {ls : List α} {x : ρ}

/-- Every step of the machine out of a good state is one of custody. -/
structure KeepsCustody (m : Machine σ α) (made : σ → ρ → Prop) (held : σ → η → ρ → Prop)
    (giver : η) (Inv : σ → Prop) : Prop where
  inv : ∀ s l t, Inv s → m s l = some t → Inv t
  known : ∀ s, Inv s → ∀ h x, held s h x → made s x
  stays : ∀ s l t, Inv s → m s l = some t → ∀ x, made s x → made t x
  passes : ∀ s l t, Inv s → m s l = some t →
    ∃ receiver, Passes (made s) giver receiver (held s) (held t)

/-- **Run rule.** Nothing has two holders, at the end of any run. -/
theorem KeepsCustody.custody (hk : KeepsCustody m made held giver Inv) (hrun : m.run s ls = some t)
    (hs : Inv s) (hc : Custody (made s) (held s)) : Custody (made t) (held t) := by
  have hstep : ∀ s l t, Inv s ∧ Custody (made s) (held s) → m s l = some t →
      Inv t ∧ Custody (made t) (held t) := by
    rintro s l t ⟨hs, hc⟩ hl
    have ht := hk.inv s l t hs hl
    obtain ⟨receiver, hp⟩ := hk.passes s l t hs hl
    exact ⟨ht, hc.passes hp (hk.known t ht)⟩
  exact (Machine.run_invariant hstep hrun ⟨hs, hc⟩).2

/-- What was made stays made in any run. -/
theorem KeepsCustody.made_of_run (hk : KeepsCustody m made held giver Inv)
    (hrun : m.run s ls = some t) (hs : Inv s) (hmade : made s x) : Inv t ∧ made t x := by
  have hstep : ∀ s l t, Inv s ∧ made s x → m s l = some t → Inv t ∧ made t x :=
    fun s l t hs hl => ⟨hk.inv s l t hs.1 hl, hk.stays s l t hs.1 hl x hs.2⟩
  exact Machine.run_invariant hstep hrun ⟨hs, hmade⟩

/-- What nobody has is not had again in any run. -/
theorem KeepsCustody.unheld (hk : KeepsCustody m made held giver Inv) (hrun : m.run s ls = some t)
    (hs : Inv s) (hmade : made s x) (hnone : ∀ h, ¬ held s h x) (h : η) : ¬ held t h x := by
  have hstep : ∀ s l t, Inv s ∧ made s x ∧ (∀ h, ¬ held s h x) → m s l = some t →
      Inv t ∧ made t x ∧ ∀ h, ¬ held t h x := by
    rintro s l t ⟨hs, hmade, hnone⟩ hl
    obtain ⟨receiver, hp⟩ := hk.passes s l t hs hl
    exact ⟨hk.inv s l t hs hl, hk.stays s l t hs hl x hmade, hp.unheld hmade hnone⟩
  exact (Machine.run_invariant hstep hrun ⟨hs, hmade, hnone⟩).2.2 h

/-- What only a holder other than the giver has stays with it in any run. -/
theorem KeepsCustody.only (hk : KeepsCustody m made held giver Inv) (hrun : m.run s ls = some t)
    (hs : Inv s) (hmade : made s x) {h : η} (hne : h ≠ giver) (honly : ∀ h', held s h' x → h' = h)
    {h' : η} (hx : held t h' x) : h' = h := by
  have hstep : ∀ s l t, Inv s ∧ made s x ∧ (∀ h', held s h' x → h' = h) → m s l = some t →
      Inv t ∧ made t x ∧ ∀ h', held t h' x → h' = h := by
    rintro s l t ⟨hs, hmade, honly⟩ hl
    obtain ⟨receiver, hp⟩ := hk.passes s l t hs hl
    exact ⟨hk.inv s l t hs hl, hk.stays s l t hs hl x hmade, fun h' hx => hp.only hmade hne honly hx⟩
  exact (Machine.run_invariant hstep hrun ⟨hs, hmade, honly⟩).2.2 h' hx

end Runs
