import Mathlib.Data.List.Basic

/-!
# Messages on a stream

A format takes one message off the front of a stream, or finds that there is no whole one. A reader
takes the elements off the stream in portions of its own choice. It has handed out some messages, and
holds what it has taken off since the last of them.
-/

namespace Framing

variable {β μ : Type*}

/-- How messages stand on a stream. Each takes up a part of the stream. -/
structure Format (β μ : Type*) where
  take : List β → Option (μ × List β)
  shorter : ∀ {s m rest}, take s = some (m, rest) → rest.length < s.length

variable (f : Format β μ)

/-- The messages on a stream, up to the first place where there is no whole one. -/
def Format.messages (s : List β) : List μ :=
  match _ : f.take s with
  | some (m, rest) => m :: Format.messages rest
  | none => []
termination_by s.length
decreasing_by exact f.shorter ‹_›

/-- A reader of the stream `s` has handed out `out` and holds `held`, and `rest` is to come. -/
def Format.Reads (s : List β) (out : List μ) (held rest : List β) : Prop :=
  f.messages s = out ++ f.messages (held ++ rest)

variable {f} {s held rest : List β} {out : List μ} {m : μ}

theorem messages_of_none (h : f.take s = none) : f.messages s = [] := by
  rw [Format.messages]
  split
  · rename_i heq
    rw [h] at heq
    cases heq
  · rfl

theorem messages_of_some (h : f.take s = some (m, rest)) :
    f.messages s = m :: f.messages rest := by
  rw [Format.messages]
  split
  · rename_i m' rest' heq
    obtain ⟨rfl, rfl⟩ := Prod.mk.inj (Option.some.inj (h.symm.trans heq))
    rfl
  · rename_i heq
    rw [h] at heq
    cases heq

namespace Format.Reads

theorem start (f : Format β μ) (s : List β) : f.Reads s [] [] s := rfl

/-- The reader takes a portion off the stream. -/
theorem portion (h : f.Reads s out held rest) (n : ℕ) :
    f.Reads s out (held ++ rest.take n) (rest.drop n) := by
  unfold Format.Reads at h ⊢
  rwa [List.append_assoc, List.take_append_drop]

/-- The reader hands out the message that stands at the front. -/
theorem handOut (h : f.Reads s out held rest) {rest' : List β}
    (hm : f.take (held ++ rest) = some (m, rest')) : f.Reads s (out ++ [m]) [] rest' := by
  unfold Format.Reads at h ⊢
  rw [h, messages_of_some hm, List.append_assoc]
  rfl

/-- What is handed out are messages of the stream, in order. -/
theorem isPrefix (h : f.Reads s out held rest) : out <+: f.messages s := by
  rw [h]
  exact List.prefix_append _ _

/-- Where no whole message is left, none comes from what follows. -/
theorem giveUp (h : f.Reads s out held rest) (hnone : f.take (held ++ rest) = none)
    {held' rest' : List β} (hnone' : f.take (held' ++ rest') = none) :
    f.Reads s out held' rest' := by
  unfold Format.Reads at h ⊢
  rw [h, messages_of_none hnone, messages_of_none hnone']

/-- Where no whole message is left, all were handed out. -/
theorem all (h : f.Reads s out held rest) (hnone : f.take (held ++ rest) = none) :
    out = f.messages s := by
  rw [h, messages_of_none hnone, List.append_nil]

end Format.Reads

end Framing
