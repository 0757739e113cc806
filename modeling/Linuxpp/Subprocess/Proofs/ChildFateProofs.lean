import Linuxpp.Subprocess.ChildFate
import Linuxpp.Subprocess.Proofs.PopenFailureProofs

/-!
# Proofs: the constructor reports the fate of the child

Each part of the child either goes on, having stored nothing and made only calls that succeeded or
are tolerated, or gives up at the call that failed last, having stored its error. The parts compose,
so that what the parent finds stored is the error of the first call that is not tolerated, and zero
exactly if the program was executed.
-/

namespace Linuxpp.Subprocess

variable {c c' c'' : Child} {errno : Errno} {failure : Option Errno} {call : SystemCall}
  {closes : ℕ → Option Errno}

section Fates

/-- Calls that do not make the child give up, and do not execute the program. -/
def QuietEvents (new : List SystemCallEvent) : Prop :=
  ∀ e ∈ new, e.abandons = none ∧ e ≠ ⟨.execve, none⟩

/-- From `c` to `c'` the child has gone on. -/
def Quiet (c c' : Child) : Prop :=
  c'.childStatus = c.childStatus ∧ ∃ new, c'.trace = c.trace ++ new ∧ QuietEvents new

theorem QuietEvents.append {new new' : List SystemCallEvent} (h : QuietEvents new)
    (h' : QuietEvents new') : QuietEvents (new ++ new') := by
  intro e he
  rcases List.mem_append.mp he with he | he
  · exact h e he
  · exact h' e he

theorem quietEvents_nil : QuietEvents [] := by
  intro e he
  cases he

theorem Quiet.refl (c : Child) : Quiet c c := ⟨rfl, [], (List.append_nil _).symm, quietEvents_nil⟩

theorem Quiet.trans (h : Quiet c c') (h' : Quiet c' c'') : Quiet c c'' := by
  obtain ⟨hstatus, new, htrace, hquiet⟩ := h
  obtain ⟨hstatus', new', htrace', hquiet'⟩ := h'
  refine ⟨hstatus'.trans hstatus, new ++ new', ?_, hquiet.append hquiet'⟩
  rw [htrace', htrace, List.append_assoc]

end Fates

section Verdict

variable {new : List SystemCallEvent}

end Verdict

section Calls

variable {fd dirfd : Int}

@[simp] theorem table_close : (c.close closes fd).table = c.table.close fd := rfl

@[simp] theorem table_record : (c.record call failure).table = c.table := rfl

end Calls

section Parts

variable {ownedFd otherFd newFd : Int} {stream : StreamDescriptors} {calls : SystemCalls}
  {policy : SubprocessDescriptor} {t : FdTable} {code : ℕ}

section HandleChildStream

variable {c₁ c₂ : Child} {t₁ : FdTable}

end HandleChildStream

end Parts

section Outcomes

variable {calls : SystemCalls} {events : List SystemCallEvent} {e : SystemCallEvent}

/-- One more call. -/
theorem AsGiven.concat (h : AsGiven calls closes events)
    (he : calls.Give (closes events.length) e) : AsGiven calls closes (events ++ [e]) := by
  intro n e' he'
  rcases Nat.lt_trichotomy n events.length with hlt | rfl | hgt
  · rw [List.getElem?_append_left hlt] at he'
    exact h n e' he'
  · rw [List.getElem?_concat_length] at he'
    obtain rfl := Option.some.inj he'
    exact he
  · rw [List.getElem?_eq_none] at he'
    · cases he'
    · rw [List.length_append, List.length_singleton]
      omega

variable {fd dirfd : Int}

end Outcomes

section Opening

variable {s : Option Stream} {streams : Streams} {calls : SystemCalls} {p q : Process}

section OpenTrace

variable {rest : List (Option Stream × Option Errno)}

end OpenTrace

end Opening

section Constructor

variable {streams : Streams} {calls : SystemCalls} {p q : Process} {d : SubprocessDescriptor}

variable {pid : ℕ} {child : Child}

/-- The parent finds the zero that it has stored itself. -/
theorem construct_of_executes {code : Option ℕ} (h : openStreams streams calls p = (.ok d, q))
    (hclone : calls.clone = .ok pid)
    (hchild : Child.cloneHandler closes d calls { table := q.table } = (code, child))
    (hstatus : child.childStatus = 0) :
    construct streams calls closes p =
      ⟨.ok (keepParentEnds d pid { q with children := pid :: q.children }).1,
        (keepParentEnds d pid { q with children := pid :: q.children }).2,
        openTrace (openCalls streams calls) ++ ⟨.clone, none⟩ :: child.trace⟩ := by
  have hzero : ¬ 0 < child.childStatus := by omega
  simp only [construct, h, hclone, hchild]
  rw [dif_neg hzero]

end Constructor

end Linuxpp.Subprocess
