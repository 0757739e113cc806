import Linuxpp.Descriptor.TypedPipe
import Linuxpp.Descriptor.Proofs.PipeIoProofs

/-!
# Proofs: which values go through a pipe as they are

A write puts the bytes into the pipe that the object points to, and a complete read returns the
number of bytes read. So the round trip fails for all but arrays on the way in, and for all values
but one on the way out.
-/

namespace Linuxpp

/-- No type goes both ways. -/
theorem not_instantiates_both (t : PodType) : ¬ (t.WriteInstantiates ∧ t.ReadInstantiates) := by
  rintro ⟨hwrite, hread⟩
  cases t with
  | ssizeT => exact hwrite
  | array | pointer | convertible | other => exact hread

section Calls

variable {p : Pipe} {o : IoOutcome} {obj : PodObject} {t : List UInt8} {errno : ℤ}

/-- A transfer of `n` bytes is what the comparison of the count looks for. -/
theorem eq_transfers_iff {n : ℕ} : o.ret = n ↔ o = .transfers n := by
  cases o with
  | fails e =>
    have hne : (-1 : ℤ) ≠ n := by omega
    exact ⟨fun h => absurd h hne, fun h => by cases h⟩
  | transfers m =>
    rw [ret_transfers, IoOutcome.transfers.injEq]
    omega

/-- What is not a complete transfer with a clean `errno` gives an error. -/
theorem writeObject_error (h : o ≠ .transfers obj.type.size ∨ o.errnoAfter errno ≠ 0) :
    ∃ e, (p.writeObject (fun _ _ _ => o) obj errno).1 = .error e := by
  have hcond : (⟨o.errnoAfter errno, o.ret⟩ : SyscallReturn ℤ).fail = true ∨
      o.ret ≠ obj.type.size := by
    rcases h with h | h
    · exact Or.inr fun hret => h (eq_transfers_iff.mp hret)
    · exact Or.inl (SyscallReturn.fail_eq_true.mpr h)
  have hnothrow : p.writeObjectNothrow (fun _ _ _ => o) obj errno =
      (⟨Errno.EAGAIN.value, o.ret⟩, o.errnoAfter errno) := if_pos hcond
  refine ⟨⟨Errno.EAGAIN.value, "object write failed"⟩, ?_⟩
  rw [Pipe.writeObject, hnothrow]
  rfl

/-- A read that fails or finds an error in `errno` throws that error. -/
theorem readObject_of_ne_zero (h : o.errnoAfter errno ≠ 0) :
    (p.readObject (fun _ _ _ => o) t errno).1 =
      .error (.systemError ⟨o.errnoAfter errno, "failed to read object"⟩) := by
  have hfail : (⟨o.errnoAfter errno, o.ret⟩ : SyscallReturn ℤ).fail = true :=
    SyscallReturn.fail_eq_true.mpr h
  have hfail' : (⟨o.errnoAfter errno, 0⟩ : SyscallReturn ℤ).fail = true :=
    SyscallReturn.fail_eq_true.mpr h
  have hnothrow : p.readObjectNothrow (fun _ _ _ => o) t errno =
      (.ok ⟨o.errnoAfter errno, 0⟩, o.errnoAfter errno) := by
    have hset : SyscallReturn.seterrno (0 : ℤ) (o.errnoAfter errno) = _ := if_neg h
    show (if (⟨o.errnoAfter errno, o.ret⟩ : SyscallReturn ℤ).fail = true then _ else _) = _
    rw [if_pos hfail, hset]
  rw [Pipe.readObject, hnothrow]
  dsimp only
  rw [if_pos hfail']

theorem readObject_of_short (h0 : o.errnoAfter errno = 0)
    (h : o ≠ .transfers PodType.ssizeT.size) :
    (p.readObject (fun _ _ _ => o) t errno).1 =
      .error (.systemError ⟨Errno.ENODATA.value, "failed to read object"⟩) := by
  have hfail : ¬ (⟨o.errnoAfter errno, o.ret⟩ : SyscallReturn ℤ).fail = true :=
    fun hf => SyscallReturn.fail_eq_true.mp hf h0
  have hret : o.ret ≠ PodType.ssizeT.size := fun hr => h (eq_transfers_iff.mp hr)
  have hnothrow : p.readObjectNothrow (fun _ _ _ => o) t errno =
      (.ok ⟨Errno.ENODATA.value, 0⟩, o.errnoAfter errno) := by
    show (if (⟨o.errnoAfter errno, o.ret⟩ : SyscallReturn ℤ).fail = true then _
      else if o.ret ≠ PodType.ssizeT.size then _ else _) = _
    rw [if_neg hfail, if_pos hret]
    rfl
  rw [Pipe.readObject, hnothrow]
  rfl

/-- A complete read returns the number of bytes it has read, whatever they are. -/
theorem readObject_of_complete (h0 : o.errnoAfter errno = 0)
    (h : o = .transfers PodType.ssizeT.size) :
    (p.readObject (fun _ _ _ => o) t errno).1 = .ok PodType.ssizeT.size := by
  subst h
  rw [errnoAfter_transfers] at h0
  subst h0
  rfl

/-- A short or failed read is reported as an error of the system category. -/
theorem readObject_error (h : o ≠ .transfers PodType.ssizeT.size) :
    ∃ e, (p.readObject (fun _ _ _ => o) t errno).1 = .error (.systemError e) := by
  by_cases h0 : o.errnoAfter errno = 0
  · exact ⟨_, readObject_of_short h0 h⟩
  · exact ⟨_, readObject_of_ne_zero h0⟩

end Calls

/-- One more element is the next one of the other list. -/
theorem concat_prefix_iff {α : Type} {xs ys : List α} {x : α} :
    xs ++ [x] <+: ys ↔ xs <+: ys ∧ ys[xs.length]? = some x := by
  constructor
  · rintro ⟨zs, rfl⟩
    refine ⟨⟨x :: zs, List.append_cons xs x zs⟩, ?_⟩
    rw [List.append_assoc, List.getElem?_append_right (Nat.le_refl _), Nat.sub_self]
    rfl
  · rintro ⟨⟨zs, rfl⟩, hnext⟩
    rw [List.getElem?_append_right (Nat.le_refl _), Nat.sub_self] at hnext
    cases zs with
    | nil => cases hnext
    | cons z zs =>
      obtain rfl := Option.some.inj hnext
      exact ⟨zs, (List.append_cons xs z zs).symm⟩

section Steps

variable {rep : SsizeRepresentation} {p : Pipe} {s u : TypedPipe} {obj : PodObject} {o : IoOutcome}
  {t : List UInt8} {errno : ℤ}

theorem typedPipeStep_write (h : typedPipeStep p s (.write obj o) = some u) :
    u = { s with
      contents := s.contents ++ obj.target.take o.count
      errno := (p.writeObject (fun _ _ _ => o) obj s.errno).2
      entered := s.entered ++ obj.target.take o.count
      writes := s.writes ++ [⟨obj, o, (p.writeObject (fun _ _ _ => o) obj s.errno).1⟩] } :=
  (Option.some.inj (Option.ite_none_right_eq_some.mp h).2).symm

theorem typedPipeStep_read (h : typedPipeStep p s (.read t o) = some u) :
    o.count ≤ s.contents.length ∧
    u = { s with
      contents := s.contents.drop o.count
      errno := (p.readObject (fun _ _ _ => o) t s.errno).2
      reads := s.reads ++
        [⟨s.contents.take o.count, o, (p.readObject (fun _ _ _ => o) t s.errno).1⟩] } :=
  have hinv := Option.ite_none_right_eq_some.mp h
  ⟨hinv.1.2, (Option.some.inj hinv.2).symm⟩

/-- A write keeps the round trip exactly if the object's own bytes enter the pipe. -/
theorem roundTrip_write_iff (hs : RoundTrip rep s)
    (h : typedPipeStep p s (.write obj o) = some u) :
    RoundTrip rep u ↔ obj.target.take o.count = obj.bytes.take o.count := by
  have hu := typedPipeStep_write h
  have henters : (u.entered = u.writes.flatMap fun w => w.obj.bytes.take w.outcome.count) ↔
      obj.target.take o.count = obj.bytes.take o.count := by
    rw [hu]
    show s.entered ++ _ = (s.writes ++ [_]).flatMap _ ↔ _
    rw [List.flatMap_append, hs.enters, List.append_cancel_left_eq, List.flatMap_singleton]
  constructor
  · intro hround
    exact henters.mp hround.enters
  · intro hbytes
    refine ⟨henters.mpr hbytes, ?_, ?_, ?_, ?_, ?_⟩
    · rw [hu]
      show s.entered ++ _ = _ ++ (s.contents ++ _)
      rw [← List.append_assoc, ← hs.leaves]
    · rw [hu]
      intro w hw hshort
      rcases List.mem_append.mp hw with hw | hw
      · exact hs.writeErrors w hw hshort
      · obtain rfl := List.mem_singleton.mp hw
        exact writeObject_error (Or.inl hshort)
    · rw [hu]
      exact hs.readErrors
    · rw [hu]
      exact hs.values
    · have hreturned : u.returned = s.returned := by rw [hu]; rfl
      have hwritten : s.written <+: u.written := by
        rw [hu]
        show _ <+: ((s.writes ++ [_]).filter _).map _
        rw [List.filter_append, List.map_append]
        exact List.prefix_append _ _
      rw [hreturned]
      exact hs.inOrder.trans hwritten

/-- What a complete read should return, it returns if `errno` is clean and the value is the number
of bytes. -/
theorem readObject_value_iff {bs : List UInt8} (hlen : bs.length = PodType.ssizeT.size) :
    (∀ v, IsSsize v → bs = rep.object v →
      (p.readObject (fun _ _ _ => .transfers PodType.ssizeT.size) t errno).1 = .ok v) ↔
      errno = 0 ∧ bs = rep.object PodType.ssizeT.size := by
  have hsize : IsSsize PodType.ssizeT.size := by
    constructor <;> decide
  constructor
  · intro h
    obtain ⟨v, hv, hobj⟩ := rep.surjective bs hlen
    have hresult := h v hv hobj.symm
    have h0 : errno = 0 := by
      by_contra hne
      have hstale : (IoOutcome.transfers PodType.ssizeT.size).errnoAfter errno ≠ 0 := hne
      rw [readObject_of_ne_zero hstale] at hresult
      cases hresult
    have hclean : (IoOutcome.transfers PodType.ssizeT.size).errnoAfter errno = 0 := h0
    rw [readObject_of_complete hclean rfl] at hresult
    have hsame := Except.ok.inj hresult
    exact ⟨h0, by rw [hsame, hobj]⟩
  · rintro ⟨h0, hobj⟩ v hv hv'
    have hclean : (IoOutcome.transfers PodType.ssizeT.size).errnoAfter errno = 0 := h0
    rw [readObject_of_complete hclean rfl, rep.injective _ _ hsize hv (hobj.symm.trans hv')]

/-- A read that does not transfer everything returns no value, and a complete one with a clean `errno`
returns its size. -/
theorem returned_read (h : typedPipeStep p s (.read t o) = some u) :
    (o ≠ .transfers PodType.ssizeT.size → u.returned = s.returned) ∧
    (o = .transfers PodType.ssizeT.size → s.errno = 0 →
      u.returned = s.returned ++ [(PodType.ssizeT.size : ℤ)]) := by
  obtain ⟨-, hu⟩ := typedPipeStep_read h
  have hreturned : u.returned = s.returned ++
      [(p.readObject (fun _ _ _ => o) t s.errno).1].filterMap Except.toOption := by
    rw [hu]
    show (s.reads ++ [_]).filterMap _ = _
    rw [List.filterMap_append]
    rfl
  rw [hreturned]
  constructor
  · intro hshort
    obtain ⟨e, he⟩ : ∃ e, (p.readObject (fun _ _ _ => o) t s.errno).1 =
        .error (.systemError e) := readObject_error hshort
    rw [he]
    exact List.append_nil _
  · rintro rfl h0
    have hclean : (IoOutcome.transfers PodType.ssizeT.size).errnoAfter s.errno = 0 := h0
    rw [readObject_of_complete hclean rfl]
    rfl

theorem roundTrip_read_iff (hs : RoundTrip rep s) (h : typedPipeStep p s (.read t o) = some u) :
    RoundTrip rep u ↔ ConveysValue rep s (.read t o) := by
  obtain ⟨hcount, hu⟩ := typedPipeStep_read h
  obtain ⟨hshort, hcomplete⟩ := returned_read h
  have hwritten : u.written = s.written := by rw [hu]; rfl
  have hvalue : o = .transfers PodType.ssizeT.size → ((∀ v, IsSsize v →
      s.contents.take o.count = rep.object v →
      (p.readObject (fun _ _ _ => o) t s.errno).1 = .ok v) ↔
        s.errno = 0 ∧ s.contents.take o.count = rep.object PodType.ssizeT.size) := by
    rintro rfl
    exact readObject_value_iff (List.length_take_of_le hcount)
  constructor
  · intro hround ho
    have hvalues : ∀ v, IsSsize v → s.contents.take o.count = rep.object v →
        (p.readObject (fun _ _ _ => o) t s.errno).1 = .ok v := by
      rw [hu] at hround
      exact fun v => hround.values _ (List.mem_append_right _ List.mem_cons_self) ho v
    obtain ⟨h0, hobj⟩ := (hvalue ho).mp hvalues
    have hnext := hround.inOrder
    rw [hcomplete ho h0, hwritten, List.map_append, List.map_singleton, concat_prefix_iff,
      List.length_map] at hnext
    rw [ho] at hobj
    exact ⟨h0, hobj, hnext.2⟩
  · intro hconveys
    refine ⟨?_, ?_, ?_, ?_, ?_, ?_⟩
    · rw [hu]
      exact hs.enters
    · rw [hu]
      show s.entered = (s.reads ++ [_]).flatMap _ ++ _
      rw [List.flatMap_append, List.flatMap_singleton, List.append_assoc, List.take_append_drop]
      exact hs.leaves
    · rw [hu]
      exact hs.writeErrors
    · rw [hu]
      intro r hr hshort
      rcases List.mem_append.mp hr with hr | hr
      · exact hs.readErrors r hr hshort
      · obtain rfl := List.mem_singleton.mp hr
        exact readObject_error hshort
    · rw [hu]
      intro r hr ho v
      rcases List.mem_append.mp hr with hr | hr
      · exact hs.values r hr ho v
      · obtain rfl := List.mem_singleton.mp hr
        have ho : o = .transfers PodType.ssizeT.size := ho
        obtain ⟨h0, hobj, -⟩ := hconveys ho
        refine (hvalue ho).mpr ⟨h0, ?_⟩ v
        rw [ho]
        exact hobj
    · rw [hwritten]
      by_cases ho : o = .transfers PodType.ssizeT.size
      · obtain ⟨h0, -, hnext⟩ := hconveys ho
        rw [hcomplete ho h0, List.map_append, List.map_singleton, concat_prefix_iff,
          List.length_map]
        exact ⟨hs.inOrder, hnext⟩
      · rw [hshort ho]
        exact hs.inOrder

/-- A step keeps the round trip exactly if it conveys its value. -/
theorem roundTrip_step_iff {l : TypedPipeStep} (hs : RoundTrip rep s)
    (h : typedPipeStep p s l = some u) : RoundTrip rep u ↔ ConveysValue rep s l := by
  cases l with
  | write obj o => exact roundTrip_write_iff hs h
  | read t o => exact roundTrip_read_iff hs h
  | other errno =>
    obtain rfl := Option.some.inj h
    exact ⟨fun _ => trivial,
      fun _ => ⟨hs.enters, hs.leaves, hs.writeErrors, hs.readErrors, hs.values, hs.inOrder⟩⟩

/-- Nothing has gone through a new pipe. -/
theorem roundTrip_init : RoundTrip rep { errno := errno } := by
  refine ⟨rfl, rfl, ?_, ?_, ?_, List.nil_prefix⟩ <;> intro r hr <;> cases hr

end Steps

/-- The representation of `ssize_t` on a little-endian machine. -/
def littleEndian : SsizeRepresentation where
  object := littleEndianObject
  injective := by
    rintro v w ⟨hv, hv'⟩ ⟨hw, hw'⟩ heq
    have hbound : ∀ x : ℤ, (x % 2 ^ 64).toNat < 256 ^ PodType.ssizeT.size := by
      intro x
      show (x % 2 ^ 64).toNat < 256 ^ 8
      omega
    have hnat := BigEndian.encode_inj (hbound v) (hbound w) (List.reverse_inj.mp heq)
    omega
  surjective := by
    intro bs hlen
    have hlt := BigEndian.decode_lt bs.reverse
    rw [List.length_reverse, hlen] at hlt
    have hlt' : BigEndian.decode bs.reverse < 256 ^ 8 := hlt
    refine ⟨if BigEndian.decode bs.reverse < 2 ^ 63 then BigEndian.decode bs.reverse
      else (BigEndian.decode bs.reverse : ℤ) - 2 ^ 64, ?_, ?_⟩
    · constructor <;> split_ifs <;> omega
    · have hmod : ((if BigEndian.decode bs.reverse < 2 ^ 63 then (BigEndian.decode bs.reverse : ℤ)
          else (BigEndian.decode bs.reverse : ℤ) - 2 ^ 64) % 2 ^ 64).toNat =
          BigEndian.decode bs.reverse := by split_ifs <;> omega
      have henc : BigEndian.encode PodType.ssizeT.size (BigEndian.decode bs.reverse) =
          bs.reverse := by
        have hsame := BigEndian.encode_decode bs.reverse
        rw [List.length_reverse, hlen] at hsame
        exact hsame
      rw [littleEndianObject, hmod, henc, List.reverse_reverse]

/-- **Which values go through a pipe as they are.** In every run of writes of objects and reads of
`ssize_t`, whatever they transfer and whatever other calls leave in `errno`, each value goes through
the pipe as it is all the time if and only if every object that is written points to its own bytes,
and every complete read finds no error in `errno`, and the representation of its own size next in the
pipe, and as the object whose turn it is. -/
theorem roundTrip_throughout_iff (rep : SsizeRepresentation) (p : Pipe) (errno : ℤ)
    {steps : List TypedPipeStep} {u : TypedPipe}
    (h : (typedPipeStep p).run { errno := errno } steps = some u) :
    (typedPipeStep p).Throughout (RoundTrip rep) { errno := errno } steps ↔
      (typedPipeStep p).Along (ConveysValue rep) { errno := errno } steps :=
  Machine.throughout_iff_along (fun _ _ _ hs hl => roundTrip_step_iff hs hl) h roundTrip_init

/-- An array of the bytes of `v` on a little-endian machine. -/
def arrayOf (v : ℤ) : PodObject where
  type := .array 8
  bytes := littleEndianObject v
  target := littleEndianObject v
  length_bytes := by rw [littleEndianObject, List.length_reverse, BigEndian.length_encode]; rfl
  target_array := fun _ _ => rfl

/-- The one value that a read gives back. -/
theorem roundTrip_throughout_iff_eight :
    (typedPipeStep ⟨.ofFd 3, .ofFd 4⟩).Throughout (RoundTrip littleEndian) {}
      [.write (arrayOf 8) (.transfers 8), .read [] (.transfers 8)] := by
  refine (roundTrip_throughout_iff littleEndian _ 0 rfl).mpr ⟨rfl, fun s hs => ?_⟩
  obtain rfl := Option.some.inj hs
  exact ⟨fun _ => ⟨rfl, rfl, rfl⟩, fun _ _ => trivial⟩

/-- The representation of five goes in, and eight comes out. -/
theorem read_returns_count :
    ∃ s, (typedPipeStep ⟨.ofFd 3, .ofFd 4⟩).run {}
        [.write (arrayOf 5) (.transfers 8), .read [] (.transfers 8)] = some s ∧
      s.entered = littleEndianObject 5 ∧ (s.reads.map fun r => r.result) = [.ok 8] ∧
      ¬ RoundTrip littleEndian s := by
  refine ⟨_, rfl, rfl, rfl, fun h => ?_⟩
  have hvalue := h.values _ List.mem_cons_self rfl 5 ⟨by decide, by decide⟩ rfl
  cases hvalue

end Linuxpp
