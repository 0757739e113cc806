import Linuxpp.Message.MessageObjects
import Linuxpp.Message.Proofs.LengthPrefixedMessageProofs

/-!
# Proofs: which operations keep the headers

An entry for a length points to the object that it was made for. Copies, moves and swaps take it
along, so that they keep the headers only if there is nothing to take along. Every object is filled
for itself, so that sending does not depend on where the object has been.
-/

namespace Linuxpp

open LengthPrefixedMessage

variable {size : ℕ} {s u : MessageStore} {o src a b : ObjectId} {obj : MessageObject}

section Store

/-- The first entry of the object, if it has one, points to the length of the object `o`. -/
def OwnHeader (size : ℕ) (o : ObjectId) (obj : MessageObject) : Prop :=
  ∀ v ∈ obj.msg.iovec.head?, v = lengthIovec size o

/-- All objects have their own headers. -/
def OwnHeaders (size : ℕ) (s : MessageStore) : Prop :=
  ∀ o obj, s.objects o = some obj → OwnHeader size o obj

/-- Every object knows its identity. -/
def KnowThis (s : MessageStore) : Prop := ∀ o obj, s.objects o = some obj → obj.msg.this = o

theorem objects_set (x : Option MessageObject) (k : ObjectId) :
    (s.set o x).objects k = if k = o then x else s.objects k :=
  Function.update_apply s.objects o x k

theorem objects_set_self (x : Option MessageObject) : (s.set o x).objects o = x := by
  rw [objects_set, if_pos rfl]

theorem objects_set_of_ne (x : Option MessageObject) {k : ObjectId} (h : k ≠ o) :
    (s.set o x).objects k = s.objects k := by
  rw [objects_set, if_neg h]

@[simp] theorem sends_set (x : Option MessageObject) : (s.set o x).sends = s.sends := rfl

/-- What all objects have is kept if the new object has it. -/
theorem forall_objects_set {P : ObjectId → MessageObject → Prop}
    (hs : ∀ o obj, s.objects o = some obj → P o obj) (hx : P o obj) :
    ∀ k x, (s.set o (some obj)).objects k = some x → P k x := by
  intro k x hk
  rw [objects_set] at hk
  by_cases hko : k = o
  · rw [if_pos hko] at hk
    cases hk
    rw [hko]
    exact hx
  · rw [if_neg hko] at hk
    exact hs k x hk

theorem forall_objects_destroy {P : ObjectId → MessageObject → Prop}
    (hs : ∀ o obj, s.objects o = some obj → P o obj) :
    ∀ k x, (s.set o none).objects k = some x → P k x := by
  intro k x hk
  rw [objects_set] at hk
  by_cases hko : k = o
  · rw [if_pos hko] at hk
    cases hk
  · rw [if_neg hko] at hk
    exact hs k x hk

theorem iovec_of_objects (h : s.objects o = some obj) : s.iovec o = obj.msg.iovec := by
  unfold MessageStore.iovec
  rw [h]
  rfl

theorem exists_of_kind {kind : MessageKind} (h : s.kind? o = some kind) :
    ∃ obj, s.objects o = some obj ∧ obj.kind = kind :=
  Option.map_eq_some_iff.mp h

theorem exists_of_kind_ne_none (h : s.kind? o ≠ none) : ∃ obj, s.objects o = some obj := by
  obtain ⟨kind, hkind⟩ := Option.ne_none_iff_exists'.mp h
  obtain ⟨obj, hobj, -⟩ := exists_of_kind hkind
  exact ⟨obj, hobj⟩

theorem copy_of_objects (h : s.objects src = some obj) :
    s.copy o src = s.set o (some (obj.into o)) := by
  unfold MessageStore.copy
  rw [h]

theorem move_of_objects (h : s.objects src = some obj) :
    s.move o src = (s.set o (some (obj.into o))).set src (some obj.movedFrom) := by
  unfold MessageStore.move
  rw [h]

theorem refill_of_objects (h : s.objects o = some obj) (buffers : List Iovec) :
    s.refill size o buffers =
      s.set o (some { obj with msg := obj.msg.fill size buffers }) := by
  unfold MessageStore.refill
  rw [h]

end Store

section Objects

theorem lengthIovec_inj {p q : ObjectId} (h : lengthIovec size p = lengthIovec size q) : p = q :=
  IovBase.lengthOf.inj (congrArg Iovec.iovBase h)

/-- An object without entries has no header that could be another one's. -/
theorem ownHeader_of_nil (h : obj.msg.iovec = []) : OwnHeader size o obj := by
  intro v hv
  rw [h] at hv
  cases hv

theorem ownHeader_of_cons {rest : List Iovec} (h : obj.msg.iovec = lengthIovec size o :: rest) :
    OwnHeader size o obj := by
  intro v hv
  rw [h] at hv
  exact (Option.some.inj hv).symm

/-- Taken into another object, the entries point to where they came from. -/
theorem ownHeader_into_iff (h : OwnHeader size src obj) (hne : o ≠ src) :
    OwnHeader size o (obj.into o) ↔ obj.msg.iovec = [] := by
  constructor
  · intro hinto
    cases hiovec : obj.msg.iovec with
    | nil => rfl
    | cons v rest =>
      have hhead : v ∈ obj.msg.iovec.head? := by rw [hiovec]; rfl
      exact absurd (lengthIovec_inj ((hinto v hhead).symm.trans (h v hhead))) hne
  · intro hnil
    exact ownHeader_of_nil hnil

/-- An object into which its own members are taken is unchanged. -/
theorem into_self (h : obj.msg.this = o) : obj.into o = obj := by
  subst h
  rfl

theorem this_movedFrom : obj.movedFrom.msg.this = obj.msg.this := by
  unfold MessageObject.movedFrom
  cases obj.kind <;> rfl

theorem ownHeader_movedFrom (h : OwnHeader size o obj) : OwnHeader size o obj.movedFrom := by
  unfold MessageObject.movedFrom
  cases obj.kind with
  | buffer => exact h
  | vector => exact ownHeader_of_nil rfl
  | socketMember => exact ownHeader_of_nil rfl

/-- A filled object has the header that it is filled with. -/
theorem ownHeader_fill (hthis : obj.msg.this = o) (buffers : List Iovec) :
    OwnHeader size o { obj with msg := obj.msg.fill size buffers } := by
  have hiovec : (obj.msg.fill size buffers).iovec = _ := iovec_fill obj.msg buffers
  rw [hthis] at hiovec
  exact ownHeader_of_cons hiovec

end Objects

section Transfers

variable {A B : MessageObject}

theorem objects_swap_of_ne (hA : s.objects a = some A) (hB : s.objects b = some B) (hne : a ≠ b) :
    s.swap a b = (((s.set a (some A.movedFrom)).set a (some (B.into a))).set b
      (some B.movedFrom)).set b (some (A.into b)) := by
  have hB' : (s.set a (some A.movedFrom)).objects b = some B := by
    rw [objects_set_of_ne _ hne.symm, hB]
  unfold MessageStore.swap
  rw [hA]
  dsimp only
  rw [move_of_objects hB']

theorem swap_self (hA : s.objects a = some A) :
    s.swap a a = ((s.set a (some A.movedFrom)).move a a).set a (some (A.into a)) := by
  unfold MessageStore.swap
  rw [hA]

section Headers

variable (hs : OwnHeaders size s) (hthis : KnowThis s)

include hs hthis

/-- A copy keeps the headers if there are no entries to copy into another object. -/
theorem ownHeaders_copy_iff (h : s.objects src = some obj) :
    OwnHeaders size (s.copy o src) ↔ s.iovec src = [] ∨ o = src := by
  rw [copy_of_objects h, iovec_of_objects h]
  by_cases hsame : o = src
  · subst hsame
    rw [into_self (hthis o obj h)]
    exact ⟨fun _ => Or.inr rfl, fun _ => forall_objects_set hs (hs o obj h)⟩
  · constructor
    · intro hown
      exact Or.inl ((ownHeader_into_iff (hs src obj h) hsame).mp (hown o _ (objects_set_self _)))
    · intro hnil
      exact forall_objects_set hs (ownHeader_of_nil (hnil.resolve_right hsame))

/-- So does a move. -/
theorem ownHeaders_move_iff (h : s.objects src = some obj) :
    OwnHeaders size (s.move o src) ↔ s.iovec src = [] ∨ o = src := by
  have hmoved : OwnHeader size src obj.movedFrom := ownHeader_movedFrom (hs src obj h)
  rw [move_of_objects h, iovec_of_objects h]
  by_cases hsame : o = src
  · subst hsame
    rw [into_self (hthis o obj h)]
    have hfirst := forall_objects_set hs (hs o obj h)
    exact ⟨fun _ => Or.inr rfl, fun _ => forall_objects_set hfirst hmoved⟩
  · constructor
    · intro hown
      have hat : ((s.set o (some (obj.into o))).set src (some obj.movedFrom)).objects o =
          some (obj.into o) := by
        rw [objects_set_of_ne _ hsame, objects_set_self]
      exact Or.inl ((ownHeader_into_iff (hs src obj h) hsame).mp (hown o _ hat))
    · intro hnil
      have hinto : OwnHeader size o (obj.into o) := ownHeader_of_nil (hnil.resolve_right hsame)
      exact forall_objects_set (forall_objects_set hs hinto) hmoved

/-- And a swap, for both of its objects. -/
theorem ownHeaders_swap_iff (hA : s.objects a = some A) (hB : s.objects b = some B) :
    OwnHeaders size (s.swap a b) ↔ (s.iovec a = [] ∧ s.iovec b = []) ∨ a = b := by
  have hmovedA : OwnHeaders size (s.set a (some A.movedFrom)) :=
    forall_objects_set hs (ownHeader_movedFrom (hs a A hA))
  by_cases hsame : a = b
  · subst hsame
    have hthisA : KnowThis (s.set a (some A.movedFrom)) :=
      forall_objects_set hthis (this_movedFrom.trans (hthis a A hA))
    have hmove : OwnHeaders size ((s.set a (some A.movedFrom)).move a a) :=
      (ownHeaders_move_iff hmovedA hthisA (objects_set_self _)).mpr (Or.inr rfl)
    rw [swap_self hA, into_self (hthis a A hA)]
    exact ⟨fun _ => Or.inr rfl, fun _ => forall_objects_set hmove (hs a A hA)⟩
  · rw [objects_swap_of_ne hA hB hsame, iovec_of_objects hA, iovec_of_objects hB]
    constructor
    · intro hown
      have hat : ((((s.set a (some A.movedFrom)).set a (some (B.into a))).set b
          (some B.movedFrom)).set b (some (A.into b))).objects a = some (B.into a) := by
        rw [objects_set_of_ne _ hsame, objects_set_of_ne _ hsame, objects_set_self]
      have hnilA := (ownHeader_into_iff (hs a A hA) (Ne.symm hsame)).mp
        (hown b _ (objects_set_self _))
      have hnilB := (ownHeader_into_iff (hs b B hB) hsame).mp (hown a _ hat)
      exact Or.inl ⟨hnilA, hnilB⟩
    · intro hnil
      obtain ⟨hnilA, hnilB⟩ := hnil.resolve_right hsame
      have hintoA : OwnHeader size a (B.into a) := ownHeader_of_nil hnilB
      have hintoB : OwnHeader size b (A.into b) := ownHeader_of_nil hnilA
      have hmovedB := forall_objects_set (forall_objects_set hmovedA hintoA)
        (ownHeader_movedFrom (hs b B hB))
      exact forall_objects_set hmovedB hintoB

/-- Filling an object always gives it its own header. -/
theorem ownHeaders_refill (h : s.objects o = some obj) (buffers : List Iovec) :
    OwnHeaders size (s.refill size o buffers) := by
  rw [refill_of_objects h]
  exact forall_objects_set hs (ownHeader_fill (hthis o obj h) buffers)

end Headers

section This

variable (hthis : KnowThis s)

include hthis

theorem knowThis_copy (o src : ObjectId) : KnowThis (s.copy o src) := by
  cases h : s.objects src with
  | none =>
    rw [MessageStore.copy, h]
    exact hthis
  | some obj =>
    rw [copy_of_objects h]
    exact forall_objects_set hthis rfl

theorem knowThis_move (o src : ObjectId) : KnowThis (s.move o src) := by
  cases h : s.objects src with
  | none =>
    rw [MessageStore.move, h]
    exact hthis
  | some obj =>
    have hinto : KnowThis (s.set o (some (obj.into o))) := forall_objects_set hthis rfl
    rw [move_of_objects h]
    exact forall_objects_set hinto (this_movedFrom.trans (hthis src obj h))

theorem knowThis_swap (a b : ObjectId) : KnowThis (s.swap a b) := by
  unfold MessageStore.swap
  cases h : s.objects a with
  | none => exact hthis
  | some A =>
    have hmoved : KnowThis (s.set a (some A.movedFrom)) :=
      forall_objects_set hthis (this_movedFrom.trans (hthis a A h))
    exact forall_objects_set (knowThis_move hmoved a b) rfl

theorem knowThis_refill (o : ObjectId) (buffers : List Iovec) :
    KnowThis (s.refill size o buffers) := by
  cases h : s.objects o with
  | none =>
    rw [MessageStore.refill, h]
    exact hthis
  | some obj =>
    rw [refill_of_objects h]
    exact forall_objects_set hthis (hthis o obj h)

/-- Every operation leaves each object with its identity. -/
theorem knowThis_after (l : MessageStep) : KnowThis (s.after size l) := by
  cases l with
  | constructBuffer o buf length => exact forall_objects_set hthis rfl
  | constructVector o buffers => exact forall_objects_set hthis rfl
  | defaultConstruct kind o indeterminate => exact forall_objects_set hthis rfl
  | copyConstruct o src => exact knowThis_copy hthis o src
  | copyAssign o src => exact knowThis_copy hthis o src
  | moveConstruct o src => exact knowThis_move hthis o src
  | moveAssign o src => exact knowThis_move hthis o src
  | fill o buffers => exact knowThis_refill hthis o buffers
  | destroy o => exact forall_objects_destroy hthis
  | swap a b => exact knowThis_swap hthis a b
  | sendBuffer sock this buf => exact hthis
  | sendBuffers sock buffers => exact knowThis_refill hthis sock buffers
  | sendArray sock this indeterminate buffers => exact hthis

end This

end Transfers

section Sends

/-- Every message that was sent went out under its own header. -/
def SentOwn (size : ℕ) (s : MessageStore) : Prop :=
  ∀ h ∈ s.sends, h.first = some (lengthIovec size h.message)

@[simp] theorem sends_copy : (s.copy o src).sends = s.sends := by
  unfold MessageStore.copy
  cases s.objects src <;> rfl

@[simp] theorem sends_move : (s.move o src).sends = s.sends := by
  unfold MessageStore.move
  cases s.objects src <;> rfl

@[simp] theorem sends_swap : (s.swap a b).sends = s.sends := by
  unfold MessageStore.swap
  cases s.objects a with
  | none => rfl
  | some A => exact sends_move

@[simp] theorem sends_refill (buffers : List Iovec) :
    (s.refill size o buffers).sends = s.sends := by
  unfold MessageStore.refill
  cases s.objects o <;> rfl

theorem sentOwn_congr (h : u.sends = s.sends) : SentOwn size u ↔ SentOwn size s := by
  unfold SentOwn
  rw [h]

theorem sentOwn_send_iff (h : SentOwn size s) (entries : List Iovec) :
    SentOwn size (s.send o entries) ↔ entries.head? = some (lengthIovec size o) := by
  constructor
  · intro hsent
    exact hsent _ (List.mem_append_right _ List.mem_cons_self)
  · intro hhead x hx
    rcases List.mem_append.mp hx with hx | hx
    · exact h x hx
    · obtain rfl := List.mem_singleton.mp hx
      exact hhead

/-- The entries of a socket's message after a refill. -/
theorem iovec_refill (hthis : KnowThis s) (h : s.objects o = some obj) (buffers : List Iovec) :
    (s.refill size o buffers).iovec o = lengthIovec size o :: buffers := by
  have hfill : (obj.msg.fill size buffers).iovec = _ := iovec_fill obj.msg buffers
  rw [refill_of_objects h, iovec_of_objects (objects_set_self _), hfill, hthis o obj h]

/-- The message of `send<N>` has its header in front only without buffers. -/
theorem head?_array_iff {indeterminate buffers : List Iovec}
    (hlen : indeterminate.length = buffers.length + 1)
    (hforeign : ∀ v ∈ buffers, v.iovBase ≠ .lengthOf o) :
    (array size o indeterminate buffers).iovec.head? = some (lengthIovec size o) ↔
      buffers = [] := by
  constructor
  · intro hhead
    by_contra hne
    rw [iovec_array_of_ne_nil o hne] at hhead
    obtain ⟨v, vs, rfl⟩ := List.exists_cons_of_ne_nil hne
    have hv : v = lengthIovec size o := Option.some.inj hhead
    exact hforeign v List.mem_cons_self (congrArg Iovec.iovBase hv)
  · rintro rfl
    obtain ⟨v, rfl⟩ := List.length_eq_one_iff.mp hlen
    rfl

end Sends

section Steps

/-- What the entry for a length describes depends on that length alone. -/
theorem bytes_lengthIovec_congr (nbo : NetworkByteOrder size) {lengths lengths' : ObjectId → ℕ}
    (h : lengths o = lengths' o) :
    (lengthIovec size o).bytes nbo lengths = (lengthIovec size o).bytes nbo lengths' := by
  show (nbo.object (lengths o)).take _ = (nbo.object (lengths' o)).take _
  rw [h]

theorem describeOwnHeaders_iff :
    DescribeOwnHeaders size s ↔ OwnHeaders size s ∧ SentOwn size s := by
  constructor
  · intro h
    exact ⟨h.own, h.sent⟩
  · rintro ⟨hown, hsent⟩
    refine ⟨hown, ?_, hsent⟩
    intro o obj hobj v hv nbo lengths lengths' heq
    rw [hown o obj hobj v hv]
    exact bytes_lengthIovec_congr nbo heq

/-- An operation that sends nothing and whose objects have their headers exactly if `P`. -/
theorem describe_iff_of_own {P : Prop} (hs : DescribeOwnHeaders size s)
    (hsends : u.sends = s.sends) (hown : OwnHeaders size u ↔ P) :
    DescribeOwnHeaders size u ↔ P := by
  have hsent : SentOwn size u := (sentOwn_congr hsends).mpr hs.sent
  rw [describeOwnHeaders_iff, hown]
  exact ⟨fun h => h.1, fun h => ⟨h, hsent⟩⟩

/-- An operation that keeps all headers, and sends nothing. -/
theorem describe_of_own (hs : DescribeOwnHeaders size s) (hsends : u.sends = s.sends)
    (hown : OwnHeaders size u) : DescribeOwnHeaders size u ↔ True :=
  describe_iff_of_own hs hsends ⟨fun _ => trivial, fun _ => hown⟩

/-- A message is sent out of a store in which all objects have their headers. -/
theorem describe_send_iff (hs : DescribeOwnHeaders size s) (entries : List Iovec) :
    DescribeOwnHeaders size (s.send o entries) ↔ entries.head? = some (lengthIovec size o) := by
  rw [describeOwnHeaders_iff, sentOwn_send_iff hs.sent]
  exact ⟨fun h => h.2, fun h => ⟨hs.own, h⟩⟩

/-- **Step lemma.** An operation keeps the headers exactly if it takes none into another object. -/
theorem describe_after_iff {l : MessageStep} (hs : DescribeOwnHeaders size s)
    (hthis : KnowThis s) (hp : s.Possible l) :
    DescribeOwnHeaders size (s.after size l) ↔ KeepsHeaders s l := by
  cases l with
  | constructBuffer o buf length =>
    exact describe_of_own hs rfl (forall_objects_set hs.own (ownHeader_of_cons rfl))
  | constructVector o buffers =>
    have hfront : OwnHeader size o ⟨.vector, .vector size o buffers⟩ :=
      ownHeader_of_cons (iovec_vector o buffers)
    exact describe_of_own hs rfl (forall_objects_set hs.own hfront)
  | defaultConstruct kind o indeterminate =>
    exact describe_of_own hs rfl (forall_objects_set hs.own (ownHeader_of_nil rfl))
  | copyConstruct o src =>
    have hkind : s.kind? src ≠ none := by rcases hp.2 with h | h <;> rw [h] <;> simp
    obtain ⟨obj, hobj⟩ := exists_of_kind_ne_none hkind
    exact describe_iff_of_own hs sends_copy (ownHeaders_copy_iff hs.own hthis hobj)
  | moveConstruct o src =>
    obtain ⟨obj, hobj⟩ := exists_of_kind_ne_none hp.2
    exact describe_iff_of_own hs sends_move (ownHeaders_move_iff hs.own hthis hobj)
  | copyAssign o src =>
    have hkind : s.kind? src ≠ none := by rcases hp.2 with h | h <;> rw [h] <;> simp
    obtain ⟨obj, hobj⟩ := exists_of_kind_ne_none hkind
    exact describe_iff_of_own hs sends_copy (ownHeaders_copy_iff hs.own hthis hobj)
  | moveAssign o src =>
    obtain ⟨obj, hobj⟩ := exists_of_kind_ne_none hp.2
    exact describe_iff_of_own hs sends_move (ownHeaders_move_iff hs.own hthis hobj)
  | fill o buffers =>
    obtain ⟨obj, hobj, -⟩ := exists_of_kind hp
    exact describe_of_own hs (sends_refill buffers) (ownHeaders_refill hs.own hthis hobj buffers)
  | destroy o => exact describe_of_own hs rfl (forall_objects_destroy hs.own)
  | swap a b =>
    obtain ⟨A, hA, -⟩ := exists_of_kind hp.1
    obtain ⟨B, hB, -⟩ := exists_of_kind hp.2
    exact describe_iff_of_own hs sends_swap (ownHeaders_swap_iff hs.own hthis hA hB)
  | sendBuffer sock this buf =>
    exact (describe_send_iff hs _).trans ⟨fun _ => trivial, fun _ => rfl⟩
  | sendBuffers sock buffers =>
    obtain ⟨obj, hobj, -⟩ := exists_of_kind hp
    have hrefill : DescribeOwnHeaders size (s.refill size sock buffers) :=
      (describe_of_own hs (sends_refill buffers)
        (ownHeaders_refill hs.own hthis hobj buffers)).mpr trivial
    have hhead : ((s.refill size sock buffers).iovec sock).head? =
        some (lengthIovec size sock) := by
      rw [iovec_refill hthis hobj]
      rfl
    exact (describe_send_iff hrefill _).trans ⟨fun _ => trivial, fun _ => hhead⟩
  | sendArray sock this indeterminate buffers =>
    exact (describe_send_iff hs _).trans (head?_array_iff hp.2.2.1 hp.2.2.2)

theorem messageStep_eq_some {l : MessageStep} :
    messageStep size s l = some u ↔ s.Possible l ∧ s.after size l = u := by
  unfold messageStep
  rw [Option.ite_none_right_eq_some, Option.some.injEq]

theorem describe_init : DescribeOwnHeaders size {} := by
  refine describeOwnHeaders_iff.mpr ⟨?_, ?_⟩
  · intro o obj h
    cases h
  · intro h hh
    cases hh

theorem knowThis_init : KnowThis {} := by
  intro o obj h
  cases h

end Steps

/-- **When messages describe their own headers.** In every run of constructions, copies, moves,
assignments, fills, destructions, swaps and sends, all messages describe their own headers all the
time, and every send transmits the header of its message, if and only if no operation takes entries
into another object, and no array is sent that has a buffer. -/
theorem describeOwnHeaders_throughout_iff (size : ℕ) {steps : List MessageStep} {u : MessageStore}
    (h : (messageStep size).run {} steps = some u) :
    (messageStep size).Throughout (DescribeOwnHeaders size) {} steps ↔
      (messageStep size).Along KeepsHeaders {} steps := by
  refine Machine.throughout_iff_along_of_invariant ?_ ?_ h knowThis_init describe_init
  · intro s l t hthis hl
    obtain ⟨-, rfl⟩ := messageStep_eq_some.mp hl
    exact knowThis_after hthis l
  · intro s l t hthis hs hl
    obtain ⟨hp, rfl⟩ := messageStep_eq_some.mp hl
    exact describe_after_iff hs hthis hp

/-- A socket that is moved before it has sent anything sends under its own header. -/
theorem describeOwnHeaders_throughout_iff_moved_socket :
    (messageStep msgSizeTypeSize).Throughout (DescribeOwnHeaders msgSizeTypeSize) {}
      [.defaultConstruct .socketMember 0 0, .moveConstruct 1 0,
        .sendBuffers 1 [Iovec.ofRegion [97]]] := by
  refine (describeOwnHeaders_throughout_iff msgSizeTypeSize rfl).mpr ⟨trivial, fun s hs => ?_⟩
  obtain rfl := Option.some.inj hs
  exact ⟨Or.inl rfl, fun t _ => ⟨trivial, fun _ _ => trivial⟩⟩

/-- A copy of a vector describes the header of the vector: when that is refilled, the copy describes
another length. -/
theorem copy_describes_original :
    ∃ s, (messageStep msgSizeTypeSize).run {}
        [.constructVector 0 [Iovec.ofRegion [97]], .copyConstruct 1 0] = some s ∧
      (s.iovec 1).head? = some (lengthIovec msgSizeTypeSize 0) ∧
      ¬ DescribeOwnHeaders msgSizeTypeSize s := by
  refine ⟨_, rfl, rfl, fun h => ?_⟩
  have hown := h.own 1 _ rfl _ rfl
  revert hown
  decide

end Linuxpp
