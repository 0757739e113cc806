import Linuxpp.Foundations.BigEndian

/-!
# `struct iovec`

An entry points either to the `length_` member of a message object, or to a region of memory given
by its bytes. What it denotes depends on what the `length_` members hold, `network_byte_order`
being the type of these members.
-/

namespace Linuxpp

/-- The identity of a message object. -/
abbrev ObjectId := ℕ

/-- `ndgpp::network_byte_order<T>` for an unsigned `T` of `size` bytes: the bytes of the object that
holds a value of `T` are the value in network byte order. -/
structure NetworkByteOrder (size : ℕ) where
  size_pos : 0 < size
  object : ℕ → List UInt8
  object_eq : ∀ v < 256 ^ size, object v = BigEndian.encode size v

/-- Where an entry points to. -/
inductive IovBase where
  | lengthOf (object : ObjectId)
  | region (bytes : List UInt8)
deriving DecidableEq, Repr

/-- `struct iovec`, value-initialised by default. -/
structure Iovec where
  iovBase : IovBase := .region []
  iovLen : ℕ := 0
deriving DecidableEq, Repr

/-- The bytes that the entry describes when the `length_` members hold `lengths`. -/
def Iovec.bytes {size : ℕ} (nbo : NetworkByteOrder size) (lengths : ObjectId → ℕ) (v : Iovec) :
    List UInt8 :=
  match v.iovBase with
  | .lengthOf o => (nbo.object (lengths o)).take v.iovLen
  | .region bytes => bytes.take v.iovLen

/-- `make_iovec_const` of a pointer to `elements` objects of `size` bytes each. -/
def makeIovecConst (base : IovBase) (size elements : ℕ) : Iovec := ⟨base, size * elements⟩

/-- `make_iovec_const` of a pointer to `void`. -/
def makeIovecConstVoid (base : IovBase) (size : ℕ) : Iovec := ⟨base, size⟩

/-- The caller's entry for a region. -/
def Iovec.ofRegion (bytes : List UInt8) : Iovec := ⟨.region bytes, bytes.length⟩

/-- `accumulate`. The start value `0U` makes the accumulator of `std::accumulate` an `unsigned int`,
to which every sum of `std::size_t` is converted. -/
def accumulate (entries : List Iovec) : ℕ :=
  entries.foldl (fun val iovec => (val + iovec.iovLen) % 2 ^ 64 % 2 ^ 32) 0

/-- The number of bytes that the entries describe. -/
def totalLength (entries : List Iovec) : ℕ := (entries.map Iovec.iovLen).sum

/-- `accumulate` of the range is its total; of any two parts of it, it is the sum of theirs; and it
is the same for every other range with that total. -/
structure AccumulateExact (entries : List Iovec) : Prop where
  total : accumulate entries = totalLength entries
  parts : ∀ front back, entries = front ++ back →
    accumulate entries = accumulate front + accumulate back
  splits : ∀ others, totalLength others = totalLength entries →
    accumulate others = accumulate entries

/-- `std::copy` of `src` to the position `k` of `dst`. -/
def copyTo {α : Type} (src dst : List α) (k : ℕ) : List α :=
  dst.take k ++ src ++ dst.drop (k + src.length)

/-- `resize` of a vector to `n` elements. -/
def resize {α : Type} (xs : List α) (n : ℕ) (value : α) : List α :=
  xs.take n ++ List.replicate (n - xs.length) value

end Linuxpp
