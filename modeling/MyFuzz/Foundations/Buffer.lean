import MyFuzz.Foundations.Bytes

/-!
# Foundations/Buffer — a byte buffer read and written at offsets

A number of a fixed width is its bytes, the highest first, and every list of bytes is the bytes of one number.
A buffer is read and written a region at a time:

    region buffer 8 2              the bytes 8 and 9
    overwrite buffer 8 [0, 3]      the same two bytes replaced

A write is read back where it was made, and is not seen by a region apart from it.
-/

namespace Bytes

/-! ## Numbers, the highest byte first -/

/-- The bytes of a number, the highest first. -/
def beBytes (width value : ℕ) : List UInt8 := (leBytes width value).reverse

/-- The number of bytes, the highest first. -/
def readBe (bytes : List UInt8) : ℕ := readLe bytes.reverse

@[simp] theorem length_beBytes (width value : ℕ) : (beBytes width value).length = width := by
  rw [beBytes, List.length_reverse, length_leBytes]

/-- **A number that fits is read back.** -/
theorem readBe_beBytes {width value : ℕ} (h : value < 256 ^ width) :
    readBe (beBytes width value) = value := by
  rw [readBe, beBytes, List.reverse_reverse, readLe_leBytes h]

theorem readBe_lt (bytes : List UInt8) : readBe bytes < 256 ^ bytes.length := by
  rw [readBe, ← List.length_reverse]
  exact readLe_lt _

theorem leBytes_readLe : ∀ bytes : List UInt8, leBytes bytes.length (readLe bytes) = bytes
  | [] => rfl
  | b :: rest => by
      have hb := b.toNat_lt
      have hlow : UInt8.ofNat (b.toNat + 256 * readLe rest) = b := by
        apply UInt8.toNat_inj.1
        rw [UInt8.toNat_ofNat']
        omega
      have hhigh : (b.toNat + 256 * readLe rest) / 256 = readLe rest := by omega
      rw [List.length_cons, readLe, leBytes, hlow, hhigh, leBytes_readLe rest]

/-- **Bytes are the bytes of the number they are read as.** -/
theorem beBytes_readBe (bytes : List UInt8) : beBytes bytes.length (readBe bytes) = bytes := by
  rw [beBytes, readBe, ← bytes.length_reverse, leBytes_readLe, List.reverse_reverse]

theorem beBytes_readBe_of_length {bytes : List UInt8} {width : ℕ} (h : bytes.length = width) :
    beBytes width (readBe bytes) = bytes := by
  rw [← h, beBytes_readBe]

end Bytes

namespace Buffer

variable {α : Type} {buffer piece rest : List α} {offset size start : ℕ}

/-! ## Regions -/

/-- The items from an offset on, so many of them. -/
def region (buffer : List α) (offset size : ℕ) : List α := (buffer.drop offset).take size

theorem length_region (h : offset + size ≤ buffer.length) : (region buffer offset size).length = size := by
  rw [region, List.length_take, List.length_drop]
  omega

theorem getElem?_region (buffer : List α) (offset size i : ℕ) :
    (region buffer offset size)[i]? = if i < size then buffer[offset + i]? else none := by
  rw [region, List.getElem?_take]
  split_ifs with hi
  · rw [List.getElem?_drop]
  · rfl

/-- A region at the front of the rest. -/
theorem region_eq_of_drop (h : buffer.drop offset = piece ++ rest) (hsize : piece.length = size) :
    region buffer offset size = piece := by
  rw [region, h, List.take_left' hsize]

/-- The rest begins with its first region. -/
theorem region_append_drop (buffer : List α) (offset size : ℕ) :
    region buffer offset size ++ buffer.drop (offset + size) = buffer.drop offset := by
  rw [region, ← List.drop_drop, List.take_append_drop]

theorem drop_add_of_drop (h : buffer.drop offset = piece ++ rest) (hsize : piece.length = size) :
    buffer.drop (offset + size) = rest := by
  rw [← List.drop_drop, h, List.drop_left' hsize]

/-- A rest that begins with some items is that long. -/
theorem add_length_le_of_drop (hoffset : offset ≤ buffer.length) (h : buffer.drop offset = piece ++ rest) :
    offset + piece.length ≤ buffer.length := by
  have hlength := congrArg List.length h
  rw [List.length_drop, List.length_append] at hlength
  omega

/-- The two parts of a region. -/
theorem region_append {more : List α}
    (h : region buffer offset (piece.length + more.length) = piece ++ more) :
    region buffer offset piece.length = piece ∧ region buffer (offset + piece.length) more.length = more := by
  constructor
  · have htake := congrArg (List.take piece.length) h
    rwa [region, List.take_take, Nat.min_eq_left (Nat.le_add_right _ _), List.take_left' rfl] at htake
  · have hdrop := congrArg (List.drop piece.length) h
    rwa [region, List.drop_take, List.drop_drop, Nat.add_sub_cancel_left, List.drop_left' rfl] at hdrop

/-! ## Writing -/

/-- A buffer with the items from an offset on replaced. -/
def overwrite (buffer : List α) (offset : ℕ) (piece : List α) : List α :=
  buffer.take offset ++ piece ++ buffer.drop (offset + piece.length)

section

variable (h : offset + piece.length ≤ buffer.length)

include h

theorem length_overwrite :
    (overwrite buffer offset piece).length = buffer.length := by
  rw [overwrite, List.length_append, List.length_append, List.length_take, List.length_drop]
  omega

theorem getElem?_overwrite (i : ℕ) :
    (overwrite buffer offset piece)[i]? =
      if offset ≤ i ∧ i < offset + piece.length then piece[i - offset]? else buffer[i]? := by
  have htake : (buffer.take offset).length = offset := by
    rw [List.length_take]
    omega
  rw [overwrite, List.append_assoc]
  by_cases hlow : i < offset
  · rw [List.getElem?_append_left (by omega), if_neg (by omega), List.getElem?_take, if_pos hlow]
  · rw [List.getElem?_append_right (by omega), htake]
    by_cases hhigh : i < offset + piece.length
    · rw [List.getElem?_append_left (by omega), if_pos ⟨by omega, hhigh⟩]
    · rw [List.getElem?_append_right (by omega), if_neg (by omega), List.getElem?_drop]
      congr 1
      omega

/-- **A write is read back.** -/
theorem region_overwrite_self :
    region (overwrite buffer offset piece) offset piece.length = piece := by
  refine List.ext_getElem? fun i => ?_
  rw [getElem?_region]
  split_ifs with hi
  · rw [getElem?_overwrite h, if_pos ⟨by omega, by omega⟩, Nat.add_sub_cancel_left]
  · exact (List.getElem?_eq_none (by omega)).symm

/-- **A region apart from a write does not see it.** -/
theorem region_overwrite_of_apart (hapart : start + size ≤ offset ∨ offset + piece.length ≤ start) :
    region (overwrite buffer offset piece) start size = region buffer start size := by
  refine List.ext_getElem? fun i => ?_
  rw [getElem?_region, getElem?_region]
  split_ifs with hi
  · rw [getElem?_overwrite h, if_neg (by omega)]
  · rfl

end

/-- Two writes, the second where the first one ends. -/
theorem overwrite_overwrite_append {more : List α} (h : offset + piece.length + more.length ≤ buffer.length) :
    overwrite (overwrite buffer offset piece) (offset + piece.length) more =
      overwrite buffer offset (piece ++ more) := by
  have hfirst : offset + piece.length ≤ buffer.length := by omega
  refine List.ext_getElem? fun i => ?_
  rw [getElem?_overwrite (by rw [length_overwrite hfirst]; exact h), getElem?_overwrite hfirst,
    getElem?_overwrite (by rw [List.length_append]; omega), List.length_append]
  by_cases hlow : i < offset + piece.length
  · rw [if_neg (by omega)]
    split_ifs with hin hout hout
    · rw [List.getElem?_append_left (by omega)]
    · omega
    · omega
    · rfl
  · rw [if_neg (c := offset ≤ i ∧ i < offset + piece.length) (by omega)]
    split_ifs with hin hout hout
    · rw [List.getElem?_append_right (by omega)]
      congr 1
      omega
    · omega
    · omega
    · rfl

/-! ## Many writes -/

/-- A buffer after some writes, each an offset and what is written there. -/
def overwriteAll (buffer : List α) (writes : List (ℕ × List α)) : List α :=
  writes.foldl (fun buffer write => overwrite buffer write.1 write.2) buffer

/-- A write that ends within so many items. -/
def FitsIn (length : ℕ) (write : ℕ × List α) : Prop := write.1 + write.2.length ≤ length

/-- Two writes that share no place. -/
def Apart (write other : ℕ × List α) : Prop :=
  write.1 + write.2.length ≤ other.1 ∨ other.1 + other.2.length ≤ write.1

theorem overwriteAll_cons (buffer : List α) (write : ℕ × List α) (writes : List (ℕ × List α)) :
    overwriteAll buffer (write :: writes) = overwriteAll (overwrite buffer write.1 write.2) writes := rfl

theorem length_overwriteAll : ∀ {writes : List (ℕ × List α)} {buffer : List α},
    (∀ write ∈ writes, FitsIn buffer.length write) → (overwriteAll buffer writes).length = buffer.length
  | [], _, _ => rfl
  | write :: writes, buffer, h => by
      obtain ⟨hwrite, hwrites⟩ := List.forall_mem_cons.1 h
      have hlength := length_overwrite hwrite
      rw [overwriteAll_cons, length_overwriteAll (by rw [hlength]; exact hwrites), hlength]

/-- **A region apart from every write does not see them.** -/
theorem region_overwriteAll_of_apart : ∀ {writes : List (ℕ × List α)} {buffer : List α},
    (∀ write ∈ writes, FitsIn buffer.length write) →
      (∀ write ∈ writes, start + size ≤ write.1 ∨ write.1 + write.2.length ≤ start) →
        region (overwriteAll buffer writes) start size = region buffer start size
  | [], _, _, _ => rfl
  | write :: writes, buffer, h, hapart => by
      obtain ⟨hwrite, hwrites⟩ := List.forall_mem_cons.1 h
      obtain ⟨hfirst, hrest⟩ := List.forall_mem_cons.1 hapart
      rw [overwriteAll_cons, region_overwriteAll_of_apart
        (by rw [length_overwrite hwrite]; exact hwrites) hrest,
        region_overwrite_of_apart hwrite hfirst]

/-- **Every one of some writes that are apart is read back.** -/
theorem region_overwriteAll : ∀ {writes : List (ℕ × List α)} {buffer : List α},
    (∀ write ∈ writes, FitsIn buffer.length write) → writes.Pairwise Apart → ∀ write ∈ writes,
      region (overwriteAll buffer writes) write.1 write.2.length = write.2
  | [], _, _, _, _, h => nomatch h
  | first :: writes, buffer, h, hapart, write, hmem => by
      obtain ⟨hfirst, hwrites⟩ := List.forall_mem_cons.1 h
      obtain ⟨hhead, htail⟩ := List.pairwise_cons.1 hapart
      have hlength := length_overwrite hfirst
      rw [← hlength] at hwrites
      rw [overwriteAll_cons]
      rcases List.mem_cons.1 hmem with rfl | hmem
      · rw [region_overwriteAll_of_apart hwrites hhead, region_overwrite_self hfirst]
      · exact region_overwriteAll hwrites htail write hmem

end Buffer
