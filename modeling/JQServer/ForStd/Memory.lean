import JQServer.ForStd.CString
import Mathlib.Data.List.Basic

/-!
# Byte memory

An allocation is the list of its bytes. `Memory.write` fails when it would leave the
allocation, so that a sequence of writes that succeeds stayed inside. The lemmas say
what a later read finds: what was written, and elsewhere what was there before.
-/

namespace Memory

variable {mem mem' bs : List UInt8} {off : Nat}

/-- The `k` bytes at an offset, fewer at the end of the memory. -/
def read (mem : List UInt8) (off k : Nat) : List UInt8 := (mem.drop off).take k

/-- Storing bytes at an offset. -/
def write (mem : List UInt8) (off : Nat) (bs : List UInt8) : Option (List UInt8) :=
  if off + bs.length ≤ mem.length then
    some (mem.take off ++ bs ++ mem.drop (off + bs.length))
  else none

/-- A write inside the memory succeeds. -/
theorem exists_write (h : off + bs.length ≤ mem.length) : ∃ mem', write mem off bs = some mem' :=
  ⟨_, if_pos h⟩

/-- The bytes after a write. -/
theorem getElem?_write (h : write mem off bs = some mem') (i : Nat) :
    mem'[i]? = if off ≤ i ∧ i < off + bs.length then bs[i - off]? else mem[i]? := by
  unfold write at h
  split at h
  · rename_i hle
    obtain rfl := Option.some.inj h
    have htake : (mem.take off).length = off := by rw [List.length_take]; omega
    by_cases hlo : i < off
    · rw [if_neg (by omega), List.append_assoc, List.getElem?_append_left (by omega),
        List.getElem?_take_of_lt hlo]
    · by_cases hhi : i < off + bs.length
      · rw [if_pos ⟨by omega, hhi⟩, List.append_assoc, List.getElem?_append_right (by omega),
          htake, List.getElem?_append_left (by omega)]
      · rw [if_neg (by omega), List.getElem?_append_right (by simp [htake]; omega),
          List.getElem?_drop]
        congr 1
        rw [List.length_append, htake]
        omega
  · cases h

/-- A write keeps the size. -/
theorem length_write (h : write mem off bs = some mem') : mem'.length = mem.length := by
  unfold write at h
  split at h
  · obtain rfl := Option.some.inj h
    simp only [List.length_append, List.length_take, List.length_drop]
    omega
  · cases h

/-- A read finds what was written. -/
theorem read_write (h : write mem off bs = some mem') : read mem' off bs.length = bs := by
  refine List.ext_getElem? fun i => ?_
  by_cases hi : i < bs.length
  · rw [read, List.getElem?_take_of_lt hi, List.getElem?_drop, getElem?_write h,
      if_pos ⟨Nat.le_add_right _ _, by omega⟩, Nat.add_sub_cancel_left]
  · have hlen : (read mem' off bs.length).length ≤ bs.length := List.length_take_le _ _
    rw [List.getElem?_eq_none (by omega), List.getElem?_eq_none (by omega)]

/-- A read elsewhere finds what was there. -/
theorem read_write_of_disjoint {off' k : Nat} (h : write mem off bs = some mem')
    (hd : off' + k ≤ off ∨ off + bs.length ≤ off') : read mem' off' k = read mem off' k := by
  refine List.ext_getElem? fun i => ?_
  by_cases hi : i < k
  · rw [read, read, List.getElem?_take_of_lt hi, List.getElem?_take_of_lt hi, List.getElem?_drop,
      List.getElem?_drop, getElem?_write h, if_neg (by omega)]
  · have hlen : ∀ m : List UInt8, (read m off' k).length ≤ k := fun m => List.length_take_le _ _
    have h1 := hlen mem
    have h2 := hlen mem'
    rw [List.getElem?_eq_none (by omega), List.getElem?_eq_none (by omega)]

/-- A write inside the memory succeeds, and leaves everything else alone. -/
theorem exists_write_read (mem : List UInt8) (off : Nat) (bs : List UInt8)
    (h : off + bs.length ≤ mem.length) :
    ∃ mem', write mem off bs = some mem' ∧ mem'.length = mem.length ∧
      read mem' off bs.length = bs ∧
      ∀ off' k, off' + k ≤ off ∨ off + bs.length ≤ off' →
        read mem' off' k = read mem off' k := by
  obtain ⟨mem', hw⟩ := exists_write h
  exact ⟨mem', hw, length_write hw, read_write hw, fun _ _ => read_write_of_disjoint hw⟩

/-- A read of more bytes starts with a read of fewer. -/
theorem read_append_drop {k n : Nat} (h : n ≤ k) :
    read mem off k = read mem off n ++ (read mem off k).drop n := by
  have htake : read mem off n = (read mem off k).take n := by
    rw [read, read, List.take_take, Nat.min_eq_left h]
  rw [htake, List.take_append_drop]

/-- A string that was stored with its NUL is found by reading the field it is in. -/
theorem str_read {s : List UInt8} {k : Nat} (h : read mem off (s.length + 1) = s ++ [0])
    (h0 : 0 ∉ s) (hk : s.length < k) : CString.str (read mem off k) = s := by
  rw [read_append_drop (show s.length + 1 ≤ k from hk), h, List.append_assoc]
  exact CString.str_append_zero h0 _

end Memory
