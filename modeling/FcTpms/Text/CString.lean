import Mathlib.Data.List.TakeWhile

/-!
# Strings in character arrays

A character array holds the text before its first NUL. Writing characters one after the other
from the end of that text on, and a NUL after them, appends them to the text, provided that the
array has room.
-/

namespace FcTpms.Text

/-- The string that a character array holds: its characters before the first NUL. -/
def stringOf (array : List Char) : List Char := array.takeWhile (· ≠ '\x00')

/-- `strlen`. -/
def strlen (array : List Char) : ℕ := (stringOf array).length

/-- Characters written one after the other from an index on. -/
def overwrite (array : List Char) : ℕ → List Char → List Char
  | _, [] => array
  | index, char :: rest => overwrite (array.set index char) (index + 1) rest

@[simp] theorem overwrite_length (array : List Char) (index : ℕ) (text : List Char) :
    (overwrite array index text).length = array.length := by
  induction text generalizing array index with
  | nil => rfl
  | cons char rest ih => rw [overwrite, ih, List.length_set]

/-- Writing leaves what stands before it and adds what is written. -/
theorem take_overwrite (array : List Char) (index : ℕ) (text : List Char)
    (room : index + text.length ≤ array.length) :
    (overwrite array index text).take (index + text.length) = array.take index ++ text := by
  induction text generalizing array index with
  | nil => simp [overwrite]
  | cons char rest ih =>
    have inside : index < array.length := by
      rw [List.length_cons] at room
      omega
    have next := ih (array.set index char) (index + 1) (by
      rw [List.length_cons] at room
      rw [List.length_set]
      omega)
    have count : index + (char :: rest).length = index + 1 + rest.length := by
      rw [List.length_cons]
      omega
    have written : (array.set index char).take (index + 1) = array.take index ++ [char] := by
      rw [List.take_succ_eq_append_getElem (by rw [List.length_set]; exact inside),
        List.getElem_set_self, List.take_set_of_le (Nat.le_refl index)]
    rw [overwrite, count, next, written, List.append_assoc, List.singleton_append]

/-- An array that begins with a text without NUL and a NUL holds that text. -/
theorem stringOf_eq_of_take {array text : List Char} (clean : '\x00' ∉ text)
    (ends : array.take (text.length + 1) = text ++ ['\x00']) : stringOf array = text := by
  have whole : array = text ++ '\x00' :: array.drop (text.length + 1) := by
    rw [← List.take_append_drop (text.length + 1) array, ends]
    simp
  have kept : ∀ char ∈ text, decide (char ≠ '\x00') = true := by
    intro char member
    rw [decide_eq_true_eq]
    exact fun same => clean (same ▸ member)
  rw [stringOf, whole, List.takeWhile_append_of_pos kept]
  simp

/-- The string of an array is its beginning. -/
theorem take_strlen (array : List Char) : array.take (strlen array) = stringOf array :=
  (List.prefix_iff_eq_take.mp (List.takeWhile_prefix _)).symm

/-- No string contains a NUL. -/
theorem nul_notMem_stringOf (array : List Char) : '\x00' ∉ stringOf array := by
  intro member
  have kept := List.mem_takeWhile_imp member
  simp at kept

/-- Writing a text after the string of an array, with a NUL, appends it to the string. -/
theorem stringOf_append (array text : List Char) (clean : '\x00' ∉ text)
    (room : strlen array + text.length < array.length) :
    stringOf (overwrite array (strlen array) (text ++ ['\x00'])) = stringOf array ++ text := by
  have joined : '\x00' ∉ stringOf array ++ text := by
    rw [List.mem_append]
    exact fun either => either.elim (nul_notMem_stringOf array) clean
  have written := take_overwrite array (strlen array) (text ++ ['\x00']) (by
    rw [List.length_append, List.length_singleton]
    omega)
  rw [take_strlen, ← List.append_assoc] at written
  apply stringOf_eq_of_take joined
  rw [← written, strlen]
  simp only [List.length_append, List.length_singleton, Nat.add_assoc]

/-- Writing a text over the beginning of an array, with a NUL, makes it the string. -/
theorem stringOf_copy (array text : List Char) (clean : '\x00' ∉ text)
    (room : text.length < array.length) :
    stringOf (overwrite array 0 (text ++ ['\x00'])) = text := by
  have written := take_overwrite array 0 (text ++ ['\x00']) (by
    rw [List.length_append, List.length_singleton]
    omega)
  apply stringOf_eq_of_take clean
  rw [List.take_zero, List.nil_append, Nat.zero_add, List.length_append,
    List.length_singleton] at written
  exact written

end FcTpms.Text
