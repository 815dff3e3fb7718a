import Mathlib.Data.List.TakeWhile
import Mathlib.Data.UInt

/-!
# C memory as the source reads it

A pointer to bytes is modelled by the bytes found from it on. The list may go on past the object
the pointer was made for: what lies there is not under the program's control, and a function that
reads too far reads it. Beyond the end of the list memory holds NUL.
-/

namespace WhisperCore

abbrev Bytes := List UInt8

/-- A NUL-terminated string, by its characters. -/
structure CString where
  bytes : Bytes
  noNul : 0 ∉ bytes
deriving DecidableEq

/-- Reads `count` bytes from a pointer, as `memcpy` does. -/
def readBytes (memory : Bytes) (count : Nat) : Bytes :=
  memory.take count ++ List.replicate (count - memory.length) 0

def strlen (memory : Bytes) : Nat := (memory.takeWhile (· ≠ 0)).length

/-- The string that starts at a pointer. -/
def CString.read (memory : Bytes) : CString where
  bytes := memory.takeWhile (· ≠ 0)
  noNul := fun h => by simpa using List.mem_takeWhile_imp h

/-- The string in memory: its characters and the terminator, then whatever follows. -/
def CString.inMemory (string : CString) (rest : Bytes) : Bytes := string.bytes ++ 0 :: rest

theorem CString.inMemory_eq (string : CString) (rest : Bytes) :
    string.inMemory rest = (string.bytes ++ [0]) ++ rest :=
  (List.append_assoc string.bytes [0] rest).symm

def CString.append (first second : CString) : CString where
  bytes := first.bytes ++ second.bytes
  noNul := by
    rw [List.mem_append, not_or]
    exact ⟨first.noNul, second.noNul⟩

def CString.take (string : CString) (count : Nat) : CString where
  bytes := string.bytes.take count
  noNul := fun h => string.noNul (List.mem_of_mem_take h)

/-- `strncmp` finds no difference in the first `count` characters. -/
def strncmpEqual (first second : CString) (count : Nat) : Bool :=
  first.bytes.take count == second.bytes.take count

theorem CString.ext {first second : CString} (h : first.bytes = second.bytes) : first = second := by
  cases first
  cases second
  congr

@[simp]
theorem length_readBytes (memory : Bytes) (count : Nat) :
    (readBytes memory count).length = count := by
  simp only [readBytes, List.length_append, List.length_take, List.length_replicate]
  omega

theorem readBytes_of_le {memory : Bytes} {count : Nat} (h : count ≤ memory.length) :
    readBytes memory count = memory.take count := by
  rw [readBytes, Nat.sub_eq_zero_of_le h, List.replicate_zero, List.append_nil]

/-- A read of an object's bytes does not see what follows the object. -/
theorem readBytes_append (object rest : Bytes) :
    readBytes (object ++ rest) object.length = object := by
  rw [readBytes_of_le (by simp), List.take_left]

@[simp]
theorem readBytes_self (object : Bytes) : readBytes object object.length = object := by
  simpa using readBytes_append object []

/-- A read of at least an object's bytes starts with the object. -/
theorem exists_readBytes_append (object rest : Bytes) {count : Nat} (h : object.length ≤ count) :
    ∃ more, readBytes (object ++ rest) count = object ++ more := by
  refine ⟨rest.take (count - object.length)
    ++ List.replicate (count - (object ++ rest).length) 0, ?_⟩
  rw [readBytes, List.take_append, List.take_of_length_le h, List.append_assoc]

/-- A longer read starts with the shorter one. -/
theorem exists_readBytes_succ (memory : Bytes) (count : Nat) :
    ∃ more, readBytes memory (count + 1) = readBytes memory count ++ more := by
  by_cases hlong : count < memory.length
  · refine ⟨[memory[count]], ?_⟩
    rw [readBytes_of_le hlong, readBytes_of_le (Nat.le_of_lt hlong),
      List.take_succ_eq_append_getElem hlong]
  · refine ⟨[0], ?_⟩
    have hshort : memory.length ≤ count := Nat.le_of_not_lt hlong
    have hrest : count + 1 - memory.length = count - memory.length + 1 := by omega
    rw [readBytes, readBytes, List.take_of_length_le hshort,
      List.take_of_length_le (Nat.le_succ_of_le hshort), hrest, List.replicate_succ',
      List.append_assoc]

/-- A string is read whole with its terminator. -/
theorem CString.readBytes_inMemory (string : CString) (rest : Bytes) :
    readBytes (string.inMemory rest) (string.bytes.length + 1) = string.bytes ++ [0] := by
  have hcount : string.bytes.length + 1 = (string.bytes ++ [0]).length := by simp
  rw [string.inMemory_eq, hcount, readBytes_append]

theorem takeWhile_append_nul {text : Bytes} (h : 0 ∉ text) (rest : Bytes) :
    (text ++ 0 :: rest).takeWhile (· ≠ 0) = text := by
  rw [List.takeWhile_append_of_pos]
  · simp
  · intro byte hbyte
    simpa using fun heq : byte = 0 => h (heq ▸ hbyte)

theorem strlen_append_nul {text : Bytes} (h : 0 ∉ text) (rest : Bytes) :
    strlen (text ++ 0 :: rest) = text.length := by
  rw [strlen, takeWhile_append_nul h]

theorem strlen_inMemory (string : CString) (rest : Bytes) :
    strlen (string.inMemory rest) = string.bytes.length :=
  strlen_append_nul string.noNul rest

theorem takeWhile_self {text : Bytes} (h : 0 ∉ text) : text.takeWhile (· ≠ 0) = text :=
  List.takeWhile_eq_self_iff.mpr fun byte hbyte => by
    simpa using fun heq : byte = 0 => h (heq ▸ hbyte)

@[simp]
theorem strlen_bytes (string : CString) : strlen string.bytes = string.bytes.length := by
  rw [strlen, takeWhile_self string.noNul]

@[simp]
theorem CString.read_bytes (string : CString) : CString.read string.bytes = string :=
  CString.ext (takeWhile_self string.noNul)

/-- `strlen` of memory whose first bytes are not NUL reaches past them. -/
theorem le_strlen_append {object : Bytes} (h : 0 ∉ object) (rest : Bytes) :
    object.length ≤ strlen (object ++ rest) := by
  rw [strlen, List.takeWhile_append_of_pos]
  · simp
  · intro byte hbyte
    simpa using fun heq : byte = 0 => h (heq ▸ hbyte)

theorem take_cut (first rest : Bytes) :
    (first ++ 0 :: rest).take (first.length + 1) = first ++ [0] := by
  have hcount : first.length + 1 = (first ++ [0]).length := by simp
  have hsplit : first ++ 0 :: rest = (first ++ [0]) ++ rest := by simp
  rw [hcount, hsplit, List.take_left]

/-- A text cut short and followed by ones is longer than the text. -/
theorem lt_strlen_of_ones (text : CString) (count : Nat) :
    text.bytes.length < strlen (text.bytes.take count ++ [1]
      ++ List.replicate text.bytes.length 1) := by
  have htext : (0 : UInt8) ∉ text.bytes.take count := (text.take count).noNul
  have hones : (0 : UInt8) ∉ text.bytes.take count ++ [1]
      ++ List.replicate text.bytes.length 1 := by
    simp [htext]
  have hstrlen := le_strlen_append hones []
  simp only [List.append_nil, List.length_append, List.length_singleton,
    List.length_replicate] at hstrlen
  omega

/-- A buffer is followed by NUL. -/
theorem readBytes_length_succ (buffer : Bytes) :
    readBytes buffer (buffer.length + 1) = buffer ++ [0] := by
  simp [readBytes]

theorem readBytes_strlen (memory : Bytes) :
    readBytes memory (strlen memory) = (CString.read memory).bytes := by
  have hprefix : (CString.read memory).bytes <+: memory := List.takeWhile_prefix _
  have hstrlen : strlen memory = (CString.read memory).bytes.length := rfl
  rw [hstrlen, readBytes_of_le hprefix.length_le]
  exact (List.prefix_iff_eq_take.mp hprefix).symm

/-- The byte behind a string is its terminator. -/
theorem readBytes_strlen_succ (memory : Bytes) :
    readBytes memory (strlen memory + 1) = (CString.read memory).bytes ++ [0] := by
  rw [← readBytes_strlen]
  by_cases hzero : 0 ∈ memory
  · obtain ⟨first, second, rfl, hfirst⟩ := List.eq_append_cons_of_mem hzero
    have hlong : first.length + 1 ≤ (first ++ 0 :: second).length := by simp
    rw [strlen_append_nul hfirst, readBytes_append, readBytes_of_le hlong, take_cut]
  · have hstrlen : strlen memory = memory.length := by rw [strlen, takeWhile_self hzero]
    rw [hstrlen, readBytes_length_succ, readBytes_self]

theorem strncmpEqual_length_iff {first second : CString} :
    strncmpEqual first second second.bytes.length = true ↔ second.bytes <+: first.bytes := by
  rw [strncmpEqual, List.take_length, beq_iff_eq, List.prefix_iff_eq_take, eq_comm]

end WhisperCore
