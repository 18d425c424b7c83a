import OsKernel.Library.Stored
import OsKernel.LineBuffer

/-!
# What the line buffer holds

Up to the first Enter `key_buffer` holds the typed line, and a newline closes it. Whatever is stored
behind the newline, the next `terminal_read` returns that line and drops the rest.
-/

namespace OsKernel

open Library

/-- No line is entered, and the buffer holds what was typed. -/
structure LineBuffer.Editing (l : LineBuffer) (line : List UInt8) : Prop where
  bufIdx : l.bufIdx = line.length
  capacity : line.length ≤ 127
  noNewline : ASCII_NL ∉ line
  stored : StoredAt l.keyBuffer 0 line

/-- A line was entered; more characters may be stored behind it. -/
structure LineBuffer.Entered (l : LineBuffer) (line : List UInt8) : Prop where
  behind : line.length < l.bufIdx
  inBounds : l.bufIdx ≤ KB_BUFFER_SIZE
  capacity : line.length ≤ 127
  noNewline : ASCII_NL ∉ line
  stored : StoredAt l.keyBuffer 0 (line ++ [ASCII_NL])

section Buffer

variable {l : LineBuffer} {line : List UInt8} {c : UInt8}

/-- A store below the bound goes to the end. -/
theorem LineBuffer.pushBelow_of_lt {bound : ℤ} (hlo : 0 ≤ l.bufIdx) (hbound : bound ≤ KB_BUFFER_SIZE)
    (hlt : l.bufIdx < bound) (c : UInt8) :
    l.pushBelow bound c =
      .ok { l with keyBuffer := Function.update l.keyBuffer l.bufIdx c, bufIdx := l.bufIdx + 1 } := by
  rw [LineBuffer.pushBelow, if_pos hlt]
  exact if_pos ⟨hlo, by omega⟩

/-- A character typed on the line. -/
theorem LineBuffer.Editing.push (h : l.Editing line) (hcapacity : line.length < 127) (hc : c ≠ ASCII_NL) :
    ∃ l', l.pushBelow (KB_BUFFER_SIZE - 1) c = .ok l' ∧ l'.numChar = l.numChar ∧ l'.Editing (line ++ [c]) := by
  have hbufIdx := h.bufIdx
  have hlt : l.bufIdx < KB_BUFFER_SIZE - 1 := by
    rw [KB_BUFFER_SIZE]
    omega
  refine ⟨_, l.pushBelow_of_lt (by omega) belowCapacity hlt c, rfl, ?_, ?_, ?_, ?_⟩
  · simp only [hbufIdx, List.length_append, List.length_singleton]
    omega
  · simp only [List.length_append, List.length_singleton]
    omega
  · simp [h.noNewline, hc.symm]
  · have hstored := h.stored.snoc c
    rw [Int.zero_add, ← hbufIdx] at hstored
    exact hstored

/-- Enter on the line. -/
theorem LineBuffer.Editing.enter (h : l.Editing line) :
    ∃ l', l.pushBelow KB_BUFFER_SIZE ASCII_NL = .ok l' ∧ l'.Entered line := by
  have hbufIdx := h.bufIdx
  have hcapacity := h.capacity
  have hlt : l.bufIdx < KB_BUFFER_SIZE := by
    rw [KB_BUFFER_SIZE]
    omega
  refine ⟨_, l.pushBelow_of_lt (by omega) le_rfl hlt ASCII_NL, ?_, ?_, hcapacity, h.noNewline, ?_⟩
  · dsimp only
    omega
  · dsimp only
    omega
  · have hstored := h.stored.snoc ASCII_NL
    rw [Int.zero_add, ← hbufIdx] at hstored
    exact hstored

/-- A character typed behind an entered line. -/
theorem LineBuffer.Entered.push (h : l.Entered line) {bound : ℤ} (hbound : bound ≤ KB_BUFFER_SIZE) (c : UInt8) :
    ∃ l', l.pushBelow bound c = .ok l' ∧ l'.Entered line := by
  have hbehind := h.behind
  by_cases hlt : l.bufIdx < bound
  · refine ⟨_, l.pushBelow_of_lt (by omega) hbound hlt c, ?_, ?_, h.capacity, h.noNewline, ?_⟩
    · dsimp only
      omega
    · dsimp only
      omega
    · apply h.stored.update
      rw [List.length_append, List.length_singleton]
      omega
  · exact ⟨l, if_neg hlt, h⟩

/-- Backspace on the line. -/
theorem LineBuffer.Editing.erase (h : l.Editing line) (hne : line ≠ []) (numChar : ℤ) :
    ({ l with bufIdx := l.bufIdx - 1, numChar } : LineBuffer).Editing line.dropLast := by
  have hbufIdx := h.bufIdx
  have hcapacity := h.capacity
  have hlen : 0 < line.length := List.length_pos_of_ne_nil hne
  refine ⟨?_, ?_, fun hmem => h.noNewline ((List.dropLast_sublist line).subset hmem), ?_⟩
  · dsimp only
    rw [List.length_dropLast]
    omega
  · rw [List.length_dropLast]
    omega
  · have hstored := h.stored
    rw [← List.dropLast_append_getLast hne] at hstored
    exact hstored.front

/-- The counters that a line does not depend on. -/
theorem LineBuffer.Editing.setNumChar (h : l.Editing line) (numChar : ℤ) :
    ({ l with numChar } : LineBuffer).Editing line := ⟨h.bufIdx, h.capacity, h.noNewline, h.stored⟩

theorem LineBuffer.Entered.setNumChar (h : l.Entered line) (numChar : ℤ) :
    ({ l with numChar } : LineBuffer).Entered line := ⟨h.behind, h.inBounds, h.capacity, h.noNewline, h.stored⟩

/-- The copying loop of `terminal_read` stops behind the first newline. -/
theorem lineBytes_eq_take {keyBuffer : ℤ → UInt8} {i : ℤ} (hline : ASCII_NL ∉ line)
    (h : StoredAt keyBuffer i (line ++ [ASCII_NL])) (n : ℕ) :
    lineBytes keyBuffer i n = (line ++ [ASCII_NL]).take n := by
  induction line generalizing i n with
  | nil =>
    cases n with
    | zero => rfl
    | succ n => rw [lineBytes, if_pos h.1, h.1]; simp
  | cons c rest ih =>
    cases n with
    | zero => rfl
    | succ n =>
      have hc : keyBuffer i ≠ ASCII_NL := by
        intro heq
        apply hline
        rw [← heq, h.1]
        exact List.mem_cons_self
      have hrest : ASCII_NL ∉ rest := fun hmem => hline (List.mem_cons_of_mem c hmem)
      rw [lineBytes, if_neg hc, ih hrest h.2, h.1]
      rfl

/-- What a read of an entered line returns: as much of the line as fits. -/
theorem LineBuffer.Entered.read (h : l.Entered line) (nbytes : ℤ) :
    lineBytes l.keyBuffer 0 (min nbytes KB_BUFFER_SIZE).toNat = (line ++ [ASCII_NL]).take nbytes.toNat := by
  have hcapacity := h.capacity
  rw [lineBytes_eq_take h.noNewline h.stored]
  by_cases hle : nbytes ≤ KB_BUFFER_SIZE
  · rw [min_eq_left hle]
  · have hlen : (line ++ [ASCII_NL]).length ≤ 128 := by
      rw [List.length_append, List.length_singleton]
      omega
    rw [List.take_of_length_le, List.take_of_length_le]
    · rw [KB_BUFFER_SIZE] at hle
      omega
    · rw [min_eq_right (by omega)]
      exact hlen

end Buffer

end OsKernel
