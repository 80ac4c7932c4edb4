import TokenSeal.Bytes
/-!
Byte buffers with spare room. What is beyond the length stays in the buffer, unseen, until it is
written over or wiped.
-/

namespace TokenSeal

structure Buffer where
  cells : Bytes
  length : Nat
  length_le : length ≤ cells.length
deriving DecidableEq

namespace Buffer

def capacity (b : Buffer) : Nat := b.cells.length

def visible (b : Buffer) : Bytes := b.cells.take b.length

def allocate (capacity : Nat) : Buffer :=
  ⟨Bytes.zeros capacity, 0, Nat.zero_le _⟩

def truncate (b : Buffer) (n : Nat) : Buffer :=
  ⟨b.cells, min n b.length, Nat.le_trans (Nat.min_le_right ..) b.length_le⟩

/-- Writes after the visible bytes. Within the capacity nothing else changes. -/
def append (b : Buffer) (data : Bytes) : Buffer :=
  ⟨b.visible ++ data ++ b.cells.drop (b.length + data.length), b.length + data.length, by
    have := b.length_le
    simp [visible]; omega⟩

/-- Cuts the visible bytes, or fills them up with zeros. -/
def resize (b : Buffer) (n : Nat) : Buffer :=
  if n ≤ b.length then b.truncate n else b.append (Bytes.zeros (n - b.length))

/-- Writes over the cells from a place on. The length stays. -/
def write (b : Buffer) (place : Nat) (data : Bytes) : Buffer :=
  ⟨b.cells.take place ++ data ++ b.cells.drop (place + data.length), b.length, by
    have := b.length_le
    simp; omega⟩

def overwrite (b : Buffer) (data : Bytes) : Buffer :=
  (b.truncate 0).append data

/-- Hides all bytes but leaves them. -/
def clear (b : Buffer) : Buffer := b.truncate 0

/-- Sets every byte to zero, the spare ones too. -/
def wipe (b : Buffer) : Buffer := allocate b.capacity

theorem length_resize (b : Buffer) (n : Nat) : (b.resize n).length = n := by
  unfold resize
  split
  · simp only [truncate]
    omega
  · simp only [append, Bytes.length_zeros]
    omega

end Buffer

end TokenSeal
