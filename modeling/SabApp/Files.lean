import SabApp.Bytes

/-!
# Files that are written and read at a position

A file has its bytes and a position. What is written goes over what stands there, behind zeros where
the position is behind the end; what is read is what stands there, as far as the file goes, and a read
that gets less than it asks for leaves the mark of the end, which a seek takes away.
-/

namespace SabApp

structure File where
  bytes : List UInt8
  pos : ℕ
  eof : Bool

namespace File

/-- A file that was opened for writing. -/
def empty : File := ⟨[], 0, false⟩

/-- The bytes with `bs` over them from `p` on. -/
def overlay (b : List UInt8) (p : ℕ) (bs : List UInt8) : List UInt8 :=
  (b ++ List.replicate (p - b.length) 0).take p ++ bs ++ b.drop (p + bs.length)

def seek (f : File) (p : ℕ) : File := ⟨f.bytes, p, false⟩

def write (f : File) (bs : List UInt8) : File := ⟨overlay f.bytes f.pos bs, f.pos + bs.length, f.eof⟩

/-- The bytes that a read of `n` gets. -/
def got (f : File) (n : ℕ) : List UInt8 := (f.bytes.drop f.pos).take n

def read (f : File) (n : ℕ) : List UInt8 × File :=
  (f.got n, ⟨f.bytes, f.pos + (f.got n).length, f.eof || (f.got n).length < n⟩)

@[simp] theorem read_bytes (f : File) (n : ℕ) : (f.read n).2.bytes = f.bytes := rfl

theorem overlay_length (b : List UInt8) (p : ℕ) (bs : List UInt8) :
    (overlay b p bs).length = max b.length (p + bs.length) := by
  simp only [overlay, List.length_append, List.length_take, List.length_replicate, List.length_drop]
  omega

/-- Behind the end, zeros fill what is between. -/
theorem overlay_end {b : List UInt8} {p : ℕ} (h : b.length ≤ p) (bs : List UInt8) :
    overlay b p bs = b ++ List.replicate (p - b.length) 0 ++ bs := by
  have hlen : (b ++ List.replicate (p - b.length) (0 : UInt8)).length = p := by
    rw [List.length_append, List.length_replicate]
    omega
  rw [overlay, List.take_of_length_le (Nat.le_of_eq hlen), List.drop_of_length_le (by omega), List.append_nil]

theorem overlay_append (b bs : List UInt8) : overlay b b.length bs = b ++ bs := by
  rw [overlay_end (Nat.le_refl _), Nat.sub_self, List.replicate_zero, List.append_nil]

theorem overlay_front (b bs : List UInt8) : overlay b 0 bs = bs ++ b.drop bs.length := by
  rw [overlay, List.take_zero, List.nil_append, Nat.zero_add]

/-- One write behind the other is one write. -/
theorem overlay_overlay (b : List UInt8) (p : ℕ) (bs bs' : List UInt8) :
    overlay (overlay b p bs) (p + bs.length) bs' = overlay b p (bs ++ bs') := by
  have hcut : ((overlay b p bs ++ List.replicate (p + bs.length - (overlay b p bs).length) 0).take (p + bs.length)) =
      (b ++ List.replicate (p - b.length) 0).take p ++ bs := by
    have hpre : ((b ++ List.replicate (p - b.length) (0 : UInt8)).take p ++ bs).length = p + bs.length := by
      simp only [List.length_append, List.length_take, List.length_replicate]
      omega
    have hno : p + bs.length - (overlay b p bs).length = 0 := by
      rw [overlay_length]
      omega
    rw [hno, List.replicate_zero, List.append_nil, overlay, List.take_append_of_le_length (Nat.le_of_eq hpre.symm),
      List.take_of_length_le (Nat.le_of_eq hpre)]
  have hrest : (overlay b p bs).drop (p + bs.length + bs'.length) = b.drop (p + (bs ++ bs').length) := by
    have hpre : ((b ++ List.replicate (p - b.length) (0 : UInt8)).take p ++ bs).length = p + bs.length := by
      simp only [List.length_append, List.length_take, List.length_replicate]
      omega
    rw [overlay, List.drop_append, List.drop_of_length_le (by omega), List.nil_append, List.drop_drop, hpre,
      List.length_append]
    exact congrArg (b.drop ·) (by omega)
  rw [overlay, hcut, hrest, overlay, List.append_assoc _ bs bs']

/-- What stands at the position is what is read. -/
theorem got_eq {f : File} {pre bs rest : List UInt8} (h : f.bytes = pre ++ bs ++ rest) (hpos : f.pos = pre.length) :
    f.got bs.length = bs := by
  rw [got, h, hpos, List.append_assoc, List.drop_left, List.take_left]

/-- At the end nothing is read. -/
theorem got_end {f : File} (h : f.bytes.length ≤ f.pos) (n : ℕ) : f.got n = [] := by
  rw [got, List.drop_of_length_le h, List.take_nil]

theorem read_eq {f : File} {pre bs rest : List UInt8} (h : f.bytes = pre ++ bs ++ rest) (hpos : f.pos = pre.length)
    (heof : f.eof = false) : f.read bs.length = (bs, ⟨f.bytes, (pre ++ bs).length, false⟩) := by
  have hmark : (f.eof || decide (bs.length < bs.length)) = false := by
    rw [heof, decide_eq_false (Nat.lt_irrefl _)]
    rfl
  rw [read, got_eq h hpos, hpos, hmark, List.length_append]

end File

end SabApp
