import SabApp.Bytes

/-!
# Predictive codecs, and codes in half bytes

A coder that predicts gives a code for each sample and moves its state; a decoder moves its state by
the codes alone. Where one turn of the coder moves the state as the decoder does by the code given
(`Codec.agree`), the decoder has at each sample the state that the coder had (`states_encode`), and
what each turn keeps of its sample holds all along (`track_follows`). Codes of four bits go two to a
byte, the high half first.
-/

namespace SabApp

namespace Predictive

/-- `E` holds of each sample with the states before and after it. -/
def Follows {σ α : Type} (E : σ → α → σ → Prop) : σ → List α → List σ → Prop
  | _, [], [] => True
  | s, x :: xs, s' :: ss => E s x s' ∧ Follows E s' xs ss
  | _, _, _ => False

structure Codec (σ α : Type) where
  /-- The code of a sample, and the coder's state after it. -/
  code : σ → α → ℕ × σ
  /-- The decoder's state after a code. -/
  next : σ → ℕ → σ
  agree : ∀ s x, (code s x).2 = next s (code s x).1
  nibble : ∀ s x, (code s x).1 < 16

namespace Codec

variable {σ α : Type} (c : Codec σ α)

def encode : σ → List α → List ℕ
  | _, [] => []
  | s, x :: xs => (c.code s x).1 :: encode (c.code s x).2 xs

/-- The coder's states after each sample. -/
def track : σ → List α → List σ
  | _, [] => []
  | s, x :: xs => (c.code s x).2 :: track (c.code s x).2 xs

/-- The decoder's states after each code. -/
def states : σ → List ℕ → List σ
  | _, [] => []
  | s, b :: bs => c.next s b :: states (c.next s b) bs

def last (s : σ) (bs : List ℕ) : σ := bs.foldl c.next s

@[simp] theorem encode_length (s : σ) (xs : List α) : (c.encode s xs).length = xs.length := by
  induction xs generalizing s with
  | nil => rfl
  | cons x xs ih => rw [encode, List.length_cons, List.length_cons, ih]

@[simp] theorem track_length (s : σ) (xs : List α) : (c.track s xs).length = xs.length := by
  induction xs generalizing s with
  | nil => rfl
  | cons x xs ih => rw [track, List.length_cons, List.length_cons, ih]

@[simp] theorem states_length (s : σ) (bs : List ℕ) : (c.states s bs).length = bs.length := by
  induction bs generalizing s with
  | nil => rfl
  | cons b bs ih => rw [states, List.length_cons, List.length_cons, ih]

theorem encode_lt (s : σ) (xs : List α) : ∀ b ∈ c.encode s xs, b < 16 := by
  induction xs generalizing s with
  | nil => exact fun b hb => absurd hb List.not_mem_nil
  | cons x xs ih =>
    intro b hb
    rcases List.mem_cons.mp hb with rfl | hb
    · exact c.nibble s x
    · exact ih _ b hb

/-- **Agreement**: from the coder's codes the decoder has the coder's states. -/
theorem states_encode (s : σ) (xs : List α) : c.states s (c.encode s xs) = c.track s xs := by
  induction xs generalizing s with
  | nil => rfl
  | cons x xs ih => rw [encode, states, track, ← c.agree, ih]

theorem states_append (s : σ) (bs bs' : List ℕ) :
    c.states s (bs ++ bs') = c.states s bs ++ c.states (c.last s bs) bs' := by
  induction bs generalizing s with
  | nil => rfl
  | cons b bs ih => rw [List.cons_append, states, ih, states, List.cons_append]; rfl

/-- What each turn keeps of its sample holds all along. -/
theorem track_follows {E : σ → α → σ → Prop} (h : ∀ s x, E s x (c.code s x).2) (s : σ) (xs : List α) :
    Follows E s xs (c.track s xs) := by
  induction xs generalizing s with
  | nil => trivial
  | cons x xs ih => exact ⟨h s x, ih _⟩

end Codec

/-! ## Codes in half bytes -/

/-- Two codes to a byte; the last byte of an odd number of codes has none in its low half. -/
def pack : List ℕ → List UInt8
  | [] => []
  | [a] => [.ofNat (a * 16)]
  | a :: b :: cs => .ofNat (a * 16 + b) :: pack cs

def unpack : List UInt8 → List ℕ
  | [] => []
  | x :: xs => x.toNat / 16 :: x.toNat % 16 :: unpack xs

@[simp] theorem unpack_length (xs : List UInt8) : (unpack xs).length = 2 * xs.length := by
  induction xs with
  | nil => rfl
  | cons x xs ih =>
    rw [unpack, List.length_cons, List.length_cons, ih, List.length_cons]
    omega

theorem pack_length (cs : List ℕ) : (pack cs).length = (cs.length + 1) / 2 := by
  induction cs using pack.induct with
  | case1 => rfl
  | case2 a => simp [pack]
  | case3 a b cs ih =>
    rw [pack, List.length_cons, ih, List.length_cons, List.length_cons]
    omega

/-- **Packing**: the codes come back, behind an odd number of them with a zero. -/
theorem unpack_pack {cs : List ℕ} (h : ∀ b ∈ cs, b < 16) :
    unpack (pack cs) = cs ++ List.replicate (cs.length % 2) 0 := by
  induction cs using pack.induct with
  | case1 => rfl
  | case2 a =>
    have ha := h a List.mem_cons_self
    have hbyte : (UInt8.ofNat (a * 16)).toNat = a * 16 := UInt8.toNat_ofNat_of_lt' (show _ < 256 by omega)
    rw [pack, unpack, unpack, hbyte, Nat.mul_div_cancel _ (by decide), Nat.mul_mod_left]
    rfl
  | case3 a b cs ih =>
    have ha := h a List.mem_cons_self
    have hb := h b (List.mem_cons_of_mem _ List.mem_cons_self)
    have hbyte : (UInt8.ofNat (a * 16 + b)).toNat = a * 16 + b := UInt8.toNat_ofNat_of_lt' (show _ < 256 by omega)
    have hhigh : (a * 16 + b) / 16 = a := by omega
    have hlow : (a * 16 + b) % 16 = b := by omega
    have hlen : (a :: b :: cs).length % 2 = cs.length % 2 := by rw [List.length_cons, List.length_cons]; omega
    rw [pack, unpack, hbyte, hhigh, hlow, hlen,
      ih fun x hx => h x (List.mem_cons_of_mem _ (List.mem_cons_of_mem _ hx))]
    rfl

end Predictive

end SabApp
