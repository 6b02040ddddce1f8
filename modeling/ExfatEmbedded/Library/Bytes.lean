import Mathlib.Data.List.Basic
import Mathlib.Tactic.Common
import Mathlib.Tactic.Ring

/-!
Byte images, little-endian numbers and rotating checksums.
-/

namespace ExfatEmbedded.Library

/-- A byte string read by position. -/
abbrev Image := ℕ → UInt8

namespace Image

/-- The `n` bytes from `off` on. -/
def slice (m : Image) (off : ℕ) : ℕ → List UInt8
  | 0 => []
  | n + 1 => m off :: slice m (off + 1) n

/-- The image with `bs` written at `off`. -/
def patch (m : Image) (off : ℕ) (bs : List UInt8) : Image := fun i =>
  if off ≤ i ∧ i < off + bs.length then bs.getD (i - off) 0 else m i

/-- The first `n` bytes of `m`, the others of `m'`. -/
def splice (m m' : Image) (n : ℕ) : Image := fun i => if i < n then m i else m' i

@[simp] lemma slice_length (m : Image) (off n : ℕ) : (slice m off n).length = n := by
  induction n generalizing off with
  | zero => rfl
  | succ n ih => simp [slice, ih]

lemma slice_getD (m : Image) (off n i : ℕ) (h : i < n) :
    (slice m off n).getD i 0 = m (off + i) := by
  induction n generalizing off i with
  | zero => omega
  | succ n ih =>
    cases i with
    | zero => simp [slice]
    | succ i =>
      rw [slice, List.getD_cons_succ, ih _ _ (by omega)]
      congr 1; omega

lemma slice_add (m : Image) (off a b : ℕ) :
    slice m off (a + b) = slice m off a ++ slice m (off + a) b := by
  induction a generalizing off with
  | zero => simp [slice]
  | succ a ih =>
    rw [show a + 1 + b = (a + b) + 1 by omega, slice, slice, ih, List.cons_append]
    congr 3; omega

lemma slice_congr {m m' : Image} {off n : ℕ} (h : ∀ i, off ≤ i → i < off + n → m i = m' i) :
    slice m off n = slice m' off n := by
  induction n generalizing off with
  | zero => rfl
  | succ n ih =>
    rw [slice, slice, h off le_rfl (by omega), ih fun i h1 h2 => h i (by omega) (by omega)]

lemma patch_of_lt {m : Image} {off : ℕ} {bs : List UInt8} {i : ℕ} (h : i < off) :
    patch m off bs i = m i := by
  rw [patch, if_neg (by omega)]

lemma patch_of_ge {m : Image} {off : ℕ} {bs : List UInt8} {i : ℕ} (h : off + bs.length ≤ i) :
    patch m off bs i = m i := by
  rw [patch, if_neg (by omega)]

lemma patch_in {m : Image} {off : ℕ} {bs : List UInt8} {i : ℕ} (h : i < bs.length) :
    patch m off bs (off + i) = bs.getD i 0 := by
  rw [patch, if_pos (by omega)]
  congr 1; omega

lemma slice_ext {m : Image} {off : ℕ} {bs : List UInt8}
    (h : ∀ i < bs.length, m (off + i) = bs.getD i 0) : slice m off bs.length = bs := by
  induction bs generalizing off with
  | nil => rfl
  | cons b bs ih =>
    rw [List.length_cons, slice]
    congr 1
    · simpa using h 0 (by simp)
    · refine ih fun i hi => ?_
      have := h (i + 1) (by simpa using hi)
      rw [List.getD_cons_succ] at this
      rw [← this]; congr 1; omega

lemma slice_patch_self (m : Image) (off : ℕ) (bs : List UInt8) :
    slice (patch m off bs) off bs.length = bs :=
  slice_ext fun _ hi => patch_in hi

lemma slice_patch_disjoint {m : Image} {off off' n : ℕ} {bs : List UInt8}
    (h : off' + n ≤ off ∨ off + bs.length ≤ off') :
    slice (patch m off bs) off' n = slice m off' n := by
  refine slice_congr fun i h1 h2 => ?_
  rcases h with h | h
  · exact patch_of_lt (by omega)
  · exact patch_of_ge (by omega)

end Image

/-- The `n` low bytes of `v`, the lowest first. -/
def leBytes : ℕ → ℕ → List UInt8
  | 0, _ => []
  | n + 1, v => UInt8.ofNat v :: leBytes n (v / 256)

/-- The number a little-endian byte string stands for. -/
def ofLe : List UInt8 → ℕ
  | [] => 0
  | b :: bs => b.toNat + 256 * ofLe bs

@[simp] lemma leBytes_length (n v : ℕ) : (leBytes n v).length = n := by
  induction n generalizing v with
  | zero => rfl
  | succ n ih => simp [leBytes, ih]

lemma ofLe_lt (bs : List UInt8) : ofLe bs < 256 ^ bs.length := by
  induction bs with
  | nil => simp [ofLe]
  | cons b bs ih =>
    have hb := b.toNat_lt
    rw [ofLe, List.length_cons, pow_succ]
    omega

lemma ofLe_leBytes (n v : ℕ) : ofLe (leBytes n v) = v % 256 ^ n := by
  induction n generalizing v with
  | zero => simp [leBytes, ofLe, Nat.mod_one]
  | succ n ih =>
    have hb : (UInt8.ofNat v).toNat = v % 256 := by simp
    rw [leBytes, ofLe, ih, hb, pow_succ, Nat.mul_comm (256 ^ n) 256, Nat.mod_mul]

lemma ofLe_leBytes_of_lt {n v : ℕ} (h : v < 256 ^ n) : ofLe (leBytes n v) = v := by
  rw [ofLe_leBytes, Nat.mod_eq_of_lt h]

/-- One step of a checksum of `w` bits: rotate right by one, then add the byte. -/
def rotAdd (w sum : ℕ) (b : UInt8) : ℕ := (sum / 2 + sum % 2 * 2 ^ (w - 1) + b.toNat) % 2 ^ w

/-- `xs` written over the elements of `l` from `start` on. -/
def overlay {α : Type} (l : List α) (start : ℕ) (xs : List α) : List α :=
  l.take start ++ xs ++ l.drop (start + xs.length)

lemma overlay_length {α : Type} {l : List α} {start : ℕ} {xs : List α}
    (h : start + xs.length ≤ l.length) : (overlay l start xs).length = l.length := by
  simp only [overlay, List.length_append, List.length_take, List.length_drop]
  omega

lemma take_overlay {α : Type} {l : List α} {start : ℕ} {xs : List α}
    (h : start + xs.length ≤ l.length) :
    (overlay l start xs).take (start + xs.length) = l.take start ++ xs := by
  rw [overlay, List.take_append_of_le_length (by simp; omega), List.take_of_length_le (by simp)]

lemma overlay_overlay {α : Type} {l : List α} {start : ℕ} {xs ys : List α}
    (h : start + xs.length ≤ l.length) :
    overlay (overlay l start xs) (start + xs.length) ys = overlay l start (xs ++ ys) := by
  have hdrop : (overlay l start xs).drop (start + xs.length + ys.length) =
      l.drop (start + xs.length + ys.length) := by
    unfold overlay
    rw [List.drop_append, List.length_append, List.length_take, Nat.min_eq_left (by omega),
      List.drop_of_length_le (by simp; omega), List.nil_append, List.drop_drop]
    congr 1
    omega
  conv_lhs => rw [overlay]
  rw [take_overlay h, hdrop]
  simp [overlay, Nat.add_assoc]

lemma getElem?_overlay {α : Type} {l : List α} {start : ℕ} {xs : List α}
    (h : start + xs.length ≤ l.length)
    (i : ℕ) : (overlay l start xs)[i]? =
      if start ≤ i ∧ i < start + xs.length then xs[i - start]? else l[i]? := by
  unfold overlay
  rcases Nat.lt_or_ge i start with h1 | h1
  · rw [if_neg (by omega), List.append_assoc, List.getElem?_append_left (by simp; omega),
      List.getElem?_take, if_pos h1]
  · rw [List.append_assoc, List.getElem?_append_right (by simp; omega), List.length_take,
      Nat.min_eq_left (by omega)]
    rcases Nat.lt_or_ge i (start + xs.length) with h2 | h2
    · rw [if_pos ⟨h1, h2⟩, List.getElem?_append_left (by omega)]
    · rw [if_neg (by omega), List.getElem?_append_right (by omega), List.getElem?_drop]
      congr 1; omega

end ExfatEmbedded.Library
