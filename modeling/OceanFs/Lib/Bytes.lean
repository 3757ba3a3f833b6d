import Mathlib.Algebra.Ring.Nat
import Mathlib.Data.List.Basic

/-!
Byte layouts: numbers of a fixed width, and a record read section by section.

A reader takes a section off the front of the bytes that are left, so what it does with a
sequence of sections follows from what it does with the first. A section can be optional, with
a flag read earlier that says whether it is there.
-/

namespace OceanFs.Lib.Bytes

/-! ### Numbers -/

/-- The `w` low bytes of a number, lowest first. -/
def leBytes : ℕ → ℕ → List UInt8
  | 0, _ => []
  | w + 1, n => UInt8.ofNat n :: leBytes w (n / 256)

def leNat : List UInt8 → ℕ
  | [] => 0
  | b :: bs => b.toNat + 256 * leNat bs

@[simp] lemma length_leBytes (w n : ℕ) : (leBytes w n).length = w := by
  induction w generalizing n with
  | zero => rfl
  | succ w ih => rw [leBytes, List.length_cons, ih]

lemma leNat_leBytes_mod (w n : ℕ) : leNat (leBytes w n) = n % 256 ^ w := by
  induction w generalizing n with
  | zero =>
    rw [Nat.pow_zero, Nat.mod_one]
    rfl
  | succ w ih =>
    have hsplit : n % (256 * 256 ^ w) = n % 256 + 256 * (n / 256 % 256 ^ w) := Nat.mod_mul
    rw [leBytes, leNat, ih, UInt8.toNat_ofNat', @Nat.pow_succ' 256 w, hsplit]

lemma leNat_leBytes {w n : ℕ} (h : n < 256 ^ w) : leNat (leBytes w n) = n := by
  rw [leNat_leBytes_mod, Nat.mod_eq_of_lt h]

lemma leBytes_leNat (bs : List UInt8) : leBytes bs.length (leNat bs) = bs := by
  induction bs with
  | nil => rfl
  | cons b bs ih =>
    have hb : b.toNat < 256 := b.toNat_lt
    have hdiv : (b.toNat + 256 * leNat bs) / 256 = leNat bs := by omega
    have hhead : UInt8.ofNat (b.toNat + 256 * leNat bs) = b := by
      rw [← UInt8.toNat_inj, UInt8.toNat_ofNat']
      omega
    rw [List.length_cons, leNat, leBytes, hdiv, hhead, ih]

/-! ### Sections -/

variable {α β : Type}

def takeBytes (n : ℕ) (l : List α) : Option (List α × List α) :=
  if n ≤ l.length then some (l.take n, l.drop n) else none

lemma takeBytes_append {n : ℕ} {a : List α} (h : a.length = n) (rest : List α) :
    takeBytes n (a ++ rest) = some (a, rest) := by
  subst h
  simp [takeBytes]

lemma takeBytes_eq_some {n : ℕ} {l a rest : List α} (h : takeBytes n l = some (a, rest)) :
    a.length = n ∧ l = a ++ rest := by
  unfold takeBytes at h
  split_ifs at h with hn
  obtain ⟨rfl, rfl⟩ := Prod.mk.inj (Option.some.inj h)
  exact ⟨List.length_take_of_le hn, (List.take_append_drop n l).symm⟩

def readNat (w : ℕ) (l : List UInt8) : Option (ℕ × List UInt8) :=
  (takeBytes w l).map fun p => (leNat p.1, p.2)

lemma readNat_append {w n : ℕ} (h : n < 256 ^ w) (rest : List UInt8) :
    readNat w (leBytes w n ++ rest) = some (n, rest) := by
  rw [readNat, takeBytes_append (length_leBytes w n), Option.map_some, leNat_leBytes h]

/-- A section that is there when `present` says so. -/
def flagged (present : Bool) (read : List α → Option (β × List α)) (l : List α) :
    Option (Option β × List α) :=
  if present then (read l).map fun p => (some p.1, p.2) else some (none, l)

lemma flagged_append {read : List α → Option (β × List α)} {write : β → List α} {o : Option β}
    {rest : List α} (h : ∀ b ∈ o, read (write b ++ rest) = some (b, rest)) :
    flagged o.isSome read (o.elim [] write ++ rest) = some (o, rest) := by
  cases o with
  | none => rfl
  | some b => simp [flagged, h b rfl]

end OceanFs.Lib.Bytes
