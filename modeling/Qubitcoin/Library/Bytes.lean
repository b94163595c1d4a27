import Mathlib

/-! Fixed-length byte codes.  A `FixedCode` is a bijection between a type and the
byte strings of one length; concatenations of coded records are then read back
record by record. -/

universe u v

abbrev Bytes := List UInt8

namespace Bytes

/-- The `w` low bytes of `n`, least significant first. -/
def le : Nat → Nat → Bytes
  | 0, _ => []
  | w + 1, n => UInt8.ofNat n :: le w (n / 256)

def ofLe : Bytes → Nat
  | [] => 0
  | b :: bs => b.toNat + 256 * ofLe bs

@[simp] theorem length_le (w n : Nat) : (le w n).length = w := by
  induction w generalizing n with
  | zero => rfl
  | succ w ih => simp [le, ih]

theorem ofLe_le (w n : Nat) : ofLe (le w n) = n % 256 ^ w := by
  induction w generalizing n with
  | zero => simp [le, ofLe, Nat.mod_one]
  | succ w ih =>
    rw [le, ofLe, ih, Nat.pow_succ, Nat.mul_comm (256 ^ w), Nat.mod_mul]
    simp

theorem ofLe_lt (bs : Bytes) : ofLe bs < 256 ^ bs.length := by
  induction bs with
  | nil => simp [ofLe]
  | cons b bs ih =>
    have hb := b.toNat_lt
    rw [ofLe, List.length_cons, Nat.pow_succ]
    omega

theorem ofLe_eq_zero_iff (bs : Bytes) : ofLe bs = 0 ↔ ∀ b ∈ bs, b = 0 := by
  induction bs with
  | nil => simp [ofLe]
  | cons b bs ih =>
    have hb : b.toNat = 0 ↔ b = 0 := ⟨fun h => UInt8.toNat_inj.mp h, fun h => h ▸ rfl⟩
    rw [ofLe, List.forall_mem_cons, ← ih, ← hb]
    omega

theorem le_ofLe (bs : Bytes) : le bs.length (ofLe bs) = bs := by
  induction bs with
  | nil => rfl
  | cons b bs ih =>
    have hb := b.toNat_lt
    have hdiv : (b.toNat + 256 * ofLe bs) / 256 = ofLe bs := by omega
    have hbyte : UInt8.ofNat (b.toNat + 256 * ofLe bs) = b := by
      apply UInt8.toNat_inj.mp
      rw [UInt8.toNat_ofNat']
      omega
    rw [List.length_cons, ofLe, le, hdiv, hbyte, ih]

end Bytes

/-- A bijection between `α` and the byte strings of length `n`. -/
structure FixedCode (α : Type u) (n : Nat) where
  encode : α → Bytes
  decode : Bytes → α
  length_encode : ∀ a, (encode a).length = n
  decode_encode : ∀ a, decode (encode a) = a
  encode_decode : ∀ bs, bs.length = n → encode (decode bs) = bs

namespace FixedCode

variable {α : Type u} {β : Type v} {m n : Nat}

theorem encode_injective (c : FixedCode α n) : Function.Injective c.encode := by
  intro a b h
  rw [← c.decode_encode a, h, c.decode_encode]

def word (w n : Nat) (h : 2 ^ w = 256 ^ n) : FixedCode (BitVec w) n where
  encode x := Bytes.le n x.toNat
  decode bs := BitVec.ofNat w (Bytes.ofLe bs)
  length_encode x := Bytes.length_le n x.toNat
  decode_encode x := by
    rw [Bytes.ofLe_le, ← h]
    simp
  encode_decode bs hbs := by
    have hlt := Bytes.ofLe_lt bs
    rw [hbs, ← h] at hlt
    rw [BitVec.toNat_ofNat, Nat.mod_eq_of_lt hlt, ← hbs, Bytes.le_ofLe]

def reverse (c : FixedCode α n) : FixedCode α n where
  encode a := (c.encode a).reverse
  decode bs := c.decode bs.reverse
  length_encode a := by rw [List.length_reverse, c.length_encode]
  decode_encode a := by rw [List.reverse_reverse, c.decode_encode]
  encode_decode bs hbs := by
    rw [c.encode_decode _ (by rw [List.length_reverse, hbs]), List.reverse_reverse]

def prod (c : FixedCode α m) (d : FixedCode β n) : FixedCode (α × β) (m + n) where
  encode p := c.encode p.1 ++ d.encode p.2
  decode bs := (c.decode (bs.take m), d.decode (bs.drop m))
  length_encode p := by rw [List.length_append, c.length_encode, d.length_encode]
  decode_encode p := by
    rw [List.take_left' (c.length_encode p.1), List.drop_left' (c.length_encode p.1),
      c.decode_encode, d.decode_encode]
  encode_decode bs hbs := by
    rw [c.encode_decode _ (by simp [hbs]), d.encode_decode _ (by simp [hbs]),
      List.take_append_drop]

def ofEquiv (c : FixedCode α n) (e : β ≃ α) : FixedCode β n where
  encode b := c.encode (e b)
  decode bs := e.symm (c.decode bs)
  length_encode b := c.length_encode (e b)
  decode_encode b := by rw [c.decode_encode, e.symm_apply_apply]
  encode_decode bs hbs := by rw [e.apply_symm_apply, c.encode_decode bs hbs]

def encodeAll (c : FixedCode α n) (as : List α) : Bytes := as.flatMap c.encode

def decodeAll (c : FixedCode α n) : Nat → Bytes → List α
  | 0, _ => []
  | k + 1, bs => c.decode (bs.take n) :: c.decodeAll k (bs.drop n)

@[simp] theorem encodeAll_nil (c : FixedCode α n) : c.encodeAll [] = [] := rfl

@[simp] theorem encodeAll_cons (c : FixedCode α n) (a : α) (as : List α) :
    c.encodeAll (a :: as) = c.encode a ++ c.encodeAll as := rfl

theorem encodeAll_append (c : FixedCode α n) (as bs : List α) :
    c.encodeAll (as ++ bs) = c.encodeAll as ++ c.encodeAll bs := by
  simp [encodeAll]

theorem length_encodeAll (c : FixedCode α n) (as : List α) :
    (c.encodeAll as).length = as.length * n := by
  induction as with
  | nil => simp
  | cons a as ih =>
    rw [encodeAll_cons, List.length_append, c.length_encode, ih, List.length_cons]
    ring

@[simp] theorem length_decodeAll (c : FixedCode α n) (k : Nat) (bs : Bytes) :
    (c.decodeAll k bs).length = k := by
  induction k generalizing bs with
  | zero => rfl
  | succ k ih => rw [decodeAll, List.length_cons, ih]

theorem encodeAll_decodeAll (c : FixedCode α n) {k : Nat} {bs : Bytes}
    (h : bs.length = k * n) : c.encodeAll (c.decodeAll k bs) = bs := by
  induction k generalizing bs with
  | zero =>
    have hnil : bs = [] := List.eq_nil_of_length_eq_zero (by simpa using h)
    rw [decodeAll, encodeAll_nil, hnil]
  | succ k ih =>
    have hsplit : bs.length = n + k * n := by rw [h]; ring
    rw [decodeAll, encodeAll_cons, c.encode_decode _ (by simp [hsplit]),
      ih (by simp [hsplit]), List.take_append_drop]

theorem encodeAll_inj (c : FixedCode α n) {as bs : List α} (hlen : as.length = bs.length)
    (h : c.encodeAll as = c.encodeAll bs) : as = bs := by
  induction as generalizing bs with
  | nil => exact (List.eq_nil_of_length_eq_zero hlen.symm).symm
  | cons a as ih =>
    cases bs with
    | nil => simp at hlen
    | cons b bs =>
      rw [encodeAll_cons, encodeAll_cons] at h
      obtain ⟨hhead, htail⟩ := List.append_inj h (by rw [c.length_encode, c.length_encode])
      rw [c.encode_injective hhead, ih (by simpa using hlen) htail]

/-- The records two concatenations have in common, read from the front. -/
theorem take_eq_of_encodeAll (c : FixedCode α n) {as bs : List α} {x y : Bytes}
    (h : c.encodeAll as ++ x = c.encodeAll bs ++ y) (hle : as.length ≤ bs.length) :
    bs.take as.length = as := by
  induction as generalizing bs with
  | nil => simp
  | cons a as ih =>
    cases bs with
    | nil => simp at hle
    | cons b bs =>
      rw [encodeAll_cons, encodeAll_cons, List.append_assoc, List.append_assoc] at h
      obtain ⟨hhead, htail⟩ := List.append_inj h (by rw [c.length_encode, c.length_encode])
      rw [List.length_cons, List.take_succ_cons, ih htail (by simpa using hle),
        c.encode_injective hhead]

/-- Two runs of records that read as the same bytes: the longer first run goes on
where the other's second run begins. -/
theorem exists_overlap (c : FixedCode α m) (d : FixedCode β n) (hn : 0 < n) {as as' : List α}
    {bs bs' : List β}
    (h : c.encodeAll as ++ d.encodeAll bs = c.encodeAll as' ++ d.encodeAll bs')
    (hle : as.length ≤ as'.length) :
    ∃ mid front, as' = as ++ mid ∧ bs = front ++ bs' ∧ c.encodeAll mid = d.encodeAll front := by
  have hsplit : as' = as ++ as'.drop as.length := by
    rw [← congrArg (· ++ as'.drop as.length) (c.take_eq_of_encodeAll h hle)]
    exact (List.take_append_drop _ _).symm
  generalize as'.drop as.length = mid at hsplit
  subst hsplit
  rw [encodeAll_append, List.append_assoc] at h
  have hrest := List.append_cancel_left h
  have hlen := congrArg List.length hrest
  rw [List.length_append, d.length_encodeAll, c.length_encodeAll, d.length_encodeAll] at hlen
  have hbs : bs'.length ≤ bs.length := by
    apply Nat.le_of_mul_le_mul_right _ hn
    omega
  refine ⟨mid, bs.take (bs.length - bs'.length), rfl, ?_⟩
  have hcut := List.take_append_drop (bs.length - bs'.length) bs
  rw [← hcut, encodeAll_append] at hrest
  obtain ⟨hfront, hback⟩ := List.append_inj' hrest (by
    rw [d.length_encodeAll, d.length_encodeAll, List.length_drop, Nat.sub_sub_self hbs])
  have htail := d.encodeAll_inj (by rw [List.length_drop, Nat.sub_sub_self hbs]) hback
  exact ⟨hcut.symm.trans (congrArg _ htail), hfront.symm⟩

end FixedCode
