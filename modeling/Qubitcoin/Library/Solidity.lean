import Qubitcoin.Library.Checked
import Qubitcoin.Library.Machine

/-! Transactions on contracts.  A call yields the next state or reverts, which leaves the
state as it was; arithmetic on 256-bit integers reverts where it overflows. -/

universe u v

namespace Solidity

section Arithmetic

variable {α : Type} {a b c : Nat} {k : Nat → Except String α} {r : α}

def add (a b : Nat) : Except String Nat :=
  if a + b < 2 ^ 256 then .ok (a + b) else .error "Panic(0x11)"

def sub (a b : Nat) : Except String Nat :=
  if b ≤ a then .ok (a - b) else .error "Panic(0x11)"

def mul (a b : Nat) : Except String Nat :=
  if a * b < 2 ^ 256 then .ok (a * b) else .error "Panic(0x11)"

def div (a b : Nat) : Except String Nat :=
  if b ≠ 0 then .ok (a / b) else .error "Panic(0x12)"

theorem add_eq_ok : add a b = .ok c ↔ a + b < 2 ^ 256 ∧ a + b = c := by
  unfold add
  split <;> simp_all

theorem sub_eq_ok : sub a b = .ok c ↔ b ≤ a ∧ a - b = c := by
  unfold sub
  split <;> simp_all

theorem mul_eq_ok : mul a b = .ok c ↔ a * b < 2 ^ 256 ∧ a * b = c := by
  unfold mul
  split <;> simp_all

theorem div_eq_ok : div a b = .ok c ↔ b ≠ 0 ∧ a / b = c := by
  unfold div
  split <;> simp_all

theorem add_bind_eq_ok : (add a b >>= k) = .ok r ↔ a + b < 2 ^ 256 ∧ k (a + b) = .ok r := by
  rw [Checked.bind_eq_ok]
  simp only [add_eq_ok]
  constructor
  · rintro ⟨c, ⟨hlt, rfl⟩, hk⟩
    exact ⟨hlt, hk⟩
  · rintro ⟨hlt, hk⟩
    exact ⟨_, ⟨hlt, rfl⟩, hk⟩

theorem sub_bind_eq_ok : (sub a b >>= k) = .ok r ↔ b ≤ a ∧ k (a - b) = .ok r := by
  rw [Checked.bind_eq_ok]
  simp only [sub_eq_ok]
  constructor
  · rintro ⟨c, ⟨hle, rfl⟩, hk⟩
    exact ⟨hle, hk⟩
  · rintro ⟨hle, hk⟩
    exact ⟨_, ⟨hle, rfl⟩, hk⟩

theorem mul_bind_eq_ok : (mul a b >>= k) = .ok r ↔ a * b < 2 ^ 256 ∧ k (a * b) = .ok r := by
  rw [Checked.bind_eq_ok]
  simp only [mul_eq_ok]
  constructor
  · rintro ⟨c, ⟨hlt, rfl⟩, hk⟩
    exact ⟨hlt, hk⟩
  · rintro ⟨hlt, hk⟩
    exact ⟨_, ⟨hlt, rfl⟩, hk⟩

theorem div_bind_eq_ok : (div a b >>= k) = .ok r ↔ b ≠ 0 ∧ k (a / b) = .ok r := by
  rw [Checked.bind_eq_ok]
  simp only [div_eq_ok]
  constructor
  · rintro ⟨c, ⟨hne, rfl⟩, hk⟩
    exact ⟨hne, hk⟩
  · rintro ⟨hne, hk⟩
    exact ⟨_, ⟨hne, rfl⟩, hk⟩

theorem add_ne_error {e : String} (h : "Panic(0x11)" ≠ e) : add a b ≠ .error e := by
  unfold add
  split
  · exact nofun
  · simpa using h

theorem sub_ne_error {e : String} (h : "Panic(0x11)" ≠ e) : sub a b ≠ .error e := by
  unfold sub
  split
  · exact nofun
  · simpa using h

theorem mul_ne_error {e : String} (h : "Panic(0x11)" ≠ e) : mul a b ≠ .error e := by
  unfold mul
  split
  · exact nofun
  · simpa using h

theorem div_ne_error {e : String} (h : "Panic(0x12)" ≠ e) : div a b ≠ .error e := by
  unfold div
  split
  · exact nofun
  · simpa using h

end Arithmetic

variable {σ : Type u} {ι : Type v} {ε : Type u}

/-- The state after a transaction. -/
def settle (s : σ) : Except ε σ → σ
  | .ok t => t
  | .error _ => s

def transact (call : σ → ι → Except ε σ) (s : σ) (i : ι) : σ := settle s (call s i)

/-- The state after the transactions of a run. -/
def run (call : σ → ι → Except ε σ) (s : σ) (is : List ι) : σ :=
  Machine.run (transact call) s is

/-- Every transaction of a run that does not revert meets `G` in the state it finds. -/
def Guarded (call : σ → ι → Except ε σ) (G : σ → ι → Prop) (s : σ) : List ι → Prop
  | [] => True
  | i :: is => ((call s i).isOk = true → G s i) ∧ Guarded call G (transact call s i) is

variable {call : σ → ι → Except ε σ} {G : σ → ι → Prop} {P : σ → Prop} {s : σ} {i : ι}
  {is : List ι}

@[simp] theorem run_nil : run call s [] = s := rfl

@[simp] theorem run_cons : run call s (i :: is) = run call (transact call s i) is := rfl

theorem transact_of_ok {t : σ} (h : call s i = .ok t) : transact call s i = t := by
  unfold transact
  rw [h]
  rfl

theorem transact_of_error {e : ε} (h : call s i = .error e) : transact call s i = s := by
  unfold transact
  rw [h]
  rfl

theorem transact_induction (h : P s) (hcall : ∀ t, call s i = .ok t → P t) :
    P (transact call s i) := by
  cases hrun : call s i with
  | error e => rwa [transact_of_error hrun]
  | ok t => exact transact_of_ok hrun ▸ hcall t hrun

/-- What every call that does not revert preserves, a run preserves. -/
theorem run_invariant (hcall : ∀ s i t, P s → call s i = .ok t → P t) (h : P s) (is : List ι) :
    P (run call s is) :=
  Machine.run_induction (fun s i hs => transact_induction hs (hcall s i · hs)) h is

theorem run_guarded (hcall : ∀ s i t, P s → G s i → call s i = .ok t → P t) (h : P s)
    (hG : Guarded call G s is) : P (run call s is) := by
  induction is generalizing s with
  | nil => exact h
  | cons i is ih =>
    refine ih (transact_induction h ?_) hG.2
    intro t ht
    exact hcall s i t h (hG.1 (ht ▸ rfl)) ht

/-- Where `G` is what a call needs to preserve `P`, the runs under `G` are the runs with `P`
all along.  `I` is what the calls preserve anyway. -/
theorem forall_prefix_iff_guarded_of {I : σ → Prop}
    (hcall : ∀ s i t, I s → P s → call s i = .ok t → I t ∧ (P t ↔ G s i)) (hI : I s) (h : P s) :
    (∀ before, before <+: is → P (run call s before)) ↔ Guarded call G s is := by
  have hnext : ∀ s i, I s → P s → I (transact call s i) := by
    intro s i hI h
    exact transact_induction hI fun t ht => (hcall s i t hI h ht).1
  constructor
  · intro hall
    induction is generalizing s with
    | nil => trivial
    | cons i is ih =>
      have hthere : P (transact call s i) := hall [i] (by simp)
      refine ⟨?_, ih (hnext s i hI h) hthere ?_⟩
      · intro hok
        cases hrun : call s i with
        | error e =>
          rw [hrun] at hok
          cases hok
        | ok t => exact (hcall s i t hI h hrun).2.mp (transact_of_ok hrun ▸ hthere)
      · intro before hle
        exact hall (i :: before) (by simpa using hle)
  · intro hG before hle
    induction before generalizing s is with
    | nil => exact h
    | cons i before ih =>
      obtain ⟨rest, rfl⟩ := hle
      refine ih (hnext s i hI h) (transact_induction h ?_) hG.2 (List.prefix_append _ _)
      intro t ht
      exact (hcall s i t hI h ht).2.mpr (hG.1 (ht ▸ rfl))

theorem forall_prefix_iff_guarded (hcall : ∀ s i t, P s → call s i = .ok t → (P t ↔ G s i))
    (h : P s) : (∀ before, before <+: is → P (run call s before)) ↔ Guarded call G s is :=
  forall_prefix_iff_guarded_of (I := fun _ => True)
    (fun s i t _ h ht => ⟨trivial, hcall s i t h ht⟩) trivial h

/-- Under an invariant, one condition on the calls of a run gives another. -/
theorem Guarded.mono_of {I : σ → Prop} {G' : σ → ι → Prop}
    (hcall : ∀ s i t, I s → G s i → call s i = .ok t → I t ∧ G' s i) (hI : I s)
    (hG : Guarded call G s is) : Guarded call G' s is := by
  induction is generalizing s with
  | nil => trivial
  | cons i is ih =>
    have hgood : ∀ t, call s i = .ok t → I t ∧ G' s i := by
      intro t ht
      exact hcall s i t hI (hG.1 (ht ▸ rfl)) ht
    refine ⟨?_, ih (transact_induction hI fun t ht => (hgood t ht).1) hG.2⟩
    intro hok
    cases hrun : call s i with
    | error e =>
      rw [hrun] at hok
      cases hok
    | ok t => exact (hgood t hrun).2

theorem guarded_congr_of {I : σ → Prop} {G' : σ → ι → Prop}
    (hcall : ∀ s i t, I s → call s i = .ok t → I t ∧ (G s i ↔ G' s i)) (hI : I s) :
    Guarded call G s is ↔ Guarded call G' s is := by
  constructor <;> apply Guarded.mono_of _ hI
  · intro s i t hs hG ht
    exact ⟨(hcall s i t hs ht).1, (hcall s i t hs ht).2.mp hG⟩
  · intro s i t hs hG ht
    exact ⟨(hcall s i t hs ht).1, (hcall s i t hs ht).2.mpr hG⟩

theorem guarded_true (call : σ → ι → Except ε σ) (s : σ) (is : List ι) :
    Guarded call (fun _ _ => True) s is := by
  induction is generalizing s with
  | nil => trivial
  | cons i is ih => exact ⟨fun _ => trivial, ih _⟩

def decidableGuarded [∀ s i, Decidable (G s i)] (s : σ) :
    (is : List ι) → Decidable (Guarded call G s is)
  | [] => .isTrue trivial
  | i :: is =>
    have := decidableGuarded (transact call s i) is
    inferInstanceAs (Decidable (((call s i).isOk = true → G s i) ∧ _))

instance [∀ s i, Decidable (G s i)] (s : σ) (is : List ι) : Decidable (Guarded call G s is) :=
  decidableGuarded s is

end Solidity
