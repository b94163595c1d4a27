import Mathlib

/-! Commands over a state.  A command that fails keeps the changes it has made, so
a guarantee relates the state before a command to the one it leaves either way. -/

universe u v

/-- A relation between the states before and after that commands compose along. -/
structure Guarantee (σ : Type u) where
  rel : σ → σ → Prop
  refl : ∀ s, rel s s
  trans : ∀ {s t r}, rel s t → rel t r → rel s r

namespace Guarantee

variable {σ : Type u} {ο : Type v}

/-- What is observed of the state stays. -/
def fixing (f : σ → ο) : Guarantee σ where
  rel s t := f t = f s
  refl _ := rfl
  trans h h' := Eq.trans h' h

/-- What holds stays true. -/
def preserving (P : σ → Prop) : Guarantee σ where
  rel s t := P s → P t
  refl _ h := h
  trans h h' hs := h' (h hs)

end Guarantee

abbrev Command (ε σ α : Type u) := EStateM ε σ α

namespace Command

variable {ε σ α β : Type u}

/-- The state a command leaves. -/
def left : EStateM.Result ε σ α → σ
  | .ok _ s => s
  | .error _ s => s

theorem bind_ok {x : Command ε σ α} {f : α → Command ε σ β} {s t : σ} {a : α}
    (h : x s = .ok a t) : (x >>= f) s = f a t := by
  change EStateM.bind x f s = _
  rw [EStateM.bind, h]

theorem bind_error {x : Command ε σ α} {f : α → Command ε σ β} {s t : σ} {e : ε}
    (h : x s = .error e t) : (x >>= f) s = .error e t := by
  change EStateM.bind x f s = _
  rw [EStateM.bind, h]

theorem of_bind_ok {x : Command ε σ α} {f : α → Command ε σ β} {s t : σ} {b : β}
    (h : (x >>= f) s = .ok b t) : ∃ a r, x s = .ok a r ∧ f a r = .ok b t := by
  cases hx : x s with
  | ok a r =>
    rw [bind_ok hx] at h
    exact ⟨a, r, rfl, h⟩
  | error e r =>
    rw [bind_error hx] at h
    cases h

def Keeps (G : Guarantee σ) (x : Command ε σ α) : Prop := ∀ s, G.rel s (left (x s))

namespace Keeps

variable {G : Guarantee σ}

theorem pure (a : α) : Keeps G (pure a : Command ε σ α) := fun s => G.refl s

theorem throw (e : ε) : Keeps G (throw e : Command ε σ α) := fun s => G.refl s

theorem get : Keeps G (get : Command ε σ σ) := fun s => G.refl s

theorem modify {f : σ → σ} (h : ∀ s, G.rel s (f s)) :
    Keeps G (modify f : Command ε σ PUnit) := h

theorem bind {x : Command ε σ α} {f : α → Command ε σ β} (hx : Keeps G x)
    (hf : ∀ a, Keeps G (f a)) : Keeps G (x >>= f) := by
  intro s
  have hs := hx s
  cases hrun : x s with
  | ok a t =>
    rw [hrun] at hs
    rw [bind_ok hrun]
    exact G.trans hs (hf a t)
  | error e t =>
    rw [hrun] at hs
    rw [bind_error hrun]
    exact hs

theorem map {x : Command ε σ α} {f : α → β} (hx : Keeps G x) : Keeps G (f <$> x) :=
  bind hx fun a => pure (f a)

theorem ite {c : Prop} [Decidable c] {x y : Command ε σ α} (hx : Keeps G x) (hy : Keeps G y) :
    Keeps G (if c then x else y) := by
  split
  · exact hx
  · exact hy

theorem forM {ι : Type v} {x : ι → Command ε σ PUnit} (hx : ∀ i, Keeps G (x i)) (is : List ι) :
    Keeps G (is.forM x) := by
  induction is with
  | nil => exact .pure _
  | cons i is ih => exact (hx i).bind fun _ => ih

theorem imp {G' : Guarantee σ} {x : Command ε σ α} (h : Keeps G x)
    (hG : ∀ s t, G.rel s t → G'.rel s t) : Keeps G' x := fun s => hG s _ (h s)

theorem of_ok {x : Command ε σ α} (h : Keeps G x) {s t : σ} {a : α} (hx : x s = .ok a t) :
    G.rel s t := by
  have hs := h s
  rw [hx] at hs
  exact hs

theorem of_error {x : Command ε σ α} (h : Keeps G x) {s t : σ} {e : ε}
    (hx : x s = .error e t) : G.rel s t := by
  have hs := h s
  rw [hx] at hs
  exact hs

end Keeps

attribute [grind ←] Keeps.pure Keeps.bind Keeps.map

/-- Whatever makes the command fail meets `P`. -/
def FailsOnly (P : ε → Prop) (x : Command ε σ α) : Prop := ∀ s e t, x s = .error e t → P e

namespace FailsOnly

variable {P : ε → Prop}

theorem pure (a : α) : FailsOnly P (pure a : Command ε σ α) := by
  intro s e t h
  cases h

theorem bind {x : Command ε σ α} {f : α → Command ε σ β} (hx : FailsOnly P x)
    (hf : ∀ a, FailsOnly P (f a)) : FailsOnly P (x >>= f) := by
  intro s e t h
  cases hrun : x s with
  | ok a r =>
    rw [bind_ok hrun] at h
    exact hf a r e t h
  | error e' r =>
    rw [bind_error hrun] at h
    cases h
    exact hx s e t hrun

theorem map {x : Command ε σ α} {f : α → β} (hx : FailsOnly P x) : FailsOnly P (f <$> x) :=
  bind hx fun a => pure (f a)

theorem ite {c : Prop} [Decidable c] {x y : Command ε σ α} (hx : FailsOnly P x)
    (hy : FailsOnly P y) : FailsOnly P (if c then x else y) := by
  split
  · exact hx
  · exact hy

end FailsOnly

attribute [grind ←] FailsOnly.pure FailsOnly.bind FailsOnly.map

/-- A triple with one condition for the value returned and one for an error. -/
def Ensures (P : σ → Prop) (x : Command ε σ α) (Q : α → σ → Prop) (E : σ → Prop) : Prop :=
  ∀ s, P s →
    match x s with
    | .ok a t => Q a t
    | .error _ t => E t

namespace Ensures

variable {P : σ → Prop} {Q : α → σ → Prop} {R : β → σ → Prop} {E : σ → Prop}

theorem of_ok {x : Command ε σ α} (h : Ensures P x Q E) {s t : σ} {a : α} (hs : P s)
    (hx : x s = .ok a t) : Q a t := by
  have hrun := h s hs
  rw [hx] at hrun
  exact hrun

theorem of_error {x : Command ε σ α} (h : Ensures P x Q E) {s t : σ} {e : ε} (hs : P s)
    (hx : x s = .error e t) : E t := by
  have hrun := h s hs
  rw [hx] at hrun
  exact hrun

theorem pure {a : α} (h : ∀ s, P s → Q a s) : Ensures P (pure a : Command ε σ α) Q E := h

theorem bind {x : Command ε σ α} {f : α → Command ε σ β} (hx : Ensures P x Q E)
    (hf : ∀ a, Ensures (Q a) (f a) R E) : Ensures P (x >>= f) R E := by
  intro s hs
  cases hrun : x s with
  | ok a t =>
    rw [bind_ok hrun]
    exact hf a t (hx.of_ok hs hrun)
  | error e t =>
    rw [bind_error hrun]
    exact hx.of_error hs hrun

theorem mono {x : Command ε σ α} {P' : σ → Prop} {Q' : α → σ → Prop} {E' : σ → Prop}
    (h : Ensures P x Q E) (hP : ∀ s, P' s → P s) (hQ : ∀ a s, Q a s → Q' a s)
    (hE : ∀ s, E s → E' s) : Ensures P' x Q' E' := by
  intro s hs
  cases hrun : x s with
  | ok a t => exact hQ a t (h.of_ok (hP s hs) hrun)
  | error e t => exact hE t (h.of_error (hP s hs) hrun)

theorem of_keeps {x : Command ε σ α} (h : Keeps (.preserving P) x) :
    Ensures P x (fun _ => P) P := by
  intro s hs
  cases hrun : x s with
  | ok a t => exact h.of_ok hrun hs
  | error e t => exact h.of_error hrun hs

theorem keeps {x : Command ε σ α} (h : Ensures P x (fun _ => P) P) :
    Keeps (.preserving P) x := by
  intro s hs
  cases hrun : x s with
  | ok a t => exact h.of_ok hs hrun
  | error e t => exact h.of_error hs hrun

theorem ite {c : Prop} [Decidable c] {x y : Command ε σ α} (hx : c → Ensures P x Q E)
    (hy : ¬c → Ensures P y Q E) : Ensures P (if c then x else y) Q E := by
  split
  · next hc => exact hx hc
  · next hc => exact hy hc

/-- After the state is read, it is known. -/
theorem get_bind {f : σ → Command ε σ β} (h : ∀ s, P s → Ensures (· = s) (f s) R E) :
    Ensures P (get >>= f) R E := fun s hs => h s hs s rfl

theorem modify_bind {f : σ → σ} {x : PUnit → Command ε σ β}
    (h : ∀ s, P s → Ensures (· = f s) (x ⟨⟩) R E) : Ensures P (modify f >>= x) R E :=
  fun s hs => h s hs (f s) rfl

end Ensures

/-- The command keeps `P` also when it fails, and what it returns meets `Q`. -/
def Maintains (P : σ → Prop) (x : Command ε σ α) (Q : α → Prop) : Prop :=
  Ensures P x (fun a s => P s ∧ Q a) P

namespace Maintains

variable {P : σ → Prop} {Q : α → Prop} {R : β → Prop}

theorem pure {a : α} (h : Q a) : Maintains P (pure a : Command ε σ α) Q := fun _ hs => ⟨hs, h⟩

theorem throw (e : ε) : Maintains P (throw e : Command ε σ α) Q := fun _ hs => hs

theorem get : Maintains P (get : Command ε σ σ) P := fun _ hs => ⟨hs, hs⟩

theorem modify {f : σ → σ} (h : ∀ s, P s → P (f s)) :
    Maintains P (modify f : Command ε σ PUnit) fun _ => True := fun s hs => ⟨h s hs, trivial⟩

theorem set {s : σ} (h : P s) : Maintains P (set s : Command ε σ PUnit) fun _ => True :=
  fun _ _ => ⟨h, trivial⟩

theorem bind {x : Command ε σ α} {f : α → Command ε σ β} (hx : Maintains P x Q)
    (hf : ∀ a, Q a → Maintains P (f a) R) : Maintains P (x >>= f) R := by
  apply Ensures.bind hx
  rintro a s ⟨hs, ha⟩
  exact hf a ha s hs

theorem ite {c : Prop} [Decidable c] {x y : Command ε σ α} (hx : Maintains P x Q)
    (hy : Maintains P y Q) : Maintains P (if c then x else y) Q :=
  Ensures.ite (fun _ => hx) fun _ => hy

theorem of_keeps {x : Command ε σ α} (h : Keeps (.preserving P) x) :
    Maintains P x fun _ => True :=
  (Ensures.of_keeps h).mono (fun _ hs => hs) (fun _ _ hs => ⟨hs, trivial⟩) fun _ hs => hs

end Maintains

/-- Each command of a list is run in a state that meets its condition. -/
def Guarded {ι : Type v} (C : ι → σ → Prop) (x : ι → Command ε σ PUnit) : List ι → σ → Prop
  | [], _ => True
  | i :: is, s => C i s ∧ ∀ t, x i s = .ok ⟨⟩ t → Guarded C x is t

instance Guarded.decidable {ι : Type v} {C : ι → σ → Prop} {x : ι → Command ε σ PUnit}
    [∀ i s, Decidable (C i s)] : ∀ is s, Decidable (Guarded C x is s)
  | [], _ => .isTrue trivial
  | i :: is, s =>
    let rest : Decidable (∀ t, x i s = .ok ⟨⟩ t → Guarded C x is t) :=
      match h : x i s with
      | .ok ⟨⟩ t =>
        match Guarded.decidable is t with
        | .isTrue ht => .isTrue fun t' heq => by cases heq; exact ht
        | .isFalse ht => .isFalse fun hall => ht (hall t rfl)
      | .error _ _ => .isTrue fun t' heq => by cases heq
    inferInstanceAs (Decidable (C i s ∧ ∀ t, x i s = .ok ⟨⟩ t → Guarded C x is t))

/-- What each command preserves under its condition, the list of them preserves. -/
theorem Guarded.forM {ι : Type v} {C : ι → σ → Prop} {x : ι → Command ε σ PUnit} {P : σ → Prop}
    (hstep : ∀ i s t, P s → C i s → x i s = .ok ⟨⟩ t → P t) {is : List ι} {s t : σ}
    (hguard : Guarded C x is s) (hs : P s) (hrun : is.forM x s = .ok ⟨⟩ t) : P t := by
  induction is generalizing s with
  | nil =>
    cases hrun
    exact hs
  | cons i is ih =>
    change (x i >>= fun _ => is.forM x) s = _ at hrun
    obtain ⟨⟨⟩, r, hfirst, hrest⟩ := of_bind_ok hrun
    exact ih (hguard.2 r hfirst) (hstep i s r hs hguard.1 hfirst) hrest

end Command
