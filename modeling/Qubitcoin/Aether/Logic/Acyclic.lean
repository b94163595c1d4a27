import Qubitcoin.Aether.Logic.Compose

/-! Bindings that lead from no variable back to it, and when a composition keeps them so. -/

namespace Qubitcoin.Aether.Logic

open Filter Fuel Relation Substitution

namespace Bindings

variable {s base other composed : Bindings} {σ τ : VarId → Term} {v w : VarId} {t r : Term}

/-- Following the bindings ends. -/
def Solved (s : Bindings) : Prop := ∃ σ, s.Resolves σ

/-- The term of `v` mentions `w`. -/
def Binds (s : Bindings) (v w : VarId) : Prop :=
  ∃ t, s.lookup v = some t ∧ t.containsVar w = true

def Acyclic (s : Bindings) : Prop := ∀ v, ¬TransGen s.Binds v v

theorem exists_returns_substitute
    (h : ∀ w, t.containsVar w = true → ∃ r, Returns (s.resolve · w) r) :
    ∃ r, Returns (t.substitute s) r := by
  have hanswers (w : VarId) : ∃ r, t.containsVar w = true → Returns (s.resolve · w) r := by
    by_cases hw : t.containsVar w = true
    · obtain ⟨r, hr⟩ := h w hw
      exact ⟨r, fun _ => hr⟩
    · exact ⟨.var w, fun h => absurd h hw⟩
  choose θ hθ using hanswers
  have hall : ∀ᶠ fuel in atTop, ∀ w, t.containsVar w = true → s.resolve fuel w = some (θ w) :=
    eventually_all.mpr fun w => eventually_imp_distrib_left.mpr (hθ w)
  refine ⟨t.subst θ, ?_⟩
  filter_upwards [hall] with fuel hfuel
  exact Term.traverse_eq_subst hfuel

theorem exists_returns_of_bound (hv : s.lookup v = some t)
    (h : ∀ w, t.containsVar w = true → ∃ r, Returns (s.resolve · w) r) :
    ∃ r, Returns (s.resolve · v) r := by
  obtain ⟨r, hr⟩ := exists_returns_substitute h
  refine ⟨r, returns_succ_iff.mp ?_⟩
  simp only [resolve_succ_of_lookup hv]
  exact hr

theorem exists_returns_of_unbound (hv : s.lookup v = none) : ∃ r, Returns (s.resolve · v) r :=
  ⟨.var v, .of_forall (resolve_of_lookup_none hv)⟩

theorem solved_iff_returns : s.Solved ↔ ∀ v, ∃ r, Returns (s.resolve · v) r :=
  ⟨fun ⟨σ, hσ⟩ v => ⟨σ v, hσ v⟩, fun h => by
    choose σ hσ using h
    exact ⟨σ, hσ⟩⟩

/-- A relation on the variables without a cycle can be followed by induction, there being finitely
many of them. -/
theorem wellFounded_of_acyclic {R : VarId → VarId → Prop} (h : ∀ v, ¬TransGen R v v) :
    WellFounded (Function.swap R) := by
  have hirrefl : Std.Irrefl (TransGen (Function.swap R)) := ⟨fun v hv => h v (transGen_swap.mp hv)⟩
  exact (Finite.wellFounded_of_trans_of_irrefl (TransGen (Function.swap R))).mono
    fun _ _ => TransGen.single

/-- The least fuel that answers for a variable gets smaller along the bindings. -/
theorem Solved.acyclic (h : s.Solved) : s.Acyclic := by
  classical
  obtain ⟨σ, hσ⟩ := h
  have hexists (v : VarId) : ∃ fuel, s.resolve fuel v = some (σ v) := (hσ v).exists_fuel
  have hless {v w : VarId} (hvw : s.Binds v w) : Nat.find (hexists w) < Nat.find (hexists v) := by
    obtain ⟨t, hv, hw⟩ := hvw
    obtain ⟨hnone, -⟩ | ⟨t', n, hn, hlookup, hsub⟩ := resolve_eq_some (Nat.find_spec (hexists v))
    · rw [hnone] at hv
      cases hv
    · rw [hv, Option.some.injEq] at hlookup
      subst hlookup
      obtain ⟨u, hu⟩ := Term.exists_of_traverse hsub w hw
      rw [hn, Nat.lt_add_one_iff]
      apply Nat.find_min'
      rw [hu, hσ.eq_of_resolve hu]
  intro v hcycle
  have hdecreases : ∀ w, TransGen s.Binds v w → Nat.find (hexists w) < Nat.find (hexists v) := by
    intro w hvw
    induction hvw with
    | single h => exact hless h
    | tail _ h ih => exact (hless h).trans ih
  exact lt_irrefl _ (hdecreases v hcycle)

theorem Acyclic.solved (h : s.Acyclic) : s.Solved := by
  rw [solved_iff_returns]
  intro v
  induction v using (wellFounded_of_acyclic h).induction with
  | _ v ih =>
    cases hv : s.lookup v with
    | none => exact exists_returns_of_unbound hv
    | some t => exact exists_returns_of_bound hv fun w hw => ih w ⟨t, hv, hw⟩

/-- `base` binds `w`, and following `other` in the term it binds `v` to meets `w`. -/
def Loops (base other : Bindings) (v w : VarId) : Prop :=
  (∃ u, base.lookup w = some u) ∧ ∃ t fuel r, base.lookup v = some t ∧
    t.substitute other fuel = some r ∧ r.containsVar w = true

/-- No variable that `base` binds comes back to itself so. -/
def Unlooped (base other : Bindings) : Prop := ∀ v, ¬TransGen (Loops base other) v v

theorem acyclic_compose_iff (hother : other.Solved) (hcomposed : Returns (compose base other) composed) :
    composed.Acyclic ↔ Unlooped base other := by
  obtain ⟨τ, hτ⟩ := hother
  obtain ⟨result, hresult, hlookup⟩ := returns_compose base hτ
  rw [hcomposed.unique hresult]
  constructor
  · intro hacyclic v hcycle
    refine hacyclic v (TransGen.mono (fun x y hxy => ?_) v v hcycle)
    obtain ⟨-, t, fuel, r, hx, hr, hy⟩ := hxy
    refine ⟨t.subst τ, by rw [hlookup, hx]; rfl, ?_⟩
    rwa [hτ.eq_of_substitute hr]
  · intro hunlooped
    apply Solved.acyclic
    -- first the variables that `base` binds, then what `other` adds
    have hbound (v : VarId) (t : Term) (hv : base.lookup v = some t) :
        ∃ r, Returns (result.resolve · v) r := by
      induction v using (wellFounded_of_acyclic hunlooped).induction generalizing t with
      | _ v ih =>
        refine exists_returns_of_bound (t := t.subst τ) (by rw [hlookup, hv]; rfl) fun w hw => ?_
        cases hwbase : base.lookup w with
        | some u =>
          obtain ⟨fuel, hfuel⟩ := (hτ.substitute t).exists_fuel
          exact ih w ⟨⟨u, hwbase⟩, t, fuel, _, hv, hfuel, hw⟩ u hwbase
        | none =>
          apply exists_returns_of_unbound
          rw [hlookup, hwbase, hτ.unbound hw]
          rfl
    rw [solved_iff_returns]
    intro v
    obtain ⟨fuel, hfuel⟩ := (hτ v).exists_fuel
    refine resolve_induction (s := other)
      (P := fun _ v _ => ∃ r, Returns (result.resolve · v) r) ?_ ?_ hfuel
    · intro n v hv
      cases hbase : base.lookup v with
      | some t => exact hbound v t hbase
      | none =>
        apply exists_returns_of_unbound
        rw [hlookup, hbase, hv]
        rfl
    · intro n v t θ hv ih
      cases hbase : base.lookup v with
      | some u => exact hbound v u hbase
      | none =>
        refine exists_returns_of_bound (t := t) ?_ fun w hw => (ih w hw).2
        rw [hlookup, hbase, hv]
        rfl

end Bindings

end Qubitcoin.Aether.Logic
