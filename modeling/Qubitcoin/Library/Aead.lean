import Mathlib

/-! Ideal authenticated encryption.  What has been sealed is on record, and nothing but
what is on record under a key and a nonce opens under them. -/

universe u v w x

namespace Aead

structure Sealed (K : Type u) (N : Type v) (P : Type w) (C : Type x) where
  key : K
  nonce : N
  plaintext : P
  ciphertext : C

variable {K : Type u} {N : Type v} {P : Type w} {C : Type x}

def Sealed.use (e : Sealed K N P C) : K × N := (e.key, e.nonce)

variable [DecidableEq K] [DecidableEq N] [DecidableEq C]

def Sealed.opens (key : K) (nonce : N) (ciphertext : C) (e : Sealed K N P C) : Bool :=
  e.key = key ∧ e.nonce = nonce ∧ e.ciphertext = ciphertext

def recover (record : List (Sealed K N P C)) (key : K) (nonce : N) (ciphertext : C) : Option P :=
  (record.find? (Sealed.opens key nonce ciphertext)).map Sealed.plaintext

theorem exists_of_recover {record : List (Sealed K N P C)} {key : K} {nonce : N}
    {ciphertext : C} {plaintext : P}
    (h : recover record key nonce ciphertext = some plaintext) :
    ∃ e ∈ record, e.key = key ∧ e.nonce = nonce ∧ e.plaintext = plaintext := by
  obtain ⟨e, hfind, rfl⟩ := Option.map_eq_some_iff.mp h
  have hopens : e.opens key nonce ciphertext = true := List.find?_some hfind
  simp only [Sealed.opens, decide_eq_true_eq] at hopens
  exact ⟨e, List.mem_of_find?_eq_some hfind, hopens.1, hopens.2.1, rfl⟩

end Aead
