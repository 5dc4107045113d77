import Mathlib.Tactic

/-!
# Extended Backus-Naur form

Grammars as their documentation writes them: each nonterminal has an expression over classes of
tokens and nonterminals, with alternatives, optional parts and repetitions. Derivations are counted
by how deep the nonterminals nest, so that a fact about all derivations is an induction on that
depth, with one case for each nonterminal.

## Main results

* `derivesIn_seq`, `derivesIn_alt`, `derivesIn_opt`, `derivesIn_rep`: derivations by the form of the
  expression
* `DerivesIn.mono`, `Derives.seq`, `Derives.rep`: derivations put together
-/

universe u v

/-- An expression over tokens `τ` and nonterminals `ν`. A terminal is a class of tokens. -/
inductive Ebnf (τ : Type u) (ν : Type v)
  | terminal (kind : τ → Prop)
  | nonterminal (n : ν)
  | seq (e f : Ebnf τ ν)
  | alt (e f : Ebnf τ ν)
  | opt (e : Ebnf τ ν)
  | rep (e : Ebnf τ ν)

namespace Ebnf

variable {τ : Type u} {ν : Type v}

def token (t : τ) : Ebnf τ ν := .terminal (· = t)

instance : Append (Ebnf τ ν) := ⟨seq⟩

instance : OrOp (Ebnf τ ν) := ⟨alt⟩

/-- The tokens that an expression derives, with nonterminals nested no deeper than `k`. -/
inductive DerivesIn (rules : ν → Ebnf τ ν) : ℕ → Ebnf τ ν → List τ → Prop
  | terminal {k kind t} (h : kind t) : DerivesIn rules k (.terminal kind) [t]
  | nonterminal {k n ts} (h : DerivesIn rules k (rules n) ts) :
      DerivesIn rules (k + 1) (.nonterminal n) ts
  | seq {k e f ts us} (he : DerivesIn rules k e ts) (hf : DerivesIn rules k f us) :
      DerivesIn rules k (.seq e f) (ts ++ us)
  | altLeft {k e f ts} (h : DerivesIn rules k e ts) : DerivesIn rules k (.alt e f) ts
  | altRight {k e f ts} (h : DerivesIn rules k f ts) : DerivesIn rules k (.alt e f) ts
  | optNone {k e} : DerivesIn rules k (.opt e) []
  | optSome {k e ts} (h : DerivesIn rules k e ts) : DerivesIn rules k (.opt e) ts
  | repNil {k e} : DerivesIn rules k (.rep e) []
  | repCons {k e ts us} (he : DerivesIn rules k e ts) (hrest : DerivesIn rules k (.rep e) us) :
      DerivesIn rules k (.rep e) (ts ++ us)

/-- **What an expression derives.** -/
def Derives (rules : ν → Ebnf τ ν) (e : Ebnf τ ν) (ts : List τ) : Prop :=
  ∃ k, DerivesIn rules k e ts

variable {rules : ν → Ebnf τ ν} {k : ℕ} {e f : Ebnf τ ν} {ts us : List τ}

/-! ## Derivations by the form of the expression -/

@[simp] theorem derivesIn_terminal {kind : τ → Prop} :
    DerivesIn rules k (.terminal kind) ts ↔ ∃ t, kind t ∧ ts = [t] := by
  constructor
  · rintro ⟨h⟩
    exact ⟨_, h, rfl⟩
  · rintro ⟨t, h, rfl⟩
    exact .terminal h

@[simp] theorem derivesIn_token {t : τ} : DerivesIn rules k (token t) ts ↔ ts = [t] := by
  simp [token]

@[simp] theorem not_derivesIn_zero {n : ν} : ¬ DerivesIn rules 0 (.nonterminal n) ts := by
  rintro ⟨⟩

@[simp] theorem derivesIn_nonterminal {n : ν} :
    DerivesIn rules (k + 1) (.nonterminal n) ts ↔ DerivesIn rules k (rules n) ts := by
  constructor
  · rintro ⟨⟩
    assumption
  · exact .nonterminal

@[simp] theorem derivesIn_seq :
    DerivesIn rules k (e ++ f) ts ↔
      ∃ us vs, DerivesIn rules k e us ∧ DerivesIn rules k f vs ∧ ts = us ++ vs := by
  constructor
  · rintro ⟨⟩
    exact ⟨_, _, ‹_›, ‹_›, rfl⟩
  · rintro ⟨us, vs, he, hf, rfl⟩
    exact .seq he hf

@[simp] theorem derivesIn_alt :
    DerivesIn rules k (e ||| f) ts ↔ DerivesIn rules k e ts ∨ DerivesIn rules k f ts := by
  constructor
  · rintro ⟨⟩
    · exact .inl ‹_›
    · exact .inr ‹_›
  · rintro (h | h)
    · exact .altLeft h
    · exact .altRight h

@[simp] theorem derivesIn_opt :
    DerivesIn rules k (.opt e) ts ↔ ts = [] ∨ DerivesIn rules k e ts := by
  constructor
  · rintro ⟨⟩
    · exact .inl rfl
    · exact .inr ‹_›
  · rintro (rfl | h)
    · exact .optNone
    · exact .optSome h

@[simp] theorem derivesIn_rep :
    DerivesIn rules k (.rep e) ts ↔
      ∃ words : List (List τ), (∀ word ∈ words, DerivesIn rules k e word) ∧ ts = words.flatten := by
  constructor
  · intro h
    generalize he : Ebnf.rep e = r at h
    -- along the repetition, with its body fixed
    induction h with
    | repNil => exact ⟨[], by simp, rfl⟩
    | repCons hword _ _ ih =>
      cases he
      obtain ⟨words, hwords, rfl⟩ := ih rfl
      exact ⟨_ :: words, List.forall_mem_cons.mpr ⟨hword, hwords⟩, rfl⟩
    | _ => cases he
  · rintro ⟨words, hwords, rfl⟩
    induction words with
    | nil => exact .repNil
    | cons word words ih =>
      rw [List.forall_mem_cons] at hwords
      exact .repCons hwords.1 (ih hwords.2)

/-! ## Derivations put together -/

theorem DerivesIn.mono {m : ℕ} (h : DerivesIn rules k e ts) (hle : k ≤ m) :
    DerivesIn rules m e ts := by
  induction h generalizing m with
  | terminal h => exact .terminal h
  | nonterminal _ ih =>
    obtain ⟨m, rfl⟩ : ∃ m', m = m' + 1 := ⟨m - 1, by omega⟩
    exact .nonterminal (ih (by omega))
  | seq _ _ ihe ihf => exact .seq (ihe hle) (ihf hle)
  | altLeft _ ih => exact .altLeft (ih hle)
  | altRight _ ih => exact .altRight (ih hle)
  | optNone => exact .optNone
  | optSome _ ih => exact .optSome (ih hle)
  | repNil => exact .repNil
  | repCons _ _ ihe ihrest => exact .repCons (ihe hle) (ihrest hle)

theorem DerivesIn.unfold {n : ν} (h : DerivesIn rules k (.nonterminal n) ts) :
    DerivesIn rules k (rules n) ts := by
  cases h with
  | nonterminal h => exact h.mono (Nat.le_succ _)

theorem Derives.terminal {kind : τ → Prop} {t : τ} (h : kind t) :
    Derives rules (.terminal kind) [t] := ⟨0, .terminal h⟩

theorem Derives.token (t : τ) : Derives rules (token t) [t] := .terminal rfl

theorem Derives.nonterminal {n : ν} (h : Derives rules (rules n) ts) :
    Derives rules (.nonterminal n) ts :=
  let ⟨k, h⟩ := h
  ⟨k + 1, .nonterminal h⟩

theorem Derives.seq (he : Derives rules e ts) (hf : Derives rules f us) :
    Derives rules (e ++ f) (ts ++ us) := by
  obtain ⟨k, he⟩ := he
  obtain ⟨m, hf⟩ := hf
  exact ⟨max k m, .seq (he.mono (le_max_left k m)) (hf.mono (le_max_right k m))⟩

theorem Derives.altLeft (h : Derives rules e ts) : Derives rules (e ||| f) ts :=
  let ⟨k, h⟩ := h
  ⟨k, .altLeft h⟩

theorem Derives.altRight (h : Derives rules f ts) : Derives rules (e ||| f) ts :=
  let ⟨k, h⟩ := h
  ⟨k, .altRight h⟩

theorem Derives.optNone : Derives rules (.opt e) [] := ⟨0, .optNone⟩

theorem Derives.repCons (he : Derives rules e ts) (hrest : Derives rules (.rep e) us) :
    Derives rules (.rep e) (ts ++ us) := by
  obtain ⟨k, he⟩ := he
  obtain ⟨m, hrest⟩ := hrest
  exact ⟨max k m, .repCons (he.mono (le_max_left k m)) (hrest.mono (le_max_right k m))⟩

theorem Derives.rep {words : List (List τ)} (h : ∀ word ∈ words, Derives rules e word) :
    Derives rules (.rep e) words.flatten := by
  induction words with
  | nil => exact ⟨0, .repNil⟩
  | cons word words ih =>
    rw [List.forall_mem_cons] at h
    exact .repCons h.1 (ih h.2)

end Ebnf
