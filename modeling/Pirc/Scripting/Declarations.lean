import Pirc.Scripting.Scopes

/-!
# Scripts: declarations

Where a local variable is declared, it is visible until its block ends: nothing that is done in
between takes a binding away, in the body itself or in aliases that it calls.

## Main results

* `Interpreter.Balances.knows`: what is visible stays visible
-/

namespace Pirc.Scripting

open Protocol (Str)

variable {F : Type}

/-! ## Declarations -/

/-- The local variables that a statement declares; an assignment does if `sets` holds. -/
def declarations (sets : Bool) : Statement F → List Str
  | .varDecl s => if s.global then [] else [s.name]
  | .set s => if sets && !s.global then [s.name] else []
  | _ => []

/-- The check that a local variable is read only behind its declaration, in the same block or in one
around it, and that only commands in `calls` are called. An assignment declares as well if `sets`
holds; else it has to be behind a declaration. -/
def declaredFirst (sets : Bool) (calls : Str → Prop) : BlockCheck F where
  expr place e := ∀ name ∈ e.locals, name ∈ place.declared
  leaf place
    | .command s => calls s.name ∧ ∀ name ∈ localsOfAll s.args, name ∈ place.declared
    | .varDecl s => ∀ name ∈ s.value.locals, name ∈ place.declared
    | .set s => (∀ name ∈ s.value.locals, name ∈ place.declared) ∧
        (sets = false → s.global = false → s.name ∈ place.declared)
    | .return_ s => ∀ e, s.value = some e → ∀ name ∈ e.locals, name ∈ place.declared
    | .exprStatement s => ∀ name ∈ s.expr.locals, name ∈ place.declared
    | .break_ _ | .continue_ _ => True
    | .if_ _ | .while_ _ => False
  declares := declarations sets

namespace Environment

theorem isSome_getLocal_iff {env : Environment F} {name : Str} :
    (env.getLocal name).isSome ↔
      (env.scope name).isSome ∨ ∃ scope ∈ env.outer, (scope name).isSome := by
  rw [getLocal, scopes, List.findSome?_isSome_iff]
  exact List.exists_mem_cons_iff ..

theorem isSome_getLocal_setLocal (env : Environment F) (name : Str) (value : Value F) :
    ((env.setLocal name value).getLocal name).isSome := by
  have hscope : (env.setLocal name value).scope name = some value := Function.update_self ..
  exact isSome_getLocal_iff.mpr (.inl (hscope ▸ rfl))

theorem isSome_getLocal_updateLocal (env : Environment F) (name : Str) (value : Value F)
    (h : (env.getLocal name).isSome) : ((env.updateLocal name value).getLocal name).isSome := by
  rw [isSome_getLocal_iff] at h ⊢
  rcases h with hscope | ⟨scope, hscope, hbound⟩
  · exact .inl (isSome_scope_updateLocal hscope)
  · have houter := (@forall₂_outer_updateLocal _ (fun _ => True) name) value trivial env
    obtain ⟨scope', hscope', hrebound⟩ := exists_rebound_of_mem houter hscope
    exact .inr ⟨scope', hscope', (hrebound.bound name).trans hbound⟩

end Environment

namespace Interpreter

variable [Platform F] {R H : Type}

/-- The aliases are these, and the variables are visible. -/
def Knows (aliases : Option (AliasRegistry F)) (names : List Str) (it : Interpreter F R H) : Prop :=
  it.aliases = aliases ∧ ∀ name ∈ names, (it.env.getLocal name).isSome

section Knows

variable {S : Str → Prop} {aliases : Option (AliasRegistry F)} {names : List Str} {α : Type}
  {it it' : Interpreter F R H}

theorem Kept.isSome_getLocal (h : Kept S it it') {name : Str}
    (hname : (it.env.getLocal name).isSome) : (it'.env.getLocal name).isSome := by
  rw [Environment.isSome_getLocal_iff] at hname ⊢
  rcases hname with hscope | ⟨scope, hscope, hbound⟩
  · exact .inl (h.scope name hscope)
  · obtain ⟨scope', hscope', hrebound⟩ := exists_rebound_of_mem h.outer hscope
    exact .inr ⟨scope', hscope', (hrebound.bound name).trans hbound⟩

theorem Knows.of_kept (h : Knows aliases names it) (hkept : Kept S it it') : Knows aliases names it' :=
  ⟨hkept.aliases.trans h.1, fun name hname => hkept.isSome_getLocal (h.2 name hname)⟩

theorem Balances.knows {x : Exec F R H α} (hx : Balances S aliases x) (h : Knows aliases names it)
    {a : α} (hrun : x it = some (.ok a, it')) : Knows aliases names it' :=
  h.of_kept (hx.ok hrun h.1)

theorem Knows.inner (h : Knows aliases names it) : Knows aliases names it.inner := by
  refine ⟨h.1, fun name hname => ?_⟩
  have hbound := h.2 name hname
  rw [Environment.isSome_getLocal_iff] at hbound ⊢
  rcases hbound with hscope | ⟨scope, hscope, hbound⟩
  · exact .inr ⟨_, List.mem_cons_self, hscope⟩
  · exact .inr ⟨scope, List.mem_cons_of_mem _ hscope, hbound⟩

/-- **What a statement declares is visible behind it.** -/
theorem isSome_of_execStmt {host : Host F R H} {runBody : List (Statement F) → Exec F R H (Value F)}
    {rounds : ℕ} {sets : Bool} {s : Statement F} {v : Value F}
    (hrun : execStmt host runBody rounds s it = some (.ok v, it')) :
    ∀ name ∈ declarations sets s, (it'.env.getLocal name).isSome := by
  intro name hname
  cases s with
  | varDecl s =>
    by_cases hglobal : s.global = true
    · simp [declarations, hglobal] at hname
    · have hself : name = s.name := by simpa [declarations, hglobal] using hname
      subst hself
      rcases Partial.of_bind_run hrun with ⟨e, -, heq⟩ | ⟨val, after, -, hrest⟩
      · cases heq
      · cases hrest
        dsimp only
        rw [if_neg hglobal]
        exact Environment.isSome_getLocal_setLocal ..
  | set s =>
    by_cases hglobal : s.global = true
    · simp [declarations, hglobal] at hname
    · have hself : name = s.name := by
        have hmem := hname
        simp only [declarations] at hmem
        split at hmem
        · exact List.mem_singleton.mp hmem
        · cases hmem
      subst hself
      rcases Partial.of_bind_run hrun with ⟨e, -, heq⟩ | ⟨val, after, -, hrest⟩
      · cases heq
      · cases hrest
        unfold assign
        rw [if_neg hglobal]
        split_ifs with hbound
        · exact Environment.isSome_getLocal_updateLocal _ _ _ hbound
        · exact Environment.isSome_getLocal_setLocal ..
  | _ => simp [declarations] at hname

end Knows

end Interpreter

end Pirc.Scripting
