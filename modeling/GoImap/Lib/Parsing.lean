import Mathlib.Data.List.Basic

/-!
# Parsers with a state

A parser changes its state, whether it returns a value or fails.  What it
returns from a given state is described by `Returns`, which follows the steps
of the parser.
-/

namespace Parsing

def Parser (σ ε α : Type) : Type := σ → Except ε α × σ

namespace Parser

variable {σ ε α β : Type}

instance : Monad (Parser σ ε) where
  pure a := fun s => (.ok a, s)
  bind p f := fun s =>
    match p s with
    | (.ok a, s) => f a s
    | (.error err, s) => (.error err, s)

def fail (err : ε) : Parser σ ε α := fun s => (.error err, s)

def Returns (p : Parser σ ε α) (s : σ) (a : α) (t : σ) : Prop := p s = (.ok a, t)

variable {p : Parser σ ε α} {f : α → Parser σ ε β} {s t u : σ} {a : α} {b : β}

@[simp] theorem returns_pure_iff {b : α} :
    (pure a : Parser σ ε α).Returns s b t ↔ a = b ∧ s = t := by
  simp [Returns, pure]

variable {err : ε}

@[simp] theorem not_returns_fail : ¬(fail err : Parser σ ε α).Returns s a t := by
  simp [Returns, fail]

theorem returns_bind_iff : (p >>= f).Returns s b u ↔
      ∃ a t, p.Returns s a t ∧ (f a).Returns t b u := by
  simp only [Returns, bind]
  rcases hp : p s with ⟨_ | a, t⟩
  · simp
  · simp

theorem Returns.bind (h : p.Returns s a t) (hf : (f a).Returns t b u) : (p >>= f).Returns s b u :=
  returns_bind_iff.mpr ⟨a, t, h, hf⟩

theorem bind_of_returns (h : p.Returns s a t) : (p >>= f) s = f a t := by
  rw [Returns] at h
  simp [bind, h]

theorem bind_of_fails (h : p s = (.error err, t)) : (p >>= f) s = (.error err, t) := by
  simp [bind, h]

/-! ## What is returned -/

def Yields (p : Parser σ ε α) (P : α → Prop) : Prop := ∀ s a t, p.Returns s a t → P a

theorem yields_true : p.Yields fun _ => True := fun _ _ _ _ => trivial

variable {P : α → Prop}

theorem Yields.pure (h : P a) : (pure a : Parser σ ε α).Yields P := by
  intro s b t hreturns
  obtain ⟨rfl, -⟩ := returns_pure_iff.mp hreturns
  exact h

theorem yields_fail : (fail err : Parser σ ε α).Yields P :=
  fun _ _ _ hreturns => absurd hreturns not_returns_fail

theorem Yields.bind {Q : β → Prop} (h : p.Yields P)
    (hf : ∀ a, P a → (f a).Yields Q) : (p >>= f).Yields Q := by
  intro s b u hreturns
  obtain ⟨a, t, hfirst, hrest⟩ := returns_bind_iff.mp hreturns
  exact hf a (h s a t hfirst) t b u hrest

/-! ## Loops -/

def separated (item : Parser σ ε α) (more : Parser σ ε Bool)
    (stuck : Parser σ ε (List α)) : Nat → Parser σ ε (List α)
  | 0 => stuck
  | fuel + 1 => do
      let first ← item
      if ← more then
        let rest ← separated item more stuck fuel
        pure (first :: rest)
      else pure [first]

variable {item : Parser σ ε α} {more : Parser σ ε Bool} {stuck : Parser σ ε (List α)}

theorem separated_succ_iff {fuel : Nat} {as : List α} :
    (separated item more stuck (fuel + 1)).Returns s as u ↔
      ∃ a t, item.Returns s a t ∧ (more.Returns t false u ∧ as = [a] ∨
          ∃ t' rest, more.Returns t true t' ∧ (separated item more stuck fuel).Returns t' rest u ∧
            as = a :: rest) := by
  rw [separated, returns_bind_iff]
  simp only [returns_bind_iff]
  constructor
  · rintro ⟨a, t, hitem, another, t', hmore, hrest⟩
    refine ⟨a, t, hitem, ?_⟩
    cases another with
    | false =>
      obtain ⟨rfl, rfl⟩ := returns_pure_iff.mp hrest
      exact .inl ⟨hmore, rfl⟩
    | true =>
      obtain ⟨rest, v, hloop, hpure⟩ := returns_bind_iff.mp hrest
      obtain ⟨rfl, rfl⟩ := returns_pure_iff.mp hpure
      exact .inr ⟨t', rest, hmore, hloop, rfl⟩
  · rintro ⟨a, t, hitem, ⟨hmore, rfl⟩ | ⟨t', rest, hmore, hloop, rfl⟩⟩
    · exact ⟨a, t, hitem, false, u, hmore, returns_pure_iff.mpr ⟨rfl, rfl⟩⟩
    · exact ⟨a, t, hitem, true, t', hmore, hloop.bind (returns_pure_iff.mpr ⟨rfl, rfl⟩)⟩

theorem forall_mem_separated (hitem : ∀ s a t, item.Returns s a t → P a)
    (hstuck : ∀ s as t, ¬stuck.Returns s as t) {fuel : Nat} {as : List α}
    (h : (separated item more stuck fuel).Returns s as t) : ∀ a ∈ as, P a := by
  induction fuel generalizing s as with
  | zero => exact absurd h (hstuck s as t)
  | succ fuel ih =>
    obtain ⟨a, middle, ha, ⟨-, rfl⟩ | ⟨_, rest, -, hrest, rfl⟩⟩ := separated_succ_iff.mp h
    · simpa using hitem s a middle ha
    · exact List.forall_mem_cons.mpr ⟨hitem s a middle ha, ih hrest⟩

end Parser

end Parsing
