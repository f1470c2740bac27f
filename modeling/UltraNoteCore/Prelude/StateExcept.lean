import Mathlib.Logic.Basic

/-!
# Runs and invariants of state-and-exception programs

`EStateM ε σ` is the semantics of imperative code over an object of type `σ` that may throw:
a run returns a value or an exception, and in both cases the state it reached, so a throw in
the middle of an update leaves the object half updated, as a C++ exception does.

A program *preserves* a predicate on states when, started in a state that satisfies it, it
ends in one that does, whether it returns or throws. A frame condition ("this call never
touches that field") is the preservation of an equation, so one rule set serves for both.

## Main definitions

* `EStateM.Result.state`: the state a run ends in
* `EStateM.Preserves`: the predicate holds after a run from any state where it holds
* `EStateM.Keeps`: a projection of the state is the same after a run as before
* `EStateM.Leads`: a run from a state satisfying one predicate ends in one satisfying another
* `EStateM.Returns`: every value a run returns satisfies a predicate

## Main results

* `EStateM.run_bind_eq_ok`, `EStateM.run_bind_eq_error`: the inversion of a sequenced run
* `EStateM.Preserves.pure`, `.get`, `.set`, `.modify`, `.throw`, `.bind`, `.ite`, `.forM`: the
  rules of preservation for the statement forms
* `EStateM.Keeps.pure`, `.throw`, `.modify`, `.ofExcept`, `.bind`, `.get_bind`, `.ite`: the
  frame rules
* `EStateM.Leads.mono`, `.bind`, `.bind_returns`: the rules of consequence and sequencing
  between predicates, the last one using what the first part returns
-/

namespace EStateM

universe u

variable {ε σ α β : Type u}

/-- The state a run ends in, whether it returned or threw. -/
def Result.state : Result ε σ α → σ
  | .ok _ s => s
  | .error _ s => s

@[simp] theorem Result.state_ok (a : α) (s : σ) : (Result.ok a s : Result ε σ α).state = s := rfl

@[simp] theorem Result.state_error (e : ε) (s : σ) :
    (Result.error e s : Result ε σ α).state = s := rfl

/-- The value a run returned, `none` if it threw. -/
def Result.value? : Result ε σ α → Option α
  | .ok a _ => some a
  | .error _ _ => none

@[simp] theorem Result.value?_ok (a : α) (s : σ) :
    (Result.ok a s : Result ε σ α).value? = some a := rfl

@[simp] theorem Result.value?_error (e : ε) (s : σ) :
    (Result.error e s : Result ε σ α).value? = none := rfl

/-- A run that returned `a` is the result `ok a` in the state it ended in. -/
theorem Result.eq_ok_of_value? {r : Result ε σ α} {a : α} (h : r.value? = some a) :
    r = .ok a r.state := by
  cases r with
  | ok b s => cases h; rfl
  | error e s => cases h

/-! ## Inversion of a sequenced run -/

/-- A sequenced run returns exactly when its first part returns and its continuation, started
where the first part ended, returns. -/
theorem run_bind_eq_ok {x : EStateM ε σ α} {f : α → EStateM ε σ β} {s s' : σ} {b : β} :
    (x >>= f).run s = .ok b s' ↔ ∃ a t, x.run s = .ok a t ∧ (f a).run t = .ok b s' := by
  rw [run_bind]
  cases x.run s with
  | ok a t =>
    simp only [Result.ok.injEq]
    exact ⟨fun h => ⟨a, t, ⟨rfl, rfl⟩, h⟩, fun ⟨_, _, ⟨ha, ht⟩, h⟩ => ha ▸ ht ▸ h⟩
  | error e t => simp

/-- A sequenced run throws when its first part throws, or when the first part returns and its
continuation throws. -/
theorem run_bind_eq_error {x : EStateM ε σ α} {f : α → EStateM ε σ β} {s s' : σ} {e : ε} :
    (x >>= f).run s = .error e s' ↔
      x.run s = .error e s' ∨ ∃ a t, x.run s = .ok a t ∧ (f a).run t = .error e s' := by
  rw [run_bind]
  cases x.run s with
  | ok a t =>
    simp only [reduceCtorEq, Result.ok.injEq, false_or]
    exact ⟨fun h => ⟨a, t, ⟨rfl, rfl⟩, h⟩, fun ⟨_, _, ⟨ha, ht⟩, h⟩ => ha ▸ ht ▸ h⟩
  | error e' t => simp

/-- The state after a sequenced run: where the continuation ends, or where the first part threw. -/
theorem run_bind_state (x : EStateM ε σ α) (f : α → EStateM ε σ β) (s : σ) :
    ((x >>= f).run s).state =
      match x.run s with
      | .ok a t => ((f a).run t).state
      | .error _ t => t := by
  rw [run_bind]
  match x.run s with
  | .ok _ _ => rfl
  | .error _ _ => rfl

/-! ## Preservation -/

/-- `x` preserves `P`: from every state satisfying `P`, its run ends in a state satisfying `P`. -/
def Preserves (P : σ → Prop) (x : EStateM ε σ α) : Prop :=
  ∀ s, P s → P (x.run s).state

variable {P : σ → Prop}

theorem Preserves.pure (a : α) : Preserves P (Pure.pure a : EStateM ε σ α) :=
  fun _ h => h

theorem Preserves.get : Preserves P (MonadState.get : EStateM ε σ σ) :=
  fun _ h => h

theorem Preserves.set {s' : σ} (h : P s') :
    Preserves P (MonadStateOf.set s' : EStateM ε σ PUnit) :=
  fun _ _ => h

theorem Preserves.modify {f : σ → σ} (h : ∀ s, P s → P (f s)) :
    Preserves P (modify f : EStateM ε σ PUnit) :=
  fun s hs => h s hs

theorem Preserves.throw (e : ε) : Preserves P (MonadExcept.throw e : EStateM ε σ α) :=
  fun _ h => h

theorem Preserves.ofExcept (e : Except ε α) :
    Preserves P (MonadExcept.ofExcept e : EStateM ε σ α) := by
  intro s hs
  cases e <;> exact hs

/-- **Sequencing.** A run of `x >>= f` ends where `x` threw or where a run of a continuation
ended. -/
theorem Preserves.bind {x : EStateM ε σ α} {f : α → EStateM ε σ β} (hx : Preserves P x)
    (hf : ∀ a, Preserves P (f a)) : Preserves P (x >>= f) := by
  intro s hs
  have hx' := hx s hs
  rw [run_bind_state]
  revert hx'
  match x.run s with
  | .ok a t => exact fun ht => hf a t ht
  | .error _ _ => exact id

/-- A continuation that reads the state need only preserve `P` from the state it read. -/
theorem Preserves.get_bind {f : σ → EStateM ε σ β}
    (hf : ∀ s, P s → P ((f s).run s).state) : Preserves P (MonadState.get >>= f) := by
  intro s hs
  rw [run_bind_state]
  exact hf s hs

theorem Preserves.ite {c : Prop} [Decidable c] {x y : EStateM ε σ α} (hx : Preserves P x)
    (hy : Preserves P y) : Preserves P (if c then x else y) := by
  by_cases hc : c
  · rw [if_pos hc]
    exact hx
  · rw [if_neg hc]
    exact hy

theorem Preserves.and {Q : σ → Prop} {x : EStateM ε σ α} (hP : Preserves P x)
    (hQ : Preserves Q x) : Preserves (fun s => P s ∧ Q s) x :=
  fun s hs => ⟨hP s hs.1, hQ s hs.2⟩

/-- **Loops.** A loop over a list preserves `P` when every iteration does. -/
theorem Preserves.forM {f : α → EStateM ε σ PUnit} (hf : ∀ a, Preserves P (f a)) :
    ∀ l : List α, Preserves P (l.forM f)
  | [] => Preserves.pure _
  | a :: l => (hf a).bind fun _ => Preserves.forM hf l

/-! ## Frames -/

/-- `x` keeps the projection `π`: a run ends in a state with the projection it started in,
whether it returns or throws. -/
def Keeps {ρ : Type*} (π : σ → ρ) (x : EStateM ε σ α) : Prop :=
  ∀ s, π (x.run s).state = π s

section Keeps

variable {ρ γ : Type*} {π : σ → ρ}

theorem Keeps.preserves {x : EStateM ε σ α} (h : Keeps π x) (b : ρ) :
    Preserves (fun t => π t = b) x :=
  fun s hs => (h s).trans hs

/-- A program that keeps a projection keeps every function of it. -/
theorem Keeps.map {x : EStateM ε σ α} (h : Keeps π x) (g : ρ → γ) : Keeps (fun s => g (π s)) x :=
  fun s => congrArg g (h s)

theorem Keeps.pure (a : α) : Keeps π (Pure.pure a : EStateM ε σ α) :=
  fun _ => rfl

theorem Keeps.throw (e : ε) : Keeps π (MonadExcept.throw e : EStateM ε σ α) :=
  fun _ => rfl

theorem Keeps.modify {f : σ → σ} (h : ∀ s, π (f s) = π s) :
    Keeps π (modify f : EStateM ε σ PUnit) :=
  h

theorem Keeps.ofExcept (e : Except ε α) : Keeps π (MonadExcept.ofExcept e : EStateM ε σ α) := by
  intro s
  cases e <;> rfl

theorem Keeps.bind {x : EStateM ε σ α} {f : α → EStateM ε σ β} (hx : Keeps π x)
    (hf : ∀ a, Keeps π (f a)) : Keeps π (x >>= f) := by
  intro s
  rw [run_bind_state]
  have hxs := hx s
  revert hxs
  match x.run s with
  | .ok a t => exact fun ht => (hf a t).trans ht
  | .error _ _ => exact id

/-- A continuation that reads the state need only keep the projection from the state it read. -/
theorem Keeps.get_bind {f : σ → EStateM ε σ β} (hf : ∀ s, π ((f s).run s).state = π s) :
    Keeps π (MonadState.get >>= f) := by
  intro s
  rw [run_bind_state]
  exact hf s

/-- Setting a state with the projection of the state read, then continuing. -/
theorem Keeps.set_run {k : PUnit → EStateM ε σ β} (hk : Keeps π (k ⟨⟩)) {s t : σ}
    (ht : π t = π s) : π (((MonadStateOf.set t : EStateM ε σ PUnit) >>= k).run s).state = π s := by
  rw [run_bind_state]
  exact (hk t).trans ht

theorem Keeps.ite {c : Prop} [Decidable c] {x y : EStateM ε σ α} (hx : Keeps π x)
    (hy : Keeps π y) : Keeps π (if c then x else y) := by
  by_cases hc : c
  · rw [if_pos hc]
    exact hx
  · rw [if_neg hc]
    exact hy

end Keeps

/-! ## From one predicate to another -/

/-- A run of `x` from a state satisfying `P` ends, returning or throwing, in one satisfying
`Q`: a Hoare triple over states. `Preserves P x` is `Leads P P x`. -/
def Leads (P Q : σ → Prop) (x : EStateM ε σ α) : Prop :=
  ∀ s, P s → Q (x.run s).state

section Leads

variable {Q R : σ → Prop}

theorem Preserves.leads {x : EStateM ε σ α} (h : Preserves P x) : Leads P P x := h

/-- A program that keeps a projection leads from the states with one value of it to the same. -/
theorem Keeps.leads {ρ : Type*} {π : σ → ρ} {x : EStateM ε σ α} (h : Keeps π x) (b : ρ) :
    Leads (fun t => π t = b) (fun t => π t = b) x :=
  h.preserves b

/-- The rule of consequence. -/
theorem Leads.mono {P' Q' : σ → Prop} {x : EStateM ε σ α} (h : Leads P Q x)
    (hP : ∀ s, P' s → P s) (hQ : ∀ s, Q s → Q' s) : Leads P' Q' x :=
  fun s hs => hQ _ (h s (hP s hs))

theorem Leads.pure (a : α) (h : ∀ s, P s → Q s) : Leads P Q (Pure.pure a : EStateM ε σ α) :=
  h

theorem Leads.modify {f : σ → σ} (h : ∀ s, P s → Q (f s)) :
    Leads P Q (modify f : EStateM ε σ PUnit) :=
  h

/-- **Sequencing.** Where `x` throws, its state satisfies `Q`, so `Q` must imply `R`. -/
theorem Leads.bind {x : EStateM ε σ α} {f : α → EStateM ε σ β} (hx : Leads P Q x)
    (hf : ∀ a, Leads Q R (f a)) (hQR : ∀ s, Q s → R s) : Leads P R (x >>= f) := by
  intro s hs
  have hx' := hx s hs
  rw [run_bind_state]
  revert hx'
  match x.run s with
  | .ok a t => exact fun ht => hf a t ht
  | .error _ t => exact hQR t

theorem Leads.ite {c : Prop} [Decidable c] {x y : EStateM ε σ α} (hx : Leads P Q x)
    (hy : Leads P Q y) : Leads P Q (if c then x else y) := by
  by_cases hc : c
  · rw [if_pos hc]
    exact hx
  · rw [if_neg hc]
    exact hy

end Leads

/-! ## What a run returns -/

/-- Every value a run of `x` returns satisfies `V`. -/
def Returns (V : α → Prop) (x : EStateM ε σ α) : Prop :=
  ∀ s a t, x.run s = .ok a t → V a

section Returns

variable {V : β → Prop} {Q R : σ → Prop}

theorem Returns.pure {b : β} (h : V b) : Returns V (Pure.pure b : EStateM ε σ β) := by
  intro s a t hrun
  cases hrun
  exact h

theorem Returns.throw (e : ε) : Returns V (MonadExcept.throw e : EStateM ε σ β) := by
  intro s a t hrun
  cases hrun

/-- `ofExcept` returns the value of an `ok`. -/
theorem Returns.ofExcept (e : Except ε β) :
    Returns (fun b => e = .ok b) (MonadExcept.ofExcept e : EStateM ε σ β) := by
  intro s a t hrun
  cases e with
  | ok b =>
    cases hrun
    rfl
  | error _ => cases hrun

/-- What a sequenced run returns, its continuation returned. -/
theorem Returns.bind {x : EStateM ε σ α} {f : α → EStateM ε σ β} (hf : ∀ a, Returns V (f a)) :
    Returns V (x >>= f) := by
  intro s b t hrun
  obtain ⟨a, u, -, hf'⟩ := run_bind_eq_ok.mp hrun
  exact hf a u b t hf'

/-- A continuation need only return `V` after the values its first part returns. -/
theorem Returns.bind_of {W : α → Prop} {x : EStateM ε σ α} {f : α → EStateM ε σ β}
    (hx : Returns W x) (hf : ∀ a, W a → Returns V (f a)) : Returns V (x >>= f) := by
  intro s b t hrun
  obtain ⟨a, u, hx', hf'⟩ := run_bind_eq_ok.mp hrun
  exact hf a (hx s a u hx') u b t hf'

theorem Returns.ite {c : Prop} [Decidable c] {x y : EStateM ε σ β} (hx : Returns V x)
    (hy : Returns V y) : Returns V (if c then x else y) := by
  by_cases hc : c
  · rw [if_pos hc]
    exact hx
  · rw [if_neg hc]
    exact hy

/-- Sequencing a run whose values satisfy `W` with a continuation that needs `W`. -/
theorem Leads.bind_returns {W : α → Prop} {x : EStateM ε σ α} {f : α → EStateM ε σ β}
    (hx : Leads P Q x) (hw : Returns W x) (hf : ∀ a, W a → Leads Q R (f a))
    (hQR : ∀ s, Q s → R s) : Leads P R (x >>= f) := by
  intro s hs
  have hx' := hx s hs
  rw [run_bind_state]
  revert hx'
  cases hrun : x.run s with
  | ok a t => exact fun ht => hf a (hw s a t hrun) t ht
  | error _ t => exact hQR t

end Returns

end EStateM
