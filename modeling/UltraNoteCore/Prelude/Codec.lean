import Mathlib.Data.List.Basic

/-!
# Decoders over a stream, and the encodings they accept exactly

A decoder reads a value from the front of a list of symbols and returns it with the rest of
the list, or fails with an error: `StateT` over the rest of the stream, failing in `Except`. A
decoder is *exact* for an encoder on the values a predicate admits when it accepts precisely the
encodings of those values, followed by anything, and returns the value it read and what follows.
One direction is the round trip (an encoding reads back as its value), the other canonicity (an
accepted input is the encoding of what it decodes to, so two inputs never decode to one value).

Exactness goes through sequencing, a guard, a change of representation and counted repetition,
which is how record, variant and container formats are put together from their fields.

## Main definitions

* `Codec.Decoder`, `Codec.decodeN`
* `Codec.Exact`: the decoder accepts exactly the encodings of the admitted values
* `Codec.ExactE`: the same for an encoder that may fail
* `Codec.Shrinks`: the decoder never gives back more of the stream than it was given

## Main results

* `Codec.run_bind_eq_ok`: a sequenced decoder succeeds iff both parts do, in turn
* `Codec.Exact.run_bind_eq_ok`: the same after an exact decoder, with its input split
* `Codec.Exact.map`, `Codec.Exact.decodeN`: a bijective change of representation and counted
  repetition keep exactness, and `Codec.ExactE.decodeN` the latter for encoders that may fail
-/

namespace Codec

variable {ε β α γ : Type}

/-- A decoder of `α` from a stream of `β`, failing with an `ε`. -/
abbrev Decoder (ε β α : Type) := StateT (List β) (Except ε) α

/-- The decoder run `n` times, its values in order. -/
def decodeN (d : Decoder ε β α) : ℕ → Decoder ε β (List α)
  | 0 => pure []
  | n + 1 => do
    let x ← d
    let xs ← decodeN d n
    pure (x :: xs)

/-- `d` accepts exactly the encodings by `enc` of the values `P` admits, followed by anything:
it returns the value and what follows. -/
def Exact (P : α → Prop) (enc : α → List β) (d : Decoder ε β α) : Prop :=
  ∀ input x rest, d.run input = .ok (x, rest) ↔ P x ∧ input = enc x ++ rest

/-- `Exact` for an encoder that may fail: `d` accepts exactly what `enc` writes of the values
`P` admits, where it writes anything, followed by anything. -/
def ExactE (P : α → Prop) (enc : α → Except ε (List β)) (d : Decoder ε β α) : Prop :=
  ∀ input x rest, d.run input = .ok (x, rest) ↔ P x ∧ ∃ bs, enc x = .ok bs ∧ input = bs ++ rest

/-! ## Running decoders -/

section Run

variable {d : Decoder ε β α} {f : α → Decoder ε β γ} {s s' : List β} {x : α}

@[simp] theorem run_pure (s : List β) : (pure x : Decoder ε β α).run s = .ok (x, s) := rfl

@[simp] theorem run_throw (e : ε) (s : List β) : (throw e : Decoder ε β α).run s = .error e :=
  rfl

theorem run_bind_of_eq_ok (h : d.run s = .ok (x, s')) : (d >>= f).run s = (f x).run s' := by
  rw [StateT.run_bind, h]
  rfl

theorem run_bind_of_eq_error {e : ε} (h : d.run s = .error e) : (d >>= f).run s = .error e := by
  rw [StateT.run_bind, h]
  rfl

/-- The inversion of a sequenced decoder: both parts succeed in turn. -/
theorem run_bind_eq_ok {r : γ × List β} :
    (d >>= f).run s = .ok r ↔ ∃ x s', d.run s = .ok (x, s') ∧ (f x).run s' = .ok r := by
  rw [StateT.run_bind]
  cases h : d.run s with
  | error e =>
    constructor
    · intro hr; cases hr
    · rintro ⟨x, s', hx, -⟩; cases hx
  | ok p =>
    obtain ⟨x, s'⟩ := p
    constructor
    · intro hr; exact ⟨x, s', rfl, hr⟩
    · rintro ⟨x', s'', hx, hr⟩; cases hx; exact hr

@[simp] theorem run_pure_eq_ok {y : α} {rest : List β} :
    (pure x : Decoder ε β α).run s = .ok (y, rest) ↔ x = y ∧ s = rest := by
  rw [run_pure, Except.ok.injEq, Prod.mk.injEq]

theorem run_map_eq_ok {g : α → γ} {r : γ × List β} :
    (g <$> d).run s = .ok r ↔ ∃ x s', d.run s = .ok (x, s') ∧ r = (g x, s') := by
  rw [map_eq_pure_bind, run_bind_eq_ok]
  simp only [run_pure, Except.ok.injEq, eq_comm]

/-- A guard that throws when its condition holds lets the decoder go on only when it fails. -/
theorem run_ite_throw_eq_ok {c : Prop} [Decidable c] {e : ε} {r : α × List β} :
    (if c then throw e else d).run s = .ok r ↔ ¬c ∧ d.run s = .ok r := by
  by_cases hc : c
  · rw [if_pos hc, run_throw]
    simp only [hc, not_true_eq_false, false_and, iff_false]
    intro h; cases h
  · rw [if_neg hc]
    simp only [hc, not_false_eq_true, true_and]

end Run

/-! ## Exact decoders -/

namespace Exact

variable {P : α → Prop} {enc : α → List β} {d : Decoder ε β α}

theorem run_eq_ok (h : Exact P enc d) {x : α} (hx : P x) (rest : List β) :
    d.run (enc x ++ rest) = .ok (x, rest) :=
  (h _ x rest).mpr ⟨hx, rfl⟩

/-- After an exact decoder, the rest of the input is what follows the encoding it read. -/
theorem run_bind_eq_ok (h : Exact P enc d) {f : α → Decoder ε β γ} {s : List β}
    {r : γ × List β} :
    (d >>= f).run s = .ok r ↔ ∃ x s', P x ∧ s = enc x ++ s' ∧ (f x).run s' = .ok r := by
  rw [Codec.run_bind_eq_ok]
  constructor
  · rintro ⟨x, s', hd, hf⟩
    exact ⟨x, s', ((h s x s').mp hd).1, ((h s x s').mp hd).2, hf⟩
  · rintro ⟨x, s', hx, hs, hf⟩
    exact ⟨x, s', (h s x s').mpr ⟨hx, hs⟩, hf⟩

/-- An exact decoder under a map: the value is the image of one the decoder reads. -/
theorem run_map_eq_ok (h : Exact P enc d) {g : α → γ} {s : List β} {y : γ} {rest : List β} :
    (g <$> d).run s = .ok (y, rest) ↔ ∃ x, y = g x ∧ P x ∧ s = enc x ++ rest := by
  rw [Codec.run_map_eq_ok]
  constructor
  · rintro ⟨x, s', hd, hy⟩
    obtain ⟨rfl, rfl⟩ := Prod.mk.inj hy
    exact ⟨x, rfl, (h s x _).mp hd⟩
  · rintro ⟨x, rfl, hx, rfl⟩
    exact ⟨x, rest, h.run_eq_ok hx rest, rfl⟩

/-- A change of representation `g`, bijective between the admitted values of the two sides
and keeping their encodings. -/
theorem map (h : Exact P enc d) {Q : γ → Prop} {enc' : γ → List β} {g : α → γ}
    (hg : ∀ x, P x → Q (g x) ∧ enc' (g x) = enc x) (hsurj : ∀ y, Q y → ∃ x, P x ∧ g x = y) :
    Exact Q enc' (g <$> d) := by
  intro input y rest
  rw [h.run_map_eq_ok]
  constructor
  · rintro ⟨x, rfl, hx, rfl⟩
    exact ⟨(hg x hx).1, by rw [(hg x hx).2]⟩
  · rintro ⟨hy, rfl⟩
    obtain ⟨x, hx, rfl⟩ := hsurj _ hy
    exact ⟨x, rfl, hx, by rw [(hg x hx).2]⟩

/-- Counted repetition: `n` values, each admitted, written one after the other. -/
theorem decodeN (h : Exact P enc d) (n : ℕ) :
    Exact (fun xs => xs.length = n ∧ ∀ x ∈ xs, P x) (fun xs => xs.flatMap enc)
      (Codec.decodeN d n) := by
  induction n with
  | zero =>
    intro input xs rest
    rw [Codec.decodeN, run_pure]
    constructor
    · intro hr
      obtain ⟨rfl, rfl⟩ := Prod.mk.inj (Except.ok.inj hr)
      simp
    · rintro ⟨⟨hlen, -⟩, rfl⟩
      rw [List.length_eq_zero_iff.mp hlen]
      rfl
  | succ n ih =>
    intro input xs rest
    rw [Codec.decodeN, h.run_bind_eq_ok]
    constructor
    · rintro ⟨x, s1, hx, rfl, hrun⟩
      obtain ⟨ys, s2, ⟨hlen, hys⟩, rfl, hpure⟩ := ih.run_bind_eq_ok.mp hrun
      obtain ⟨rfl, rfl⟩ := Prod.mk.inj (Except.ok.inj hpure)
      refine ⟨⟨by rw [List.length_cons, hlen], ?_⟩, by simp⟩
      intro y hy
      rcases List.mem_cons.mp hy with rfl | hy
      · exact hx
      · exact hys y hy
    · rintro ⟨⟨hlen, hxs⟩, rfl⟩
      cases xs with
      | nil => cases hlen
      | cons x xs =>
        refine ⟨x, xs.flatMap enc ++ rest, hxs x List.mem_cons_self, by simp, ?_⟩
        rw [ih.run_bind_eq_ok]
        exact ⟨xs, rest, ⟨by simpa using hlen, fun y hy => hxs y (List.mem_cons_of_mem x hy)⟩,
          rfl, rfl⟩

/-- An encoder that cannot fail. -/
theorem exactE (h : Exact P enc d) : ExactE P (fun x => .ok (enc x)) d := by
  intro input x rest
  rw [h input x rest]
  constructor
  · rintro ⟨hx, rfl⟩
    exact ⟨hx, enc x, rfl, rfl⟩
  · rintro ⟨hx, bs, hbs, rfl⟩
    cases hbs
    exact ⟨hx, rfl⟩

end Exact

theorem ExactE.run_bind_eq_ok {P : α → Prop} {enc : α → Except ε (List β)} {d : Decoder ε β α}
    (h : ExactE P enc d) {f : α → Decoder ε β γ} {s : List β} {r : γ × List β} :
    (d >>= f).run s = .ok r ↔
      ∃ x s', P x ∧ (∃ bs, enc x = .ok bs ∧ s = bs ++ s') ∧ (f x).run s' = .ok r := by
  rw [Codec.run_bind_eq_ok]
  constructor
  · rintro ⟨x, s', hd, hf⟩
    exact ⟨x, s', ((h s x s').mp hd).1, ((h s x s').mp hd).2, hf⟩
  · rintro ⟨x, s', hx, hs, hf⟩
    exact ⟨x, s', (h s x s').mpr ⟨hx, hs⟩, hf⟩

/-! ## Decoders that consume

A loop that runs decoders until the stream ends terminates when each turn gives back no more
of the stream than it was given and takes at least its tag. -/

/-- `d` gives back at most as much of the stream as it was given. -/
def Shrinks (d : Decoder ε β α) : Prop :=
  ∀ s x s', d.run s = .ok (x, s') → s'.length ≤ s.length

namespace Shrinks

theorem pure (x : α) : Shrinks (pure x : Decoder ε β α) := by
  intro s y s' h
  obtain ⟨-, rfl⟩ := run_pure_eq_ok.mp h
  exact Nat.le_refl _

theorem throw (e : ε) : Shrinks (throw e : Decoder ε β α) := by
  intro s y s' h
  cases h

theorem bind {d : Decoder ε β α} {f : α → Decoder ε β γ} (hd : Shrinks d)
    (hf : ∀ x, Shrinks (f x)) : Shrinks (d >>= f) := by
  intro s y s'' h
  obtain ⟨x, s', hx, hy⟩ := run_bind_eq_ok.mp h
  exact Nat.le_trans (hf x s' y s'' hy) (hd s x s' hx)

theorem map {d : Decoder ε β α} (hd : Shrinks d) (g : α → γ) : Shrinks (g <$> d) := by
  intro s y s' h
  obtain ⟨x, s'', hx, hy⟩ := run_map_eq_ok.mp h
  obtain ⟨-, rfl⟩ := Prod.mk.inj hy
  exact hd s x _ hx

end Shrinks

/-- An exact decoder returns what follows the encoding it read. -/
theorem Exact.shrinks {P : α → Prop} {enc : α → List β} {d : Decoder ε β α} (h : Exact P enc d) :
    Shrinks d := by
  intro s x s' hrun
  obtain ⟨-, rfl⟩ := (h s x s').mp hrun
  rw [List.length_append]
  exact Nat.le_add_left _ _

/-! ## Encoders that may fail -/

section Encode

variable {e : ε} {x : α}

@[simp] theorem bind_eq_ok {w : Except ε α} {f : α → Except ε γ} {c : γ} :
    (w >>= f) = .ok c ↔ ∃ a, w = .ok a ∧ f a = .ok c := by
  cases w with
  | error e =>
    constructor
    · intro h; cases h
    · rintro ⟨_, h, -⟩; cases h
  | ok a =>
    constructor
    · intro h; exact ⟨a, rfl, h⟩
    · rintro ⟨a', h, hf⟩; cases h; exact hf

@[simp] theorem ok_bind {f : α → Except ε γ} : (Except.ok x >>= f) = f x := rfl

@[simp] theorem throw_ne_ok : (throw e : Except ε α) ≠ .ok x := by
  intro h; cases h

@[simp] theorem pure_eq_ok {y : α} : (pure x : Except ε α) = .ok y ↔ x = y :=
  ⟨fun h => by cases h; rfl, fun h => by rw [h]; rfl⟩

theorem bind_eq_error {w : Except ε α} {f : α → Except ε γ} {e : ε} :
    (w >>= f) = .error e ↔ w = .error e ∨ ∃ a, w = .ok a ∧ f a = .error e := by
  cases w with
  | error e' =>
    -- a failed first step is the failure of the whole
    show Except.error e' = _ ↔ _
    constructor
    · intro h; cases h; exact Or.inl rfl
    · rintro (h | ⟨_, h, -⟩)
      · cases h; rfl
      · cases h
  | ok a =>
    show f a = _ ↔ _
    constructor
    · intro h; exact Or.inr ⟨a, rfl, h⟩
    · rintro (h | ⟨a', h, hf⟩)
      · cases h
      · cases h; exact hf

/-- A failed `mapM` failed at one of the elements, with its error. -/
theorem mapM_eq_error {f : β → Except ε α} :
    ∀ {l : List β} {e : ε}, l.mapM f = .error e → ∃ b ∈ l, f b = .error e
  | [], _, h => by cases h
  | b :: l, e, h => by
    rw [List.mapM_cons] at h
    cases hb : f b with
    | error e' =>
      rw [hb] at h
      cases h
      exact ⟨b, List.mem_cons_self, hb⟩
    | ok a =>
      rw [hb] at h
      cases hl : l.mapM f with
      | error e' =>
        rw [hl] at h
        cases h
        obtain ⟨b', hb', hfb'⟩ := mapM_eq_error hl
        exact ⟨b', List.mem_cons_of_mem b hb', hfb'⟩
      | ok as =>
        rw [hl] at h
        cases h

/-- Renaming the error keeps a success as it was. -/
@[simp] theorem mapError_eq_ok {δ : Type} {w : Except ε α} {f : ε → δ} :
    w.mapError f = .ok x ↔ w = .ok x := by
  cases w with
  | error e =>
    constructor
    · intro h; cases h
    · intro h; cases h
  | ok a => exact ⟨fun h => by cases h; rfl, fun h => by cases h; rfl⟩

/-- Writing a list element by element: the first element's bytes, then the others'. -/
theorem mapM_flatten_cons_eq_ok {enc : α → Except ε (List β)} {x : α} {xs : List α}
    {bs : List β} :
    (do let bss ← (x :: xs).mapM enc; pure bss.flatten : Except ε (List β)) = .ok bs ↔
      ∃ b bs', enc x = .ok b ∧
        (do let bss ← xs.mapM enc; pure bss.flatten : Except ε (List β)) = .ok bs' ∧
          bs = b ++ bs' := by
  simp only [List.mapM_cons, bind_eq_ok, pure_eq_ok]
  constructor
  · rintro ⟨_, ⟨b, hb, bss, hbss, rfl⟩, rfl⟩
    exact ⟨b, _, hb, ⟨bss, hbss, rfl⟩, by simp⟩
  · rintro ⟨b, _, hb, ⟨bss, hbss, rfl⟩, rfl⟩
    exact ⟨_, ⟨b, hb, bss, hbss, rfl⟩, by simp⟩

end Encode

/-- Counted repetition for an encoder that may fail: `n` values, each admitted, written one after
the other, where each is written. -/
theorem ExactE.decodeN {P : α → Prop} {enc : α → Except ε (List β)} {d : Decoder ε β α}
    (h : ExactE P enc d) (n : ℕ) :
    ExactE (fun xs => xs.length = n ∧ ∀ x ∈ xs, P x)
      (fun xs => do let bss ← xs.mapM enc; pure bss.flatten) (Codec.decodeN d n) := by
  induction n with
  | zero =>
    intro input xs rest
    rw [Codec.decodeN, run_pure]
    constructor
    · intro hr
      obtain ⟨rfl, rfl⟩ := Prod.mk.inj (Except.ok.inj hr)
      exact ⟨⟨rfl, by simp⟩, [], rfl, rfl⟩
    · rintro ⟨⟨hlen, -⟩, bs, hbs, rfl⟩
      rw [List.length_eq_zero_iff.mp hlen] at hbs ⊢
      cases hbs
      rfl
  | succ n ih =>
    intro input xs rest
    rw [Codec.decodeN, h.run_bind_eq_ok]
    constructor
    · rintro ⟨x, s1, hx, ⟨b, hb, rfl⟩, hrun⟩
      obtain ⟨ys, s2, ⟨hlen, hys⟩, ⟨bs', hbs', rfl⟩, hpure⟩ := ih.run_bind_eq_ok.mp hrun
      obtain ⟨rfl, rfl⟩ := Prod.mk.inj (Except.ok.inj hpure)
      refine ⟨⟨by rw [List.length_cons, hlen], ?_⟩, b ++ bs',
        mapM_flatten_cons_eq_ok.mpr ⟨b, bs', hb, hbs', rfl⟩, by simp⟩
      intro y hy
      rcases List.mem_cons.mp hy with rfl | hy
      · exact hx
      · exact hys y hy
    · rintro ⟨⟨hlen, hxs⟩, bs, hbs, rfl⟩
      cases xs with
      | nil => cases hlen
      | cons x xs =>
        obtain ⟨b, bs', hb, hbs', rfl⟩ := mapM_flatten_cons_eq_ok.mp hbs
        refine ⟨x, bs' ++ rest, hxs x List.mem_cons_self, ⟨b, hb, by simp⟩, ?_⟩
        rw [ih.run_bind_eq_ok]
        exact ⟨xs, rest, ⟨by simpa using hlen, fun y hy => hxs y (List.mem_cons_of_mem x hy)⟩,
          ⟨bs', hbs', rfl⟩, rfl⟩

end Codec
