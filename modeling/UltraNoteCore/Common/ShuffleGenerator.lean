import Mathlib.Data.List.Perm.Basic
import Mathlib.Logic.Function.Basic

/-!
# The sparse shuffle of `Common/ShuffleGenerator.h`

`ShuffleGenerator(n)` deals the numbers `0, …, n - 1` in a random order, one a call, without
storing them: it shuffles a virtual array `a` whose entry `k` is `selected[k]` where the hash
map has one and `k` otherwise. A call draws `value` in `[0, count - 1]` after decrementing
`count`, returns `a[value]` and moves `a[count]`, the last live entry, into its place; `reset`
empties the map and restores `count`. The random engine and the distribution are the
environment: the value drawn at each call is an argument.

Whatever is drawn, the live entries of the virtual array and the numbers returned so far are
together a permutation of `0, …, n - 1`. So the first `n` calls deal each number once, the next
one throws, and after `reset` the same holds again.

## Main definitions

* `ShuffleGenerator`, `ShuffleGenerator.init`, `ShuffleGenerator.call` (`operator()`),
  `ShuffleGenerator.reset`, `ShuffleGenerator.run`
* `ShuffleGenerator.deck`: the live entries of the virtual array
* `ShuffleGenerator.Deals`: a run that deals a permutation of `0, …, n - 1` and then throws

## Main results

* `ShuffleGenerator.call_of_lt`: a call returns the drawn entry of the deck and leaves the
  others, with the last moved into its place
* `ShuffleGenerator.run_perm`: along every run the numbers dealt and the deck make up the
  deck the run started from
* `ShuffleGenerator.shuffleGenerator_deals`: from a new or reset generator, every sequence of
  draws in range deals a permutation, and the call after it throws
-/

namespace UltraNoteCore

/-- `ShuffleGenerator<T, Gen>` over `size_t`: the map of swapped positions, the number of
entries left, and the size it was made with. -/
structure ShuffleGenerator where
  /-- `selected`, the `std::unordered_map<T, T>` of the positions whose entry moved. -/
  selected : ℕ → Option ℕ
  count : ℕ
  N : ℕ

namespace ShuffleGenerator

/-- `ShuffleGenerator(n)`. -/
def init (n : ℕ) : ShuffleGenerator := ⟨fun _ => none, n, n⟩

/-- `operator()`, with `value` the number the distribution draws in `[0, count - 1]`. -/
def call (g : ShuffleGenerator) (value : ℕ) : Except String (ℕ × ShuffleGenerator) :=
  if g.count = 0 then .error "shuffle sequence ended"
  else
    let count := g.count - 1
    let rval := (g.selected count).getD count
    -- the drawn position takes the last entry, whether it had moved before or not
    let g' := { g with selected := Function.update g.selected value (some rval), count := count }
    match g.selected value with
    | some lval => .ok (lval, g')
    | none => .ok (value, g')

/-- `reset()`. -/
def reset (g : ShuffleGenerator) : ShuffleGenerator := { g with selected := fun _ => none, count := g.N }

/-- Calls with the given draws, one after the other: the numbers returned and the generator
after them, or the exception of the first call that throws. -/
def run (g : ShuffleGenerator) : List ℕ → Except String (List ℕ × ShuffleGenerator)
  | [] => .ok ([], g)
  | value :: values => do
    let (v, g) ← g.call value
    let (vs, g) ← g.run values
    pure (v :: vs, g)

/-- The live entries of the virtual array: `selected[k]` where the map has one, `k` otherwise,
for the positions below `count`. -/
def deck (g : ShuffleGenerator) : List ℕ :=
  (List.range g.count).map fun k => (g.selected k).getD k

/-- Draws for a run of `n` calls: the `k`-th is in `[0, n - 1 - k]`. -/
def ValidDraws (n : ℕ) (draws : List ℕ) : Prop :=
  draws.length = n ∧ ∀ k (hk : k < draws.length), draws[k] ≤ n - 1 - k

/-- From `g`, the draws deal a permutation of `0, …, n - 1`, and the call after them throws
whatever it draws. -/
def Deals (g : ShuffleGenerator) (n : ℕ) (draws : List ℕ) : Prop :=
  ∃ dealt g', g.run draws = .ok (dealt, g') ∧ dealt.Perm (List.range n) ∧
    ∀ value, g'.call value = .error "shuffle sequence ended"

/-! ## The deck -/

@[simp] theorem length_deck (g : ShuffleGenerator) : g.deck.length = g.count := by
  simp [deck]

theorem getElem_deck (g : ShuffleGenerator) {k : ℕ} (hk : k < g.deck.length) :
    g.deck[k] = (g.selected k).getD k := by
  simp [deck]

@[simp] theorem deck_init (n : ℕ) : (init n).deck = List.range n := by
  simp [deck, init]

theorem reset_eq_init (g : ShuffleGenerator) : g.reset = init g.N := rfl

/-- Writing one position of the map sets that entry of the deck, when it is below `count`. -/
theorem deck_update {g : ShuffleGenerator} {value count r : ℕ} (hcount : count ≤ g.count) :
    ({ g with selected := Function.update g.selected value (some r), count := count }).deck =
      (g.deck.take count).set value r := by
  apply List.ext_getElem
  · simp [deck, Nat.min_eq_left hcount]
  · intro k hk _
    rw [List.getElem_set, List.getElem_take, getElem_deck]
    simp only [deck, List.getElem_map, List.getElem_range]
    by_cases hk' : value = k
    · subst hk'
      simp
    · rw [if_neg hk', Function.update_of_ne (Ne.symm hk')]

/-- Writing a position at or above the new `count` leaves the deck its first `count` entries. -/
theorem deck_update_of_le {g : ShuffleGenerator} {value count r : ℕ} (hvalue : count ≤ value)
    (hcount : count ≤ g.count) :
    ({ g with selected := Function.update g.selected value (some r), count := count }).deck =
      g.deck.take count := by
  apply List.ext_getElem
  · simp [deck, Nat.min_eq_left hcount]
  · intro k hk _
    have hk' : k < count := by simpa [deck] using hk
    rw [List.getElem_take, getElem_deck]
    simp only [deck, List.getElem_map, List.getElem_range]
    rw [Function.update_of_ne (by omega)]

/-- Taking out entry `i` and putting `x` in its place: with the entry taken out, the same
numbers as `x` and the list. -/
theorem perm_getElem_cons_set {l : List ℕ} {i : ℕ} (hi : i < l.length) (x : ℕ) :
    (l[i] :: l.set i x).Perm (x :: l) := by
  have hset : (l[i] :: l.set i x).Perm (l[i] :: x :: l.eraseIdx i) :=
    (List.set_perm_cons_eraseIdx hi x).cons _
  have hback : (x :: l[i] :: l.eraseIdx i).Perm (x :: l) :=
    (List.getElem_cons_eraseIdx_perm hi).cons _
  exact hset.trans ((List.Perm.swap x l[i] _).trans hback)

/-! ## One call -/

/-- A call with a value in range returns that entry of the deck, and the last entry takes its
place as the deck shrinks by one. -/
theorem call_of_lt {g : ShuffleGenerator} {value : ℕ} (hvalue : value < g.count) :
    ∃ g', g.call value = .ok ((g.selected value).getD value, g') ∧
      g'.count = g.count - 1 ∧ g'.N = g.N ∧
      ((g.selected value).getD value :: g'.deck).Perm g.deck := by
  have hcount : g.count ≠ 0 := by omega
  have hlast : g.count - 1 < g.deck.length := by simp; omega
  have hdrawn : value < g.deck.length := by simpa using hvalue
  -- the number moved into the drawn position is the last live entry
  have hrval : (g.selected (g.count - 1)).getD (g.count - 1) = g.deck[g.count - 1] :=
    (getElem_deck g hlast).symm
  -- the deck is its first `count - 1` entries and the last one
  have hsplit : g.deck.take (g.count - 1) ++ [g.deck[g.count - 1]] = g.deck := by
    rw [List.take_append_getElem, Nat.sub_add_cancel (by omega),
      List.take_of_length_le (by simp)]
  have hlastPerm : (g.deck[g.count - 1] :: g.deck.take (g.count - 1)).Perm g.deck :=
    (List.perm_append_singleton _ _).symm.trans (by rw [hsplit])
  let g' : ShuffleGenerator := { g with
    selected := Function.update g.selected value
      (some ((g.selected (g.count - 1)).getD (g.count - 1))),
    count := g.count - 1 }
  have hcall : g.call value = .ok ((g.selected value).getD value, g') := by
    unfold call
    rw [if_neg hcount]
    cases g.selected value <;> rfl
  refine ⟨g', hcall, rfl, rfl, ?_⟩
  rw [← getElem_deck g hdrawn]
  by_cases hlt : value < g.count - 1
  · -- the drawn entry is replaced by the last one
    have hdeck : g'.deck = (g.deck.take (g.count - 1)).set value g.deck[g.count - 1] := by
      rw [← hrval]
      exact deck_update (Nat.sub_le _ _)
    have htake : value < (g.deck.take (g.count - 1)).length := by simp; omega
    have hentry : (g.deck.take (g.count - 1))[value] = g.deck[value] := List.getElem_take
    rw [hdeck, ← hentry]
    exact (perm_getElem_cons_set htake _).trans hlastPerm
  · -- the last entry itself was drawn
    have hvalue' : value = g.count - 1 := by omega
    have hdeck : g'.deck = g.deck.take (g.count - 1) :=
      deck_update_of_le (by omega) (Nat.sub_le _ _)
    rw [hdeck]
    subst hvalue'
    exact hlastPerm

theorem call_of_count_eq_zero {g : ShuffleGenerator} (hcount : g.count = 0) (value : ℕ) :
    g.call value = .error "shuffle sequence ended" := by
  rw [call, if_pos hcount]

/-! ## Runs -/

/-- Along a run with every draw in range, the numbers dealt and the deck left make up the deck
the run started from, `count` falls by one a call, and `N` stays. -/
theorem run_perm : ∀ (draws : List ℕ) (g : ShuffleGenerator),
    draws.length ≤ g.count →
    (∀ k (hk : k < draws.length), draws[k] ≤ g.count - 1 - k) →
    ∃ dealt g', g.run draws = .ok (dealt, g') ∧ g'.count = g.count - draws.length ∧
      g'.N = g.N ∧ (dealt ++ g'.deck).Perm g.deck
  | [], g, _, _ => ⟨[], g, rfl, by simp, rfl, List.Perm.refl _⟩
  | value :: values, g, hlen, hdraws => by
    have hvalue : value < g.count := by
      have := hdraws 0 (by simp)
      simp only [List.getElem_cons_zero] at this
      simp only [List.length_cons] at hlen
      omega
    obtain ⟨g₁, hcall, hcount₁, hN₁, hperm₁⟩ := call_of_lt hvalue
    -- the rest of the draws are in range for the generator after the first call
    have hrest : ∀ k (hk : k < values.length), values[k] ≤ g₁.count - 1 - k := by
      intro k hk
      have := hdraws (k + 1) (by simp; omega)
      simp only [List.getElem_cons_succ] at this
      omega
    obtain ⟨dealt, g', hrun, hcount', hN', hperm'⟩ :=
      run_perm values g₁ (by simp only [List.length_cons] at hlen; omega) hrest
    refine ⟨(g.selected value).getD value :: dealt, g', ?_, ?_, hN'.trans hN₁, ?_⟩
    · rw [run, hcall]
      dsimp only [bind, Except.bind]
      rw [hrun]
      rfl
    · rw [hcount', hcount₁, List.length_cons]
      omega
    · exact (hperm'.cons _).trans hperm₁

-- the third draw finds position 0 swapped and returns what moved there
example : ((init 3).run [2, 0, 0]).toOption.map Prod.fst = some [2, 0, 1] := rfl

/-- From a generator whose deck is `0, …, n - 1`, every `n` draws in range deal a
permutation, and the next call throws. -/
theorem deals_of_deck {g : ShuffleGenerator} {n : ℕ} (hcount : g.count = n)
    (hdeck : g.deck = List.range n) {draws : List ℕ} (hdraws : ValidDraws n draws) :
    g.Deals n draws := by
  obtain ⟨hlen, hrange⟩ := hdraws
  obtain ⟨dealt, g', hrun, hcount', -, hperm⟩ :=
    run_perm draws g (by omega) (fun k hk => hcount ▸ hrange k hk)
  have hempty : g'.count = 0 := by omega
  have hdeck' : g'.deck = [] := List.eq_nil_of_length_eq_zero (by simp [hempty])
  rw [hdeck', List.append_nil, hdeck] at hperm
  exact ⟨dealt, g', hrun, hperm, call_of_count_eq_zero hempty⟩

/-- A new generator deals every number below its size once for every draws in range, and throws
at the call after; after `reset`, from whatever state, it does so again. -/
theorem shuffleGenerator_deals (n : ℕ) :
    (∀ draws, ValidDraws n draws → (init n).Deals n draws) ∧
      ∀ g : ShuffleGenerator, g.N = n → ∀ draws, ValidDraws n draws → g.reset.Deals n draws := by
  refine ⟨fun draws hdraws => deals_of_deck rfl (deck_init n) hdraws, ?_⟩
  rintro g rfl draws hdraws
  rw [reset_eq_init]
  exact deals_of_deck rfl (deck_init g.N) hdraws

/-- Three draws from a new generator of three, and three more after `reset`. -/
theorem shuffleGenerator_deals_three :
    (init 3).Deals 3 [2, 0, 0] ∧ (init 3).reset.Deals 3 [0, 1, 0] :=
  ⟨(shuffleGenerator_deals 3).1 [2, 0, 0] ⟨rfl, by decide⟩,
    (shuffleGenerator_deals 3).2 (init 3) rfl [0, 1, 0] ⟨rfl, by decide⟩⟩

end ShuffleGenerator

end UltraNoteCore
