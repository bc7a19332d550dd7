import ShellConfig.Files.Backup

/-!
# Outcomes of operations

What an operation built from others comes to, in the form in which proofs take it apart: a sequence
succeeds if both parts do, and fails where the first part that fails does. `Keeps` says of an
operation what it leaves as it is, whatever comes of it; an operation keeps what its parts keep.
Likewise `Maintains` says what stays true of the state, and `FailsWith` which failures there are.
-/

namespace ShellConfig

namespace Operation

variable {σ α β : Type} {x : Operation σ α} {f : α → Operation σ β} {s u : σ} {a : α} {b : β}
  {e : Failure}

theorem bind_eq_ok :
    (x >>= f) s = .ok b u ↔ ∃ a v, x s = .ok a v ∧ f a v = .ok b u := by
  change EStateM.bind x f s = _ ↔ _
  unfold EStateM.bind
  cases x s <;> simp [and_assoc]

theorem bind_eq_error :
    (x >>= f) s = .error e u ↔
      x s = .error e u ∨ ∃ a v, x s = .ok a v ∧ f a v = .error e u := by
  change EStateM.bind x f s = _ ↔ _
  unfold EStateM.bind
  cases x s <;> simp [and_assoc]

theorem bind_of_ok (h : x s = .ok a u) : (x >>= f) s = f a u := by
  change EStateM.bind x f s = _
  unfold EStateM.bind
  rw [h]

theorem bind_of_error (h : x s = .error e u) : (x >>= f) s = .error e u := by
  change EStateM.bind x f s = _
  unfold EStateM.bind
  rw [h]

@[simp] theorem pure_apply (a : α) (s : σ) : (pure a : Operation σ α) s = .ok a s := rfl

@[simp] theorem throw_apply (e : Failure) (s : σ) :
    (throw e : Operation σ α) s = .error e s := rfl

@[simp] theorem ofExcept_ok (a : α) (s : σ) : ofExcept (.ok a) s = .ok a s := rfl

@[simp] theorem ofExcept_error (e : Failure) (s : σ) :
    (ofExcept (.error e) : Operation σ α) s = .error e s := rfl

theorem attempt_of_ok (h : x s = .ok a u) : attempt x s = .ok (.ok a) u := by
  unfold attempt
  rw [h]

theorem attempt_of_error (h : x s = .error e u) : attempt x s = .ok (.error e) u := by
  unfold attempt
  rw [h]

theorem attempt_eq_ok {r : Except Failure α} :
    attempt x s = .ok r u ↔
      (∃ a, r = .ok a ∧ x s = .ok a u) ∨ ∃ e, r = .error e ∧ x s = .error e u := by
  unfold attempt
  cases x s <;> grind

theorem attempt_ne_error : attempt x s ≠ .error e u := by
  unfold attempt
  cases x s <;> simp

theorem mapFailure_eq_ok {g : Failure → Failure} :
    mapFailure g x s = .ok a u ↔ x s = .ok a u := by
  unfold mapFailure
  cases x s <;> simp

theorem mapFailure_eq_error {g : Failure → Failure} :
    mapFailure g x s = .error e u ↔ ∃ d, g d = e ∧ x s = .error d u := by
  unfold mapFailure
  cases x s <;> grind

section Within

variable {τ : Type} {get : τ → σ} {set : σ → τ → τ} {w v : τ}

theorem within_eq_ok :
    within get set x w = .ok a v ↔ ∃ u, x (get w) = .ok a u ∧ v = set u w := by
  unfold within
  cases x (get w) <;> grind

theorem within_eq_error :
    within get set x w = .error e v ↔ ∃ u, x (get w) = .error e u ∧ v = set u w := by
  unfold within
  cases x (get w) <;> grind

end Within

/-- What comes after an operation that succeeds can still make it fail. -/
theorem thenAlways_eq_ok {after : Operation σ Unit} :
    thenAlways x after s = .ok a u ↔ ∃ v, x s = .ok a v ∧ after v = .ok () u := by
  unfold thenAlways
  simp only [bind_eq_ok, attempt_eq_ok]
  constructor
  · rintro ⟨r, v, hr, _, w, hw, hu⟩
    rcases hr with ⟨a', rfl, hx⟩ | ⟨e, rfl, hx⟩
    · simp only [ofExcept_ok, EStateM.Result.ok.injEq] at hu
      obtain ⟨rfl, rfl⟩ := hu
      exact ⟨v, hx, hw⟩
    · simp at hu
  · rintro ⟨v, hx, hafter⟩
    exact ⟨.ok a, v, .inl ⟨a, rfl, hx⟩, (), u, hafter, rfl⟩

theorem thenAlways_eq_error {after : Operation σ Unit} :
    thenAlways x after s = .error e u ↔
      (∃ v, x s = .error e v ∧ after v = .ok () u) ∨
      (∃ a v, x s = .ok a v ∧ after v = .error e u) ∨
      ∃ d v, x s = .error d v ∧ after v = .error e u := by
  unfold thenAlways
  simp only [bind_eq_error, attempt_eq_ok]
  constructor
  · rintro (h | ⟨r, v, hr, h | ⟨_, w, hw, hu⟩⟩)
    · exact absurd h attempt_ne_error
    · rcases hr with ⟨a, rfl, hx⟩ | ⟨d, rfl, hx⟩
      · exact .inr (.inl ⟨a, v, hx, h⟩)
      · exact .inr (.inr ⟨d, v, hx, h⟩)
    · rcases hr with ⟨a, rfl, hx⟩ | ⟨d, rfl, hx⟩
      · simp at hu
      · simp only [ofExcept_error, EStateM.Result.error.injEq] at hu
        obtain ⟨rfl, rfl⟩ := hu
        exact .inl ⟨v, hx, hw⟩
  · rintro (⟨v, hx, hafter⟩ | ⟨a, v, hx, hafter⟩ | ⟨d, v, hx, hafter⟩)
    · exact .inr ⟨.error e, v, .inr ⟨e, rfl, hx⟩, .inr ⟨(), u, hafter, rfl⟩⟩
    · exact .inr ⟨.ok a, v, .inl ⟨a, rfl, hx⟩, .inl hafter⟩
    · exact .inr ⟨.error d, v, .inr ⟨d, rfl, hx⟩, .inl hafter⟩

/-! ### Outcome and state -/

def outcome (x : Operation σ α) (s : σ) : Except Failure α :=
  match x s with
  | .ok a _ => .ok a
  | .error e _ => .error e

/-- The state that an operation leaves, whether it succeeds or fails. -/
def stateAfter (x : Operation σ α) (s : σ) : σ :=
  match x s with
  | .ok _ u => u
  | .error _ u => u

theorem outcome_of_ok (h : x s = .ok a u) : x.outcome s = .ok a := by
  unfold outcome
  rw [h]

theorem outcome_of_error (h : x s = .error e u) : x.outcome s = .error e := by
  unfold outcome
  rw [h]

theorem stateAfter_of_ok (h : x s = .ok a u) : x.stateAfter s = u := by
  unfold stateAfter
  rw [h]

theorem stateAfter_of_error (h : x s = .error e u) : x.stateAfter s = u := by
  unfold stateAfter
  rw [h]

theorem outcome_eq_ok : x.outcome s = .ok a ↔ ∃ u, x s = .ok a u := by
  unfold outcome
  cases x s <;> simp

theorem outcome_congr {y : Operation σ α} (h : x s = y s) : x.outcome s = y.outcome s := by
  unfold outcome
  rw [h]

theorem stateAfter_congr {y : Operation σ α} (h : x s = y s) :
    x.stateAfter s = y.stateAfter s := by
  unfold stateAfter
  rw [h]

@[simp] theorem outcome_mapFailure (g : Failure → Failure) (x : Operation σ α) (s : σ) :
    (mapFailure g x).outcome s = (x.outcome s).mapError g := by
  cases h : x s with
  | ok a u =>
    rw [outcome_of_ok (mapFailure_eq_ok.2 h), outcome_of_ok h]
    rfl
  | error e u =>
    rw [outcome_of_error (mapFailure_eq_error.2 ⟨e, rfl, h⟩), outcome_of_error h]
    rfl

@[simp] theorem stateAfter_mapFailure (g : Failure → Failure) (x : Operation σ α) (s : σ) :
    (mapFailure g x).stateAfter s = x.stateAfter s := by
  cases h : x s with
  | ok a u => rw [stateAfter_of_ok (mapFailure_eq_ok.2 h), stateAfter_of_ok h]
  | error e u =>
    rw [stateAfter_of_error (mapFailure_eq_error.2 ⟨e, rfl, h⟩), stateAfter_of_error h]

theorem stateAfter_thenAlways (x : Operation σ α) (after : Operation σ Unit) (s : σ) :
    (thenAlways x after).stateAfter s = after.stateAfter (x.stateAfter s) := by
  cases h : thenAlways x after s with
  | ok a u =>
    obtain ⟨v, hx, hafter⟩ := thenAlways_eq_ok.1 h
    rw [stateAfter_of_ok h, stateAfter_of_ok hx, stateAfter_of_ok hafter]
  | error e u =>
    rw [stateAfter_of_error h]
    rcases thenAlways_eq_error.1 h with
      ⟨v, hx, hafter⟩ | ⟨a, v, hx, hafter⟩ | ⟨d, v, hx, hafter⟩
    · rw [stateAfter_of_error hx, stateAfter_of_ok hafter]
    · rw [stateAfter_of_ok hx, stateAfter_of_error hafter]
    · rw [stateAfter_of_error hx, stateAfter_of_error hafter]

/-- What holds of a state still does after an operation, whether it succeeds or fails. -/
def Maintains (P : σ → Prop) (x : Operation σ α) : Prop := ∀ s, P s → P (x.stateAfter s)

section Maintains

variable {P : σ → Prop}

theorem Maintains.of_ok (h : Maintains P x) (hx : x s = .ok a u) (hs : P s) : P u :=
  stateAfter_of_ok hx ▸ h s hs

theorem Maintains.of_error (h : Maintains P x) (hx : x s = .error e u) (hs : P s) : P u :=
  stateAfter_of_error hx ▸ h s hs

theorem maintains_pure (a : α) : Maintains P (pure a) := fun _ hs => hs

theorem maintains_ofExcept (r : Except Failure α) : Maintains P (ofExcept r) := by
  cases r <;> exact fun _ hs => hs

theorem maintains_modify {f : σ → σ} (h : ∀ s, P s → P (f s)) :
    Maintains P (modify f : Operation σ Unit) := h

theorem Maintains.bind (hx : Maintains P x) (hf : ∀ a, Maintains P (f a)) :
    Maintains P (x >>= f) := by
  intro s hs
  cases h : x s with
  | ok a v =>
    have hv := hf a v (hx.of_ok h hs)
    unfold stateAfter at hv ⊢
    rwa [bind_of_ok h]
  | error e v => exact stateAfter_of_error (bind_of_error h) ▸ hx.of_error h hs

theorem Maintains.attempt (hx : Maintains P x) : Maintains P x.attempt := by
  intro s hs
  cases h : x s with
  | ok a v => exact stateAfter_of_ok (attempt_of_ok h) ▸ hx.of_ok h hs
  | error e v => exact stateAfter_of_ok (attempt_of_error h) ▸ hx.of_error h hs

theorem Maintains.mapFailure (hx : Maintains P x) (g : Failure → Failure) :
    Maintains P (mapFailure g x) := by
  intro s hs
  rw [stateAfter_mapFailure]
  exact hx s hs

theorem Maintains.thenAlways {after : Operation σ Unit} (hx : Maintains P x)
    (hafter : Maintains P after) : Maintains P (thenAlways x after) :=
  hx.attempt.bind fun r => hafter.bind fun _ => maintains_ofExcept r

end Maintains

/-! ### Why an operation fails -/

/-- Every failure of an operation is of a kind, given with the state that it leaves. -/
def FailsWith (P : Failure → σ → Prop) (x : Operation σ α) : Prop :=
  ∀ s e u, x s = .error e u → P e u

section FailsWith

variable {P Q : Failure → σ → Prop} {K : Failure → Prop}

theorem failsWith_pure (a : α) : FailsWith P (pure a) := by
  intro s e u h
  cases h

theorem failsWith_throw (h : ∀ s, P e s) : FailsWith P (throw e : Operation σ α) := by
  intro s e' u h'
  cases h'
  exact h s

theorem failsWith_get : FailsWith P (get : Operation σ σ) := by
  intro s e u h
  cases h

theorem failsWith_modify (f : σ → σ) : FailsWith P (modify f : Operation σ Unit) := by
  intro s e u h
  cases h

theorem failsWith_ofExcept {r : Except Failure α} (h : ∀ e s, r = .error e → P e s) :
    FailsWith P (ofExcept r) := by
  intro s e u h'
  cases r with
  | ok a => cases h'
  | error e' =>
    cases h'
    exact h e s rfl

theorem FailsWith.mono (hx : FailsWith P x) (h : ∀ e s, P e s → Q e s) : FailsWith Q x :=
  fun s e u hu => h e u (hx s e u hu)

theorem FailsWith.bind (hx : FailsWith P x) (hf : ∀ a, FailsWith P (f a)) :
    FailsWith P (x >>= f) := by
  intro s e u h
  rcases bind_eq_error.1 h with h | ⟨a, v, -, h⟩
  · exact hx s e u h
  · exact hf a v e u h

/-- An operation that goes on with the result of another, be it a failure. -/
theorem FailsWith.bind_attempt {f : Except Failure α → Operation σ β} (hx : FailsWith P x)
    (hok : ∀ a, FailsWith Q (f (.ok a)))
    (herror : ∀ d v, P d v → ∀ e u, f (.error d) v = .error e u → Q e u) :
    FailsWith Q (x.attempt >>= f) := by
  intro s e u h
  rcases bind_eq_error.1 h with h | ⟨r, v, hr, h⟩
  · exact absurd h attempt_ne_error
  · rcases attempt_eq_ok.1 hr with ⟨a, rfl, -⟩ | ⟨d, rfl, hd⟩
    · exact hok a v e u h
    · exact herror d v (hx s d v hd) e u h

theorem FailsWith.mapFailure {g : Failure → Failure} (hx : FailsWith P x)
    (h : ∀ e s, P e s → Q (g e) s) : FailsWith Q (mapFailure g x) := by
  intro s e u hu
  obtain ⟨d, rfl, hd⟩ := mapFailure_eq_error.1 hu
  exact h d u (hx s d u hd)

theorem FailsWith.thenAlways {after : Operation σ Unit} (hx : FailsWith (fun e _ => K e) x)
    (hafter : FailsWith (fun e _ => K e) after) :
    FailsWith (fun e _ => K e) (thenAlways x after) :=
  hx.bind_attempt (fun a => hafter.bind fun _ => failsWith_pure a)
    fun _ v he => (hafter.bind fun _ => failsWith_throw fun _ => he) v

theorem FailsWith.within {τ : Type} {get : τ → σ} {set : σ → τ → τ} {R : Failure → τ → Prop}
    (hx : FailsWith P x) (h : ∀ e s t, P e s → R e (set s t)) :
    FailsWith R (within get set x) := by
  intro t e u hu
  obtain ⟨v, hv, rfl⟩ := within_eq_error.1 hu
  exact h e v t (hx _ e v hv)

end FailsWith

/-! ### What an operation keeps -/

/-- What is seen of a state is the same after an operation, whether it succeeds or fails. -/
def Keeps {τ : Type} (g : σ → τ) (x : Operation σ α) : Prop :=
  ∀ s, (∀ a u, x s = .ok a u → g u = g s) ∧ ∀ e u, x s = .error e u → g u = g s

section Keeps

variable {τ : Type} {g : σ → τ}

theorem Keeps.of_ok (h : Keeps g x) (hx : x s = .ok a u) : g u = g s := (h s).1 a u hx

theorem Keeps.of_error (h : Keeps g x) (hx : x s = .error e u) : g u = g s := (h s).2 e u hx

theorem Keeps.stateAfter (h : Keeps g x) (s : σ) : g (x.stateAfter s) = g s := by
  cases hx : x s with
  | ok a u => rw [stateAfter_of_ok hx, h.of_ok hx]
  | error e u => rw [stateAfter_of_error hx, h.of_error hx]

theorem Keeps.maintains (h : Keeps g x) (Q : τ → Prop) : Maintains (fun s => Q (g s)) x :=
  fun s hs => (congrArg Q (h.stateAfter s)).mpr hs

theorem Keeps.comp {ρ : Type} (h : Keeps g x) (k : τ → ρ) : Keeps (fun s => k (g s)) x :=
  fun s => ⟨fun a u hu => congrArg k ((h s).1 a u hu), fun e u hu => congrArg k ((h s).2 e u hu)⟩

theorem keeps_pure (a : α) : Keeps g (pure a) := by
  refine fun s => ⟨fun a u h => ?_, fun e u h => ?_⟩ <;> cases h
  rfl

theorem keeps_throw (e : Failure) : Keeps g (throw e : Operation σ α) := by
  refine fun s => ⟨fun a u h => ?_, fun e u h => ?_⟩ <;> cases h
  rfl

theorem keeps_ofExcept (r : Except Failure α) : Keeps g (ofExcept r) := by
  cases r with
  | ok a => exact keeps_pure a
  | error e => exact keeps_throw e

theorem keeps_get : Keeps g (get : Operation σ σ) := by
  refine fun s => ⟨fun a u h => ?_, fun e u h => ?_⟩ <;> cases h
  rfl

theorem keeps_modify {f : σ → σ} (h : ∀ s, g (f s) = g s) :
    Keeps g (modify f : Operation σ Unit) := by
  refine fun s => ⟨fun a u hm => ?_, fun e u hm => ?_⟩ <;> cases hm
  exact h s

theorem Keeps.bind (hx : Keeps g x) (hf : ∀ a, Keeps g (f a)) : Keeps g (x >>= f) := by
  refine fun s => ⟨fun b u h => ?_, fun e u h => ?_⟩
  · obtain ⟨a, v, hv, hu⟩ := bind_eq_ok.1 h
    exact ((hf a).of_ok hu).trans (hx.of_ok hv)
  · rcases bind_eq_error.1 h with h | ⟨a, v, hv, hu⟩
    · exact hx.of_error h
    · exact ((hf a).of_error hu).trans (hx.of_ok hv)

theorem Keeps.attempt (hx : Keeps g x) : Keeps g x.attempt := by
  refine fun s => ⟨fun r u h => ?_, fun e u h => absurd h attempt_ne_error⟩
  rcases attempt_eq_ok.1 h with ⟨a, -, ha⟩ | ⟨e, -, he⟩
  · exact hx.of_ok ha
  · exact hx.of_error he

theorem Keeps.mapFailure (hx : Keeps g x) (f : Failure → Failure) : Keeps g (mapFailure f x) := by
  refine fun s => ⟨fun a u h => hx.of_ok (mapFailure_eq_ok.1 h), fun e u h => ?_⟩
  obtain ⟨d, -, hd⟩ := mapFailure_eq_error.1 h
  exact hx.of_error hd

theorem Keeps.within {ρ : Type} {get : ρ → σ} {set : σ → ρ → ρ} {k : ρ → τ} (hx : Keeps g x)
    (hget : ∀ r, k r = g (get r)) (hset : ∀ s r, k (set s r) = g s) :
    Keeps k (within get set x) := by
  refine fun s => ⟨fun a u h => ?_, fun e u h => ?_⟩
  · obtain ⟨v, hv, rfl⟩ := within_eq_ok.1 h
    rw [hset, hget, hx.of_ok hv]
  · obtain ⟨v, hv, rfl⟩ := within_eq_error.1 h
    rw [hset, hget, hx.of_error hv]

end Keeps

end Operation

namespace FileOperation

open Operation

variable {α : Type} {p q : Path} {t u : FileTree} {e : Failure} {a : α}

theorem query_eq_ok {f : FileTree → Except Errno α} :
    query p f t = .ok a u ↔ p.hasNul = false ∧ f t = .ok a ∧ u = t := by
  unfold query
  cases p.hasNul <;> cases f t <;> simp [eq_comm]

theorem query_eq_error {f : FileTree → Except Errno α} :
    query p f t = .error e u ↔
      u = t ∧ (p.hasNul = true ∧ e = .embeddedNul ∨
        p.hasNul = false ∧ ∃ c, f t = .error c ∧ e = .system ⟨c, p, none⟩) := by
  unfold query
  cases p.hasNul <;> cases f t <;> simp [eq_comm, and_comm]

theorem change_eq_ok {f : FileTree → Except Errno FileTree} {r : Unit} :
    change p f t = .ok r u ↔ p.hasNul = false ∧ f t = .ok u := by
  unfold change
  cases p.hasNul <;> cases f t <;> simp

theorem change_eq_error {f : FileTree → Except Errno FileTree} :
    change p f t = .error e u ↔
      u = t ∧ (p.hasNul = true ∧ e = .embeddedNul ∨
        p.hasNul = false ∧ ∃ c, f t = .error c ∧ e = .system ⟨c, p, none⟩) := by
  unfold change
  cases p.hasNul <;> cases f t <;> simp [eq_comm, and_comm]

theorem ask_eq_ok {f : FileTree → Except Errno Bool} {b : Bool} :
    ask p f t = .ok b u ↔
      u = t ∧ (p.hasNul = true ∧ b = false ∨ p.hasNul = false ∧ f t = .ok b) := by
  unfold ask
  cases hp : p.hasNul
  · simp [query_eq_ok, hp, and_comm]
  · simp [eq_comm, and_comm]

theorem ask_eq_error {f : FileTree → Except Errno Bool} (h : ask p f t = .error e u) : u = t := by
  unfold ask at h
  split at h
  · simp at h
  · exact (query_eq_error.1 h).1

theorem resolve_eq_ok :
    resolve p t = .ok q u ↔ p.hasNul = false ∧ t.resolve p = .ok q ∧ u = t := by
  unfold resolve
  cases p.hasNul <;> cases t.resolve p <;> simp [eq_comm]

theorem resolve_eq_error (h : resolve p t = .error e u) : u = t := by
  unfold resolve at h
  split at h
  · simp_all
  · split at h <;> simp_all

theorem orAbsent_eq_ok {x : FileOperation α} {r : Option α} :
    orAbsent x t = .ok r u ↔
      (∃ a, r = some a ∧ x t = .ok a u) ∨
        r = none ∧ ∃ e, isAbsence e = true ∧ x t = .error e u := by
  unfold orAbsent
  simp only [bind_eq_ok, attempt_eq_ok]
  constructor
  · rintro ⟨s, v, ⟨a, rfl, hx⟩ | ⟨e, rfl, hx⟩, h⟩
    · simp only [pure_apply, EStateM.Result.ok.injEq] at h
      obtain ⟨rfl, rfl⟩ := h
      exact .inl ⟨a, rfl, hx⟩
    · dsimp only at h
      split at h
      · simp only [pure_apply, EStateM.Result.ok.injEq] at h
        obtain ⟨rfl, rfl⟩ := h
        exact .inr ⟨rfl, e, ‹_›, hx⟩
      · simp at h
  · rintro (⟨a, rfl, hx⟩ | ⟨rfl, e, he, hx⟩)
    · exact ⟨.ok a, u, .inl ⟨a, rfl, hx⟩, rfl⟩
    · exact ⟨.error e, u, .inr ⟨e, rfl, hx⟩, by simp [he]⟩

theorem orAbsent_eq_error {x : FileOperation α} :
    orAbsent x t = .error e u ↔ isAbsence e = false ∧ x t = .error e u := by
  unfold orAbsent
  simp only [bind_eq_error, attempt_eq_ok]
  constructor
  · rintro (h | ⟨s, v, ⟨a, rfl, hx⟩ | ⟨d, rfl, hx⟩, h⟩)
    · exact absurd h attempt_ne_error
    · simp at h
    · dsimp only at h
      split at h
      · simp at h
      · simp only [throw_apply, EStateM.Result.error.injEq] at h
        obtain ⟨rfl, rfl⟩ := h
        exact ⟨by simp_all, hx⟩
  · rintro ⟨he, hx⟩
    exact .inr ⟨.error e, u, .inr ⟨e, rfl, hx⟩, by simp [he]⟩

/-! ### What file operations keep -/

section Keeps

variable {τ : Type} {g : FileTree → τ}

theorem keeps_query (p : Path) (f : FileTree → Except Errno α) : Keeps g (query p f) := by
  refine fun s => ⟨fun a u h => ?_, fun e u h => ?_⟩
  · rw [(query_eq_ok.1 h).2.2]
  · rw [(query_eq_error.1 h).1]

theorem keeps_ask (p : Path) (f : FileTree → Except Errno Bool) : Keeps g (ask p f) := by
  refine fun s => ⟨fun a u h => ?_, fun e u h => ?_⟩
  · rw [(ask_eq_ok.1 h).1]
  · rw [ask_eq_error h]

theorem keeps_resolve (p : Path) : Keeps g (resolve p) := by
  refine fun s => ⟨fun a u h => ?_, fun e u h => ?_⟩
  · rw [(resolve_eq_ok.1 h).2.2]
  · rw [resolve_eq_error h]

theorem keeps_change {p : Path} {f : FileTree → Except Errno FileTree}
    (h : ∀ t u, f t = .ok u → g u = g t) : Keeps g (change p f) := by
  refine fun s => ⟨fun a u hc => h s u (change_eq_ok.1 hc).2, fun e u hc => ?_⟩
  rw [(change_eq_error.1 hc).1]

theorem keeps_orAbsent {x : FileOperation α} (hx : Keeps g x) : Keeps g (orAbsent x) := by
  refine hx.attempt.bind fun r => ?_
  cases r with
  | ok a => exact keeps_pure _
  | error e =>
    dsimp only
    split
    · exact keeps_pure _
    · exact keeps_throw e

end Keeps

end FileOperation
end ShellConfig
