import Mathlib.Order.Defs.Unbundled
import Mathlib.Logic.Relation

/-!
# Computations over a Store that can Fail

Keeper code runs against a store, and it can stop in two ways: it hands an error back to
its caller, or it panics. In both cases whatever it wrote before stopping is still in the
store, until somebody higher up throws the store away. `Exec ε σ α` is that shape, and this
file has the rules used to reason about it:

- **inversion**: what a successful (or failed) sequence says about its parts,
- **closure**: a relation kept by every part is kept by the whole, on every exit,
- **success**: what the rounds of a loop that completes do one after the other,
- **delivery**: running a computation as a transaction, discarded unless it succeeds.
-/

namespace GenesisEthermint.Foundation

/-- How a computation stops early: an error value for the caller, or a panic. -/
inductive Failure (ε : Type) where
  | error (e : ε)
  | panic (msg : String)
  deriving Repr, DecidableEq

/-- A computation over the store `σ` that returns an `α`, an error `ε`, or panics. -/
abbrev Exec (ε σ : Type) := EStateM (Failure ε) σ

/-- A sequence of fallible steps succeeds when each of them does. -/
theorem except_bind_ok_iff {ε α β : Type} {x : Except ε α} {f : α → Except ε β} {b : β} :
    (x >>= f) = .ok b ↔ ∃ a, x = .ok a ∧ f a = .ok b := by
  cases x with
  | ok a => simp [bind, Except.bind]
  | error e => simp [bind, Except.bind]

/-- The store a computation leaves behind, however it ended. -/
def Exec.after {ε σ α : Type} : EStateM.Result ε σ α → σ
  | .ok _ s => s
  | .error _ s => s

namespace Exec

variable {ε σ α β ι : Type}

/-- Stop with an error for the caller. -/
def fail (e : ε) : Exec ε σ α := throw (.error e)

/-- Stop with a panic. -/
def panicWith (msg : String) : Exec ε σ α := throw (.panic msg)

/-- `if c { return err }`. -/
def failIf (c : Prop) [Decidable c] (e : ε) : Exec ε σ Unit :=
  if c then fail e else pure ()

/-- `if c { panic(msg) }`. -/
def panicIf (c : Prop) [Decidable c] (msg : String) : Exec ε σ Unit :=
  if c then panicWith msg else pure ()

/-- Return the value, or stop with the error. -/
def ofExcept : Except ε α → Exec ε σ α
  | .ok a => pure a
  | .error e => fail e

/-- Return what was read, or stop as the reading did. -/
def ofRead : Except (Failure ε) α → Exec ε σ α
  | .ok a => pure a
  | .error f => throw f

/-- Replace the error of `x` by one built from it. A panic passes through. -/
def mapError (g : ε → ε) (x : Exec ε σ α) : Exec ε σ α := fun s =>
  match x s with
  | .ok a t => .ok a t
  | .error (.error e) t => .error (.error (g e)) t
  | .error (.panic m) t => .error (.panic m) t

/-- `if err != nil { panic(err) }`, after `x`; `text` is what the error says. -/
def orPanic (text : ε → String) (x : Exec ε σ α) : Exec ε σ α := fun s =>
  match x s with
  | .ok a t => .ok a t
  | .error (.error e) t => .error (.panic (text e)) t
  | .error (.panic m) t => .error (.panic m) t

/-- Run `x` and hand its error over as a value: the caller goes on. What `x` wrote before
it failed stays written, and a panic is not caught. -/
def attempt (x : Exec ε σ α) : Exec ε σ (Except ε α) := fun s =>
  match x s with
  | .ok a t => .ok (.ok a) t
  | .error (.error e) t => .ok (.error e) t
  | .error (.panic m) t => .error (.panic m) t

/-- Run `x` as a transaction: its writes are kept only if it succeeds. -/
def deliver (x : Exec ε σ α) (s : σ) : σ :=
  match x s with
  | .ok _ t => t
  | .error _ _ => s

/-! ## What the elementary steps do -/

theorem get_run (s : σ) : (get : Exec ε σ σ) s = .ok s s := rfl

theorem modify_run (g : σ → σ) (s : σ) : (modify g : Exec ε σ PUnit) s = .ok ⟨⟩ (g s) := rfl

theorem throw_run (f : Failure ε) (s : σ) : (throw f : Exec ε σ α) s = .error f s := rfl

/-! ## Inversion -/

theorem bind_ok_iff {x : Exec ε σ α} {f : α → Exec ε σ β} {s t : σ} {b : β} :
    (x >>= f) s = .ok b t ↔ ∃ a u, x s = .ok a u ∧ f a u = .ok b t := by
  simp only [bind, EStateM.bind]
  cases x s <;> simp [and_assoc]

theorem bind_error_iff {x : Exec ε σ α} {f : α → Exec ε σ β} {s t : σ} {e : Failure ε} :
    (x >>= f) s = .error e t ↔
      x s = .error e t ∨ ∃ a u, x s = .ok a u ∧ f a u = .error e t := by
  simp only [bind, EStateM.bind]
  cases x s <;> simp [and_assoc]

/-- A sequence whose first part succeeds continues with the second. -/
theorem bind_of_ok {x : Exec ε σ α} {f : α → Exec ε σ β} {s u : σ} {a : α}
    (h : x s = .ok a u) : (x >>= f) s = f a u := by
  simp only [bind, EStateM.bind, h]

/-- A sequence whose first part fails fails the same way. -/
theorem bind_of_error {x : Exec ε σ α} {f : α → Exec ε σ β} {s u : σ} {e : Failure ε}
    (h : x s = .error e u) : (x >>= f) s = .error e u := by
  simp only [bind, EStateM.bind, h]

theorem pure_ok_iff {s t : σ} {a b : α} :
    (pure a : Exec ε σ α) s = .ok b t ↔ a = b ∧ s = t := by
  simp [pure, EStateM.pure]

theorem pure_error_iff {s t : σ} {a : α} {e : Failure ε} :
    (pure a : Exec ε σ α) s = .error e t ↔ False := by
  simp [pure, EStateM.pure]

theorem get_ok_iff {s t a : σ} : (get : Exec ε σ σ) s = .ok a t ↔ s = a ∧ s = t := by
  rw [get_run, EStateM.Result.ok.injEq]

theorem get_error_iff {s t : σ} {e : Failure ε} :
    (get : Exec ε σ σ) s = .error e t ↔ False := by
  simp [get_run]

theorem modify_ok_iff {g : σ → σ} {s t : σ} {u : Unit} :
    (modify g : Exec ε σ Unit) s = .ok u t ↔ t = g s := by
  simp only [modify_run, EStateM.Result.ok.injEq, true_and]
  exact eq_comm

theorem modify_error_iff {g : σ → σ} {s t : σ} {e : Failure ε} :
    (modify g : Exec ε σ Unit) s = .error e t ↔ False := by
  simp [modify_run]

theorem fail_ok_iff {e : ε} {s t : σ} {a : α} :
    (fail e : Exec ε σ α) s = .ok a t ↔ False := by
  simp [fail, throw_run]

theorem fail_error_iff {e : ε} {f : Failure ε} {s t : σ} :
    (fail e : Exec ε σ α) s = .error f t ↔ f = .error e ∧ t = s := by
  rw [fail, throw_run, EStateM.Result.error.injEq]
  exact and_congr eq_comm eq_comm

theorem failIf_ok_iff {c : Prop} [Decidable c] {e : ε} {s t : σ} {u : Unit} :
    (failIf c e : Exec ε σ Unit) s = .ok u t ↔ ¬ c ∧ s = t := by
  unfold failIf
  by_cases h : c
  · simp [h, fail_ok_iff]
  · simp [h, pure_ok_iff]

theorem failIf_error_iff {c : Prop} [Decidable c] {e : ε} {f : Failure ε} {s t : σ} :
    (failIf c e : Exec ε σ Unit) s = .error f t ↔ c ∧ f = .error e ∧ t = s := by
  unfold failIf
  by_cases h : c
  · simp [h, fail_error_iff]
  · simp [h, pure_error_iff]

theorem panicIf_ok_iff {c : Prop} [Decidable c] {m : String} {s t : σ} {u : Unit} :
    (panicIf c m : Exec ε σ Unit) s = .ok u t ↔ ¬ c ∧ s = t := by
  unfold panicIf
  by_cases h : c
  · simp [h, panicWith, throw_run]
  · simp [h, pure_ok_iff]

theorem panicIf_error_iff {c : Prop} [Decidable c] {m : String} {f : Failure ε} {s t : σ} :
    (panicIf c m : Exec ε σ Unit) s = .error f t ↔ c ∧ f = .panic m ∧ t = s := by
  unfold panicIf
  by_cases h : c
  · simp only [h, if_true, panicWith, throw_run, EStateM.Result.error.injEq, true_and]
    exact and_congr eq_comm eq_comm
  · simp [h, pure_error_iff]

theorem ofExcept_ok_iff {r : Except ε α} {s t : σ} {a : α} :
    (ofExcept r : Exec ε σ α) s = .ok a t ↔ r = .ok a ∧ s = t := by
  cases r with
  | ok b => simp [ofExcept, pure_ok_iff]
  | error e => simp [ofExcept, fail_ok_iff]

theorem ofExcept_error_iff {r : Except ε α} {f : Failure ε} {s t : σ} :
    (ofExcept r : Exec ε σ α) s = .error f t ↔ ∃ e, r = .error e ∧ f = .error e ∧ t = s := by
  cases r with
  | ok b => simp [ofExcept, pure_error_iff]
  | error e => simp [ofExcept, fail_error_iff]

theorem ofRead_ok_iff {r : Except (Failure ε) α} {s t : σ} {a : α} :
    (ofRead r : Exec ε σ α) s = .ok a t ↔ r = .ok a ∧ s = t := by
  cases r with
  | ok b => simp [ofRead, pure_ok_iff]
  | error f => simp [ofRead, throw_run]

theorem mapError_ok_iff {g : ε → ε} {x : Exec ε σ α} {s t : σ} {a : α} :
    mapError g x s = .ok a t ↔ x s = .ok a t := by
  unfold mapError
  cases x s with
  | ok b u => simp
  | error f u => cases f <;> simp

theorem mapError_error_iff {g : ε → ε} {x : Exec ε σ α} {s t : σ} {f : Failure ε} :
    mapError g x s = .error f t ↔
      (∃ e, f = .error (g e) ∧ x s = .error (.error e) t) ∨
      (∃ m, f = .panic m ∧ x s = .error (.panic m) t) := by
  unfold mapError
  cases x s with
  | ok b u => simp
  | error h u =>
    cases h with
    | error e =>
      simp only [EStateM.Result.error.injEq, Failure.error.injEq, reduceCtorEq, false_and,
        and_false, exists_false, or_false]
      exact ⟨fun ⟨h, h'⟩ => ⟨e, h.symm, rfl, h'⟩, fun ⟨_, h, he, h'⟩ => ⟨he ▸ h.symm, h'⟩⟩
    | panic m =>
      simp only [EStateM.Result.error.injEq, Failure.panic.injEq, reduceCtorEq, false_and,
        and_false, exists_false, false_or]
      exact ⟨fun ⟨h, h'⟩ => ⟨m, h.symm, rfl, h'⟩, fun ⟨_, h, hm, h'⟩ => ⟨hm ▸ h.symm, h'⟩⟩

theorem orPanic_ok_iff {text : ε → String} {x : Exec ε σ α} {s t : σ} {a : α} :
    orPanic text x s = .ok a t ↔ x s = .ok a t := by
  unfold orPanic
  cases x s with
  | ok b u => simp
  | error f u => cases f <;> simp

theorem orPanic_error {text : ε → String} {x : Exec ε σ α} {s t : σ} {f : Failure ε}
    (h : orPanic text x s = .error f t) : (∃ m, f = .panic m) ∧ ∃ g, x s = .error g t := by
  unfold orPanic at h
  cases hx : x s with
  | ok b u =>
    rw [hx] at h
    cases h
  | error g u =>
    rw [hx] at h
    cases g with
    | error e =>
      cases h
      exact ⟨⟨_, rfl⟩, _, rfl⟩
    | panic m =>
      cases h
      exact ⟨⟨_, rfl⟩, _, rfl⟩

theorem attempt_ok_iff {x : Exec ε σ α} {s t : σ} {r : Except ε α} :
    attempt x s = .ok r t ↔
      (∃ a, r = .ok a ∧ x s = .ok a t) ∨ (∃ e, r = .error e ∧ x s = .error (.error e) t) := by
  unfold attempt
  cases x s with
  | ok a u => cases r <;> simp
  | error f u => cases f <;> cases r <;> simp

theorem attempt_error_iff {x : Exec ε σ α} {s t : σ} {f : Failure ε} :
    attempt x s = .error f t ↔ ∃ m, f = .panic m ∧ x s = .error (.panic m) t := by
  unfold attempt
  cases x s with
  | ok a u => simp
  | error g u =>
    cases g with
    | error e => simp
    | panic m =>
      simp only [EStateM.Result.error.injEq, Failure.panic.injEq]
      constructor
      · rintro ⟨rfl, rfl⟩
        exact ⟨m, rfl, rfl, rfl⟩
      · rintro ⟨_, rfl, rfl, rfl⟩
        exact ⟨rfl, rfl⟩

/-! ## Running the first part of a sequence -/

theorem get_bind (f : σ → Exec ε σ α) (s : σ) : ((get : Exec ε σ σ) >>= f) s = f s s := rfl

theorem modify_bind (g : σ → σ) (f : PUnit → Exec ε σ α) (s : σ) :
    ((modify g : Exec ε σ PUnit) >>= f) s = f ⟨⟩ (g s) := rfl

theorem failIf_bind (c : Prop) [Decidable c] (e : ε) (f : Unit → Exec ε σ α) (s : σ) :
    (failIf c e >>= f) s = if c then .error (.error e) s else f () s := by
  unfold failIf
  split <;> rfl

theorem panicIf_bind (c : Prop) [Decidable c] (m : String) (f : Unit → Exec ε σ α) (s : σ) :
    (panicIf c m >>= f) s = if c then .error (.panic m) s else f () s := by
  unfold panicIf
  split <;> rfl

theorem ofExcept_bind (r : Except ε α) (f : α → Exec ε σ β) (s : σ) :
    (ofExcept r >>= f) s =
      match r with
      | .ok a => f a s
      | .error e => .error (.error e) s := by
  cases r <;> rfl

/-! ## Closure: what every part keeps, the whole keeps -/

/-- On every exit, the store of `x` is related by `R` to the store it started from. -/
def Relates (R : σ → σ → Prop) (x : Exec ε σ α) : Prop := ∀ s, R s (after (x s))

variable {R : σ → σ → Prop}

theorem Relates.of_ok {x : Exec ε σ α} {s t : σ} {a : α} (h : Relates R x)
    (hx : x s = .ok a t) : R s t := by
  simpa [hx, after] using h s

theorem Relates.of_error {x : Exec ε σ α} {s t : σ} {e : Failure ε} (h : Relates R x)
    (hx : x s = .error e t) : R s t := by
  simpa [hx, after] using h s

theorem relates_of_exits {x : Exec ε σ α} (hok : ∀ s a t, x s = .ok a t → R s t)
    (herr : ∀ s e t, x s = .error e t → R s t) : Relates R x := by
  intro s
  cases hx : x s with
  | ok a t => exact hok s a t hx
  | error e t => exact herr s e t hx

theorem relates_pure [Std.Refl R] (a : α) : Relates R (pure a : Exec ε σ α) :=
  fun s => Std.Refl.refl s

theorem relates_fail [Std.Refl R] (e : ε) : Relates R (fail e : Exec ε σ α) :=
  fun s => Std.Refl.refl s

theorem relates_get [Std.Refl R] : Relates R (get : Exec ε σ σ) :=
  fun s => Std.Refl.refl s

theorem relates_failIf [Std.Refl R] (c : Prop) [Decidable c] (e : ε) :
    Relates R (failIf c e : Exec ε σ Unit) := by
  unfold failIf
  split
  · exact relates_fail e
  · exact relates_pure ()

theorem relates_panicIf [Std.Refl R] (c : Prop) [Decidable c] (m : String) :
    Relates R (panicIf c m : Exec ε σ Unit) := by
  unfold panicIf
  split
  · exact fun s => Std.Refl.refl s
  · exact relates_pure ()

theorem relates_ofExcept [Std.Refl R] (r : Except ε α) :
    Relates R (ofExcept r : Exec ε σ α) := by
  cases r with
  | ok a => exact relates_pure a
  | error e => exact relates_fail e

theorem relates_ofRead [Std.Refl R] (r : Except (Failure ε) α) :
    Relates R (ofRead r : Exec ε σ α) := by
  cases r with
  | ok a => exact relates_pure a
  | error f => exact fun s => Std.Refl.refl s

theorem relates_modify {g : σ → σ} (h : ∀ s, R s (g s)) :
    Relates R (modify g : Exec ε σ Unit) :=
  fun s => h s

theorem relates_bind [IsTrans σ R] {x : Exec ε σ α} {f : α → Exec ε σ β}
    (hx : Relates R x) (hf : ∀ a, Relates R (f a)) : Relates R (x >>= f) := by
  intro s
  cases h : x s with
  | ok a t =>
    rw [bind_of_ok h]
    exact Trans.trans (hx.of_ok h) (hf a t)
  | error e t =>
    rw [bind_of_error h]
    exact hx.of_error h

theorem relates_mapError {g : ε → ε} {x : Exec ε σ α} (hx : Relates R x) :
    Relates R (mapError g x) := by
  refine relates_of_exits (fun s a t h => hx.of_ok (mapError_ok_iff.mp h)) fun s e t h => ?_
  rcases mapError_error_iff.mp h with ⟨e, -, h⟩ | ⟨m, -, h⟩
  · exact hx.of_error h
  · exact hx.of_error h

theorem relates_orPanic {text : ε → String} {x : Exec ε σ α} (hx : Relates R x) :
    Relates R (orPanic text x) := by
  refine relates_of_exits (fun s a t h => hx.of_ok (orPanic_ok_iff.mp h)) fun s f t h => ?_
  obtain ⟨-, g, hg⟩ := orPanic_error h
  exact hx.of_error hg

theorem relates_discard [Std.Refl R] [IsTrans σ R] {x : Exec ε σ α} (hx : Relates R x) :
    Relates R (Functor.discard x) :=
  relates_bind hx fun _ => relates_pure _

theorem relates_attempt {x : Exec ε σ α} (hx : Relates R x) : Relates R (attempt x) := by
  refine relates_of_exits (fun s r t h => ?_) (fun s e t h => ?_)
  · rcases attempt_ok_iff.mp h with ⟨a, -, h⟩ | ⟨e, -, h⟩
    · exact hx.of_ok h
    · exact hx.of_error h
  · obtain ⟨m, -, h⟩ := attempt_error_iff.mp h
    exact hx.of_error h

/-- A loop keeps what each round of it keeps. -/
theorem relates_forM [Std.Refl R] [IsTrans σ R] {f : ι → Exec ε σ PUnit} (l : List ι)
    (hf : ∀ i ∈ l, Relates R (f i)) : Relates R (forM l f) := by
  induction l with
  | nil => exact relates_pure _
  | cons i rest ih =>
    rw [List.forM_cons]
    exact relates_bind (hf i (List.mem_cons_self ..))
      fun _ => ih fun j hj => hf j (List.mem_cons_of_mem _ hj)

/-- Keeping a part `π` of the store, as a relation. -/
abbrev SameOn {τ : Type} (π : σ → τ) : σ → σ → Prop := fun s t => π t = π s

instance {τ : Type} (π : σ → τ) : Std.Refl (SameOn π) := ⟨fun _ => rfl⟩

instance {τ : Type} (π : σ → τ) : IsTrans σ (SameOn π) := ⟨fun _ _ _ h h' => h'.trans h⟩

/-! ## Loops that complete -/

/-- A loop that completes went through its rounds one after the other. -/
theorem forM_cons_ok_iff {f : ι → Exec ε σ PUnit} {i : ι} {l : List ι} {s t : σ} {u : PUnit} :
    forM (i :: l) f s = .ok u t ↔ ∃ v, f i s = .ok ⟨⟩ v ∧ forM l f v = .ok u t := by
  rw [List.forM_cons, bind_ok_iff]
  constructor
  · rintro ⟨_, v, hi, hl⟩
    exact ⟨v, hi, hl⟩
  · rintro ⟨v, hi, hl⟩
    exact ⟨_, v, hi, hl⟩

theorem forM_nil_ok_iff {f : ι → Exec ε σ PUnit} {s t : σ} {u : PUnit} :
    forM [] f s = .ok u t ↔ t = s := by
  rw [List.forM_nil, pure_ok_iff]
  simp only [true_and]
  exact eq_comm

/-- A loop over two lists is one loop after the other. -/
theorem forM_append_ok_iff {f : ι → Exec ε σ PUnit} {l r : List ι} {s t : σ} {u : PUnit} :
    forM (l ++ r) f s = .ok u t ↔ ∃ v, forM l f s = .ok ⟨⟩ v ∧ forM r f v = .ok u t := by
  rw [List.forM_append, bind_ok_iff]
  constructor
  · rintro ⟨_, v, hl, hr⟩
    exact ⟨v, hl, hr⟩
  · rintro ⟨v, hl, hr⟩
    exact ⟨_, v, hl, hr⟩

/-- **Loop rule.** What every completed round preserves holds when the loop has completed. -/
theorem forM_preserves {P : σ → Prop} {f : ι → Exec ε σ PUnit} {l : List ι} {s t : σ}
    {u : PUnit} (hf : ∀ i s t, P s → f i s = .ok ⟨⟩ t → P t) (hs : P s)
    (h : forM l f s = .ok u t) : P t := by
  induction l generalizing s with
  | nil =>
    obtain rfl := forM_nil_ok_iff.mp h
    exact hs
  | cons i rest ih =>
    obtain ⟨v, hi, hl⟩ := forM_cons_ok_iff.mp h
    exact ih (hf i s v hs hi) hl

/-- **Loop rule, for success.** A loop completes if every round completes from what the rounds
before it preserve. -/
theorem forM_completes {P : σ → Prop} {f : ι → Exec ε σ PUnit} {l : List ι} {s : σ}
    (hf : ∀ i ∈ l, ∀ s, P s → ∃ t, f i s = .ok ⟨⟩ t ∧ P t) (hs : P s) :
    ∃ t, forM l f s = .ok ⟨⟩ t ∧ P t := by
  induction l generalizing s with
  | nil => exact ⟨s, forM_nil_ok_iff.mpr rfl, hs⟩
  | cons i rest ih =>
    obtain ⟨u, hi, hu⟩ := hf i (List.mem_cons_self ..) s hs
    obtain ⟨t, hrest, ht⟩ := ih (fun j hj => hf j (List.mem_cons_of_mem _ hj)) hu
    exact ⟨t, forM_cons_ok_iff.mpr ⟨u, hi, hrest⟩, ht⟩

/-- **Loop rule, for different items.** Each item has to be ready when its round comes, and a
round spoils no other item. The loop completes, or it stops as one of its rounds does. -/
theorem forM_distinct {I : σ → Prop} {R : ι → σ → Prop} {E : Failure ε → σ → Prop}
    {f : ι → Exec ε σ PUnit}
    (hround : ∀ {i s}, I s → R i s →
      (∃ t, f i s = .ok ⟨⟩ t ∧ I t ∧ ∀ j, j ≠ i → R j s → R j t) ∨
        ∃ e t, f i s = .error e t ∧ E e t)
    {l : List ι} (hl : l.Nodup) {s : σ} (hs : I s) (hready : ∀ i ∈ l, R i s) :
    (∃ t, forM l f s = .ok ⟨⟩ t ∧ I t) ∨ ∃ e t, forM l f s = .error e t ∧ E e t := by
  induction l generalizing s with
  | nil => exact .inl ⟨s, forM_nil_ok_iff.mpr rfl, hs⟩
  | cons i rest ih =>
    obtain ⟨hnot, hrest⟩ := List.nodup_cons.mp hl
    rw [List.forM_cons]
    rcases hround hs (hready i List.mem_cons_self) with ⟨u, hi, hu, hkept⟩ | ⟨e, t, hi, he⟩
    · rw [bind_of_ok hi]
      exact ih hrest hu fun j hj =>
        hkept j (fun heq => hnot (heq ▸ hj)) (hready j (List.mem_cons_of_mem _ hj))
    · exact .inr ⟨e, t, bind_of_error hi, he⟩

/-- A loop that stops has stopped in a round of it. -/
theorem forM_error {f : ι → Exec ε σ PUnit} {l : List ι} {s t : σ} {e : Failure ε}
    (h : forM l f s = .error e t) : ∃ i ∈ l, ∃ u, f i u = .error e t := by
  induction l generalizing s with
  | nil => cases h
  | cons i rest ih =>
    rw [List.forM_cons] at h
    rcases bind_error_iff.mp h with h | ⟨_, u, -, h⟩
    · exact ⟨i, List.mem_cons_self, s, h⟩
    · obtain ⟨j, hj, hstop⟩ := ih h
      exact ⟨j, List.mem_cons_of_mem _ hj, hstop⟩

/-- A loop whose rounds always complete completes. -/
theorem forM_completes_of_forall {f : ι → Exec ε σ PUnit} {l : List ι} (s : σ)
    (hf : ∀ i ∈ l, ∀ s, ∃ t, f i s = .ok ⟨⟩ t) : ∃ t, forM l f s = .ok ⟨⟩ t := by
  obtain ⟨t, ht, -⟩ := forM_completes (P := fun _ => True) (s := s)
    (fun i hi s _ => (hf i hi s).imp fun _ h => ⟨h, trivial⟩) trivial
  exact ⟨t, ht⟩

/-! ## Avoiding a failure -/

/-- From the store `s`, the computation does not end with the failure `f`. -/
def Avoids (f : Failure ε) (x : Exec ε σ α) (s : σ) : Prop := ∀ t, x s ≠ .error f t

theorem avoids_of_ok {f : Failure ε} {x : Exec ε σ α} {s t : σ} {a : α} (h : x s = .ok a t) :
    Avoids f x s := by
  intro t' hf
  rw [h] at hf
  cases hf

theorem avoids_of_error {f g : Failure ε} {x : Exec ε σ α} {s t : σ} (h : x s = .error g t)
    (hne : g ≠ f) : Avoids f x s := by
  intro t' hf
  rw [h] at hf
  exact hne (EStateM.Result.error.inj hf).1

theorem avoids_bind {f : Failure ε} {x : Exec ε σ α} {g : α → Exec ε σ β} {s : σ}
    (hx : Avoids f x s) (hg : ∀ a t, x s = .ok a t → Avoids f (g a) t) :
    Avoids f (x >>= g) s := by
  intro t h
  rcases bind_error_iff.mp h with h | ⟨a, u, hxa, h⟩
  · exact hx t h
  · exact hg a u hxa t h

section Panics

variable {m : String} {s : σ}

theorem avoids_get : Avoids (.panic m) (get : Exec ε σ σ) s :=
  avoids_of_ok rfl

theorem avoids_failIf (c : Prop) [Decidable c] (e : ε) :
    Avoids (.panic m) (failIf c e : Exec ε σ Unit) s := by
  intro t h
  cases (failIf_error_iff.mp h).2.1

theorem avoids_panicIf (c : Prop) [Decidable c] {m' : String} (hne : m' ≠ m) :
    Avoids (.panic m) (panicIf c m' : Exec ε σ Unit) s := by
  intro t h
  exact hne (Failure.panic.inj (panicIf_error_iff.mp h).2.1).symm

theorem avoids_modify (g : σ → σ) : Avoids (.panic m) (modify g : Exec ε σ PUnit) s :=
  avoids_of_ok (modify_run g s)

theorem avoids_pure (a : α) : Avoids (.panic m) (pure a : Exec ε σ α) s :=
  avoids_of_ok rfl

theorem avoids_forM {f : ι → Exec ε σ PUnit} (l : List ι)
    (hf : ∀ i ∈ l, ∀ s, Avoids (.panic m) (f i) s) : Avoids (.panic m) (forM l f) s := by
  induction l generalizing s with
  | nil => exact avoids_pure _
  | cons i rest ih =>
    rw [List.forM_cons]
    exact avoids_bind (hf i (List.mem_cons_self ..) s)
      fun _ _ _ => ih fun j hj => hf j (List.mem_cons_of_mem _ hj)

theorem avoids_ofExcept (r : Except ε α) : Avoids (.panic m) (ofExcept r : Exec ε σ α) s := by
  intro t h
  obtain ⟨e, -, he, -⟩ := ofExcept_error_iff.mp h
  cases he

theorem avoids_fail (e : ε) : Avoids (.panic m) (fail e : Exec ε σ α) s := by
  intro t h
  cases (fail_error_iff.mp h).1

theorem avoids_discard {x : Exec ε σ α} (hx : Avoids (.panic m) x s) :
    Avoids (.panic m) (Functor.discard x) s := by
  intro t h
  have hdiscard : (Functor.discard x : Exec ε σ PUnit) = x >>= fun _ => pure ⟨⟩ := rfl
  rw [hdiscard] at h
  rcases bind_error_iff.mp h with h | ⟨a, u, -, h⟩
  · exact hx t h
  · exact pure_error_iff.mp h

theorem avoids_mapError {g : ε → ε} {x : Exec ε σ α} (hx : Avoids (.panic m) x s) :
    Avoids (.panic m) (mapError g x) s := by
  intro t h
  rcases mapError_error_iff.mp h with ⟨e, he, -⟩ | ⟨m', hm, h⟩
  · cases he
  · exact hx t (hm ▸ h)

theorem avoids_attempt {x : Exec ε σ α} (hx : Avoids (.panic m) x s) :
    Avoids (.panic m) (attempt x) s := by
  intro t h
  obtain ⟨m', hm, h⟩ := attempt_error_iff.mp h
  exact hx t (hm ▸ h)

end Panics

/-! ## Delivery -/

theorem deliver_of_ok {x : Exec ε σ α} {s t : σ} {a : α} (h : x s = .ok a t) :
    deliver x s = t := by
  simp [deliver, h]

theorem deliver_of_error {x : Exec ε σ α} {s t : σ} {e : Failure ε} (h : x s = .error e t) :
    deliver x s = s := by
  simp [deliver, h]

/-- A computation whose value is dropped succeeded with some value. -/
theorem discard_ok {x : Exec ε σ α} {s t : σ} {u : Unit} (h : Functor.discard x s = .ok u t) :
    ∃ a, x s = .ok a t := by
  have hmap : Functor.discard x = x >>= fun _ => pure () := by
    simp [Functor.discard, map_const]
  rw [hmap] at h
  obtain ⟨a, v, hx, h⟩ := bind_ok_iff.mp h
  obtain ⟨-, rfl⟩ := pure_ok_iff.mp h
  exact ⟨a, hx⟩

theorem discard_of_ok {x : Exec ε σ α} {s t : σ} {a : α} (h : x s = .ok a t) :
    Functor.discard x s = .ok () t := by
  have hmap : Functor.discard x = x >>= fun _ => pure () := by
    simp [Functor.discard, map_const]
  rw [hmap]
  exact bind_ok_iff.mpr ⟨a, t, h, pure_ok_iff.mpr ⟨rfl, rfl⟩⟩

/-- Whether the computation succeeds, by running it. -/
def succeeds (x : Exec ε σ α) (s : σ) : Bool :=
  match x s with
  | .ok _ _ => true
  | .error _ _ => false

theorem exists_ok {x : Exec ε σ Unit} {s : σ} (h : x.succeeds s = true) :
    ∃ t, x s = .ok () t := by
  unfold succeeds at h
  cases hx : x s with
  | ok u t => exact ⟨t, rfl⟩
  | error e t =>
    rw [hx] at h
    cases h

/-- Whether the computation succeeds with this value, by running it. -/
def returns [DecidableEq α] (x : Exec ε σ α) (s : σ) (a : α) : Bool :=
  match x s with
  | .ok b _ => b = a
  | .error _ _ => false

theorem exists_ok_of_returns [DecidableEq α] {x : Exec ε σ α} {s : σ} {a : α}
    (h : x.returns s a = true) : ∃ t, x s = .ok a t := by
  unfold returns at h
  cases hx : x s with
  | ok b t =>
    rw [hx] at h
    exact ⟨t, by rw [of_decide_eq_true h]⟩
  | error e t =>
    rw [hx] at h
    cases h

theorem ne_ok_of_succeeds {x : Exec ε σ α} {s : σ} (h : x.succeeds s = false) (a : α) (t : σ) :
    x s ≠ .ok a t := by
  intro hx
  rw [succeeds, hx] at h
  cases h

/-- A delivered computation either succeeded or changed nothing. -/
theorem deliver_cases (x : Exec ε σ α) (s : σ) :
    (∃ a, x s = .ok a (deliver x s)) ∨ deliver x s = s := by
  cases h : x s with
  | ok a t => exact .inl ⟨a, by rw [deliver_of_ok h]⟩
  | error e t => exact .inr (deliver_of_error h)

/-- A delivery that changed something succeeded. -/
theorem ok_of_deliver_ne {x : Exec ε σ α} {s : σ} (h : deliver x s ≠ s) :
    ∃ a, x s = .ok a (deliver x s) :=
  (deliver_cases x s).resolve_right h

end Exec

end GenesisEthermint.Foundation
