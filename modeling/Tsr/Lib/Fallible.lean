import Mathlib

/-!
# Computations on a state that may fail

`Fallible σ ε α` runs on a state of type `σ` and ends with a value or an error; the state it has
reached survives the error.  Four judgements on such computations, each with a rule for every way
of building one:

* `Simulates R err P f x y Q`   from related states, `x` and `y` end alike: the results agree up to
                                `f` and `err`, the states stay related, and a value of `x` meets `Q`;
* `Keeps I P x Q`               `x` preserves `I`; started in `P`, its value meets `Q`;
* `Gives P x r P'`              from every state of `P`, `x` ends with the result `r`, in `P'`;
* `Succeeds P x Q`              from every state of `P`, `x` ends with a value that meets `Q`.
-/

set_option linter.unusedVariables false

namespace Tsr.Lib

def Fallible (σ ε α : Type) := σ → Except ε α × σ

namespace Fallible

variable {σ τ ε ε' α β γ δ : Type}

instance : Monad (Fallible σ ε) where
  pure a := fun s => (.ok a, s)
  bind x k := fun s =>
    match x s with
    | (.ok a, s') => k a s'
    | (.error e, s') => (.error e, s')

/-- stop with an error -/
def fail (e : ε) : Fallible σ ε α := fun s => (.error e, s)

/-- a value read off the state -/
def read (g : σ → α) : Fallible σ ε α := fun s => (.ok (g s), s)

/-- a result read off the state, which may be an error -/
def look (g : σ → Except ε α) : Fallible σ ε α := fun s => (g s, s)

def change (g : σ → σ) : Fallible σ ε Unit := fun s => (.ok (), g s)

/-- the value, or `none` for an error -/
def attempt (x : Fallible σ ε α) : Fallible σ ε (Option α) := fun s =>
  match x s with
  | (.ok a, s') => (.ok (some a), s')
  | (.error _, s') => (.ok none, s')

/-- the error rewritten, with the state it was raised in at hand -/
def mapError (g : σ → ε → ε') (x : Fallible σ ε α) : Fallible σ ε' α := fun s =>
  match x s with
  | (.ok a, s') => (.ok a, s')
  | (.error e, s') => (.error (g s' e), s')

/-- a computation on one part of the state -/
def onPart (get : σ → τ) (set : τ → σ → σ) (x : Fallible τ ε α) : Fallible σ ε α := fun s =>
  ((x (get s)).1, set (x (get s)).2 s)

/-! ## running -/

theorem bind_run_ok {x : Fallible σ ε α} {k : α → Fallible σ ε β} {s s' : σ} {a : α}
    (h : x s = (.ok a, s')) : (x >>= k) s = k a s' := by
  show (match x s with | (.ok a, s') => k a s' | (.error e, s') => (.error e, s')) = _
  rw [h]

theorem bind_run_error {x : Fallible σ ε α} {k : α → Fallible σ ε β} {s s' : σ} {e : ε}
    (h : x s = (.error e, s')) : (x >>= k) s = (.error e, s') := by
  show (match x s with | (.ok a, s') => k a s' | (.error e, s') => (.error e, s')) = _
  rw [h]

/-- either way a computation can end -/
theorem ends (x : Fallible σ ε α) (s : σ) :
    (∃ a s', x s = (.ok a, s')) ∨ ∃ e s', x s = (.error e, s') := by
  rcases h : x s with ⟨r, s'⟩
  cases r with
  | ok a => exact .inl ⟨a, s', rfl⟩
  | error e => exact .inr ⟨e, s', rfl⟩

/-- a successful block taken apart into its steps -/
theorem bind_eq_ok {x : Fallible σ ε α} {k : α → Fallible σ ε β} {s s'' : σ} {b : β}
    (h : (x >>= k) s = (.ok b, s'')) : ∃ a s', x s = (.ok a, s') ∧ k a s' = (.ok b, s'') := by
  rcases ends x s with ⟨a, s', hx⟩ | ⟨e, s', hx⟩
  · rw [bind_run_ok hx] at h
    exact ⟨a, s', hx, h⟩
  · rw [bind_run_error hx] at h
    cases h

/-- a failed block failed in one of its steps -/
theorem bind_eq_error {x : Fallible σ ε α} {k : α → Fallible σ ε β} {s s'' : σ} {e : ε}
    (h : (x >>= k) s = (.error e, s'')) :
    x s = (.error e, s'') ∨ ∃ a s', x s = (.ok a, s') ∧ k a s' = (.error e, s'') := by
  rcases ends x s with ⟨a, s', hx⟩ | ⟨e', s', hx⟩
  · rw [bind_run_ok hx] at h
    exact .inr ⟨a, s', hx, h⟩
  · rw [bind_run_error hx] at h
    cases h
    exact .inl hx

theorem mapError_eq_ok {g : σ → ε → ε'} {x : Fallible σ ε α} {s s' : σ} {a : α}
    (h : mapError g x s = (.ok a, s')) : x s = (.ok a, s') := by
  rcases ends x s with ⟨b, t, hx⟩ | ⟨e, t, hx⟩
  · rw [mapError, hx] at h
    cases h
    exact hx
  · rw [mapError, hx] at h
    cases h

theorem mapError_eq_error {g : σ → ε → ε'} {x : Fallible σ ε α} {s s' : σ} {e' : ε'}
    (h : mapError g x s = (.error e', s')) : ∃ e, x s = (.error e, s') ∧ e' = g s' e := by
  rcases ends x s with ⟨b, t, hx⟩ | ⟨e, t, hx⟩
  · rw [mapError, hx] at h
    cases h
  · rw [mapError, hx] at h
    cases h
    exact ⟨e, hx, rfl⟩

theorem onPart_eq_error {get : σ → τ} {set : τ → σ → σ} {x : Fallible τ ε α} {s s' : σ} {e : ε}
    (h : onPart get set x s = (.error e, s')) : ∃ t, x (get s) = (.error e, t) ∧ s' = set t s := by
  obtain ⟨h1, h2⟩ := Prod.mk.inj h
  exact ⟨(x (get s)).2, Prod.ext h1 rfl, h2.symm⟩

theorem onPart_eq_ok {get : σ → τ} {set : τ → σ → σ} {x : Fallible τ ε α} {s s' : σ} {a : α}
    (h : onPart get set x s = (.ok a, s')) : ∃ t, x (get s) = (.ok a, t) ∧ s' = set t s := by
  obtain ⟨h1, h2⟩ := Prod.mk.inj h
  exact ⟨(x (get s)).2, Prod.ext h1 rfl, h2.symm⟩

/-! ## two computations in step -/

/-- a result with its value and its error renamed -/
def both (err : ε → ε') (f : α → β) : Except ε α → Except ε' β
  | .ok a => .ok (f a)
  | .error e => .error (err e)

/-- from related states, `x` and `y` end alike -/
def Simulates (R : σ → τ → Prop) (err : ε → ε') (P : σ → Prop) (f : α → β)
    (x : Fallible σ ε α) (y : Fallible τ ε' β) (Q : α → σ → Prop) : Prop :=
  ∀ s t, R s t → P s → (y t).1 = both err f (x s).1 ∧ R (x s).2 (y t).2 ∧
    ∀ a, (x s).1 = .ok a → Q a (x s).2

section
variable {R : σ → τ → Prop} {err : ε → ε'} {P P' : σ → Prop} {f : α → β} {g : γ → δ}
  {x : Fallible σ ε α} {y : Fallible τ ε' β} {Q Q' : α → σ → Prop}

theorem Simulates.of_ok {s : σ} {t : τ} {a : α} {s' : σ}
    (h : Simulates R err P f x y Q) (hR : R s t) (hP : P s) (hx : x s = (.ok a, s')) :
    ∃ t', y t = (.ok (f a), t') ∧ R s' t' ∧ Q a s' := by
  obtain ⟨h1, h2, h3⟩ := h s t hR hP
  rw [hx] at h1 h2 h3
  exact ⟨(y t).2, Prod.ext h1 rfl, h2, h3 a rfl⟩

theorem Simulates.of_error {s : σ} {t : τ} {e : ε} {s' : σ}
    (h : Simulates R err P f x y Q) (hR : R s t) (hP : P s) (hx : x s = (.error e, s')) :
    ∃ t', y t = (.error (err e), t') ∧ R s' t' := by
  obtain ⟨h1, h2, h3⟩ := h s t hR hP
  rw [hx] at h1 h2
  exact ⟨(y t).2, Prod.ext h1 rfl, h2⟩

theorem Simulates.weaken (h : Simulates R err P f x y Q) (hP : ∀ s, P' s → P s)
    (hQ : ∀ a s, Q a s → Q' a s) : Simulates R err P' f x y Q' := by
  intro s t hR hP'
  obtain ⟨h1, h2, h3⟩ := h s t hR (hP s hP')
  exact ⟨h1, h2, fun a ha => hQ a _ (h3 a ha)⟩

theorem simulates_pure (a : α) (hQ : ∀ s, P s → Q a s) :
    Simulates R err P f (pure a) (pure (f a)) Q := by
  intro s t hR hP
  refine ⟨rfl, hR, ?_⟩
  intro b hb
  cases hb
  exact hQ s hP

theorem simulates_fail (e : ε) :
    Simulates R err P f (fail e : Fallible σ ε α) (fail (err e)) Q :=
  fun s t hR hP => ⟨rfl, hR, fun a ha => (nomatch ha)⟩

theorem simulates_read {v : σ → α} {w : τ → β} (h : ∀ s t, R s t → P s → w t = f (v s))
    (hQ : ∀ s t, R s t → P s → Q (v s) s) : Simulates R err P f (read v) (read w) Q := by
  intro s t hR hP
  refine ⟨?_, hR, ?_⟩
  · show Except.ok (w t) = Except.ok (f (v s))
    rw [h s t hR hP]
  · intro a ha
    cases ha
    exact hQ s t hR hP

theorem simulates_change {v : σ → σ} {w : τ → τ} {Q : Unit → σ → Prop}
    (h : ∀ s t, R s t → P s → R (v s) (w t)) (hQ : ∀ s, P s → Q () (v s)) :
    Simulates R err P id (change v) (change w) Q := by
  intro s t hR hP
  refine ⟨rfl, h s t hR hP, ?_⟩
  intro a ha
  exact hQ s hP

theorem simulates_bind {k : α → Fallible σ ε γ} {l : β → Fallible τ ε' δ} {Q' : γ → σ → Prop}
    (hx : Simulates R err P f x y Q)
    (hk : ∀ a, Simulates R err (Q a) g (k a) (l (f a)) Q') :
    Simulates R err P g (x >>= k) (y >>= l) Q' := by
  intro s t hR hP
  rcases ends x s with ⟨a, s', h⟩ | ⟨e, s', h⟩
  · obtain ⟨t', ht, hR', hQ⟩ := hx.of_ok hR hP h
    rw [bind_run_ok h, bind_run_ok ht]
    exact hk a s' t' hR' hQ
  · obtain ⟨t', ht, hR'⟩ := hx.of_error hR hP h
    rw [bind_run_error h, bind_run_error ht]
    exact ⟨rfl, hR', fun a ha => (nomatch ha)⟩

/-- no error is left, so any renaming of errors will do -/
theorem simulates_attempt {err₂ : ε → ε'} {Q' : Option α → σ → Prop}
    (hx : Simulates R err P f x y Q)
    (hs : ∀ a s, Q a s → Q' (some a) s) (hn : ∀ s, Q' none s) :
    Simulates R err₂ P (Option.map f) (attempt x) (attempt y) Q' := by
  intro s t hR hP
  rcases ends x s with ⟨a, s', h⟩ | ⟨e, s', h⟩
  · obtain ⟨t', ht, hR', hQ⟩ := hx.of_ok hR hP h
    simp only [attempt, h, ht]
    refine ⟨rfl, hR', ?_⟩
    intro b hb
    cases hb
    exact hs a s' hQ
  · obtain ⟨t', ht, hR'⟩ := hx.of_error hR hP h
    simp only [attempt, h, ht]
    refine ⟨rfl, hR', ?_⟩
    intro b hb
    cases hb
    exact hn s'

theorem simulates_mapError {ε₂ ε₂' : Type} {err₂ : ε₂ → ε₂'} {v : σ → ε → ε₂} {w : τ → ε' → ε₂'}
    (hx : Simulates R err P f x y Q)
    (h : ∀ s t e, R s t → w t (err e) = err₂ (v s e)) :
    Simulates R err₂ P f (mapError v x) (mapError w y) Q := by
  intro s t hR hP
  rcases ends x s with ⟨a, s', hx'⟩ | ⟨e, s', hx'⟩
  · obtain ⟨t', ht, hR', hQ⟩ := hx.of_ok hR hP hx'
    simp only [mapError, hx', ht]
    refine ⟨rfl, hR', ?_⟩
    intro b hb
    cases hb
    exact hQ
  · obtain ⟨t', ht, hR'⟩ := hx.of_error hR hP hx'
    simp only [mapError, hx', ht]
    refine ⟨?_, hR', fun a ha => (nomatch ha)⟩
    show Except.error _ = Except.error _
    rw [h s' t' e hR']

end

/-! ## an invariant, with what a value guarantees -/

/-- `x` preserves `I`, errors included; started in `P`, its value and the state meet `Q` -/
def Keeps (I P : σ → Prop) (x : Fallible σ ε α) (Q : α → σ → Prop) : Prop :=
  ∀ s, I s → P s → I (x s).2 ∧ ∀ a, (x s).1 = .ok a → Q a (x s).2

section
variable {I P P' : σ → Prop} {x : Fallible σ ε α} {Q Q' : α → σ → Prop}

theorem Keeps.weaken (h : Keeps I P x Q) (hP : ∀ s, P' s → P s) (hQ : ∀ a s, Q a s → Q' a s) :
    Keeps I P' x Q' := by
  intro s hI hP'
  obtain ⟨h1, h2⟩ := h s hI (hP s hP')
  exact ⟨h1, fun a ha => hQ a _ (h2 a ha)⟩

theorem keeps_pure (a : α) (hQ : ∀ s, I s → P s → Q a s) :
    Keeps I P (pure a : Fallible σ ε α) Q := by
  intro s hI hP
  refine ⟨hI, ?_⟩
  intro b hb
  cases hb
  exact hQ s hI hP

theorem keeps_fail (e : ε) : Keeps I P (fail e : Fallible σ ε α) Q :=
  fun s hI hP => ⟨hI, fun a ha => (nomatch ha)⟩

theorem keeps_read {v : σ → α} (hQ : ∀ s, I s → P s → Q (v s) s) :
    Keeps I P (read v : Fallible σ ε α) Q := by
  intro s hI hP
  refine ⟨hI, ?_⟩
  intro b hb
  cases hb
  exact hQ s hI hP

theorem keeps_change {v : σ → σ} {Q : Unit → σ → Prop} (h : ∀ s, I s → P s → I (v s))
    (hQ : ∀ s, I s → P s → Q () (v s)) : Keeps I P (change v : Fallible σ ε Unit) Q :=
  fun s hI hP => ⟨h s hI hP, fun _ _ => hQ s hI hP⟩

theorem keeps_bind {k : α → Fallible σ ε β} {Q' : β → σ → Prop} (hx : Keeps I P x Q)
    (hk : ∀ a, Keeps I (Q a) (k a) Q') : Keeps I P (x >>= k) Q' := by
  intro s hI hP
  obtain ⟨h1, h2⟩ := hx s hI hP
  rcases ends x s with ⟨a, s', h⟩ | ⟨e, s', h⟩
  · rw [h] at h1 h2
    rw [bind_run_ok h]
    exact hk a s' h1 (h2 a rfl)
  · rw [h] at h1
    rw [bind_run_error h]
    exact ⟨h1, fun a ha => (nomatch ha)⟩

theorem keeps_attempt {Q' : Option α → σ → Prop} (hx : Keeps I P x Q)
    (hs : ∀ a s, Q a s → Q' (some a) s) (hn : ∀ s, Q' none s) : Keeps I P (attempt x) Q' := by
  intro s hI hP
  obtain ⟨h1, h2⟩ := hx s hI hP
  rcases ends x s with ⟨a, s', h⟩ | ⟨e, s', h⟩
  · rw [h] at h1 h2
    simp only [attempt, h]
    refine ⟨h1, ?_⟩
    intro b hb
    cases hb
    exact hs a s' (h2 a rfl)
  · rw [h] at h1
    simp only [attempt, h]
    refine ⟨h1, ?_⟩
    intro b hb
    cases hb
    exact hn s'

end

/-! ## a known result -/

/-- from `P`, `x` ends with the result `r` and leads to `P'` -/
def Gives (P : σ → Prop) (x : Fallible σ ε α) (r : Except ε α) (P' : σ → Prop) : Prop :=
  ∀ s, P s → (x s).1 = r ∧ P' (x s).2

section
variable {P P' P'' : σ → Prop} {x : Fallible σ ε α}

theorem gives_pure (a : α) : Gives P (pure a : Fallible σ ε α) (.ok a) P :=
  fun _ hP => ⟨rfl, hP⟩

theorem gives_fail (e : ε) : Gives P (fail e : Fallible σ ε α) (.error e) P :=
  fun _ hP => ⟨rfl, hP⟩

theorem gives_read {v : σ → α} {a : α} (h : ∀ s, P s → v s = a) :
    Gives P (read v : Fallible σ ε α) (.ok a) P := by
  intro s hP
  refine ⟨?_, hP⟩
  show Except.ok (v s) = _
  rw [h s hP]

theorem gives_change {v : σ → σ} (h : ∀ s, P s → P' (v s)) :
    Gives P (change v : Fallible σ ε Unit) (.ok ()) P' :=
  fun s hP => ⟨rfl, h s hP⟩

theorem gives_bind {k : α → Fallible σ ε β} {a : α} {r : Except ε β} (hx : Gives P x (.ok a) P')
    (hk : Gives P' (k a) r P'') : Gives P (x >>= k) r P'' := by
  intro s hP
  obtain ⟨h1, h2⟩ := hx s hP
  rw [bind_run_ok (Prod.ext h1 rfl)]
  exact hk _ h2

theorem gives_bind_error {k : α → Fallible σ ε β} {e : ε} (hx : Gives P x (.error e) P') :
    Gives P (x >>= k) (.error e) P' := by
  intro s hP
  obtain ⟨h1, h2⟩ := hx s hP
  rw [bind_run_error (Prod.ext h1 rfl)]
  exact ⟨rfl, h2⟩

theorem gives_attempt {a : α} (hx : Gives P x (.ok a) P') :
    Gives P (attempt x) (.ok (some a)) P' := by
  intro s hP
  obtain ⟨h1, h2⟩ := hx s hP
  have hxs : x s = (.ok a, (x s).2) := Prod.ext h1 rfl
  rw [attempt, hxs]
  exact ⟨rfl, h2⟩

theorem gives_mapError_ok {g : σ → ε → ε'} {a : α} (hx : Gives P x (.ok a) P') :
    Gives P (mapError g x) (.ok a) P' := by
  intro s hP
  obtain ⟨h1, h2⟩ := hx s hP
  have hxs : x s = (.ok a, (x s).2) := Prod.ext h1 rfl
  rw [mapError, hxs]
  exact ⟨rfl, h2⟩

theorem gives_mapError_error {g : σ → ε → ε'} {e : ε} {e' : ε'} (hx : Gives P x (.error e) P')
    (hg : ∀ s, P' s → g s e = e') : Gives P (mapError g x) (.error e') P' := by
  intro s hP
  obtain ⟨h1, h2⟩ := hx s hP
  have hxs : x s = (.error e, (x s).2) := Prod.ext h1 rfl
  rw [mapError, hxs]
  refine ⟨?_, h2⟩
  show Except.error (g (x s).2 e) = _
  rw [hg _ h2]

theorem gives_look {g : σ → Except ε α} {r : Except ε α} (h : ∀ s, P s → g s = r) :
    Gives P (look g) r P :=
  fun s hP => ⟨h s hP, hP⟩

theorem Gives.leads {r : Except ε α} (h : Gives P x r P') (hP : ∀ s, P' s → P'' s) : Gives P x r P'' :=
  fun s hs => ⟨(h s hs).1, hP _ (h s hs).2⟩

theorem gives_onPart {P P' : τ → Prop} {get : σ → τ} {set : τ → σ → σ} {x : Fallible τ ε α} {r : Except ε α}
    {S S' : σ → Prop} (hx : Gives P x r P') (hget : ∀ s, S s → P (get s))
    (hset : ∀ s t, S s → P' t → S' (set t s)) : Gives S (onPart get set x) r S' := by
  intro s hs
  obtain ⟨h1, h2⟩ := hx (get s) (hget s hs)
  exact ⟨h1, hset s _ hs h2⟩

theorem gives_exists {κ : Type*} {P : κ → σ → Prop} {r : Except ε α} (h : ∀ a, Gives (P a) x r P') :
    Gives (fun s => ∃ a, P a s) x r P' := by
  intro s hs
  obtain ⟨a, ha⟩ := hs
  exact h a s ha

/-- **Loop rule**: a predicate that counts the turns. -/
theorem gives_forM {f : β → Fallible σ ε PUnit} (l : List β) {P : Nat → σ → Prop}
    (h : ∀ k (hk : k < l.length), Gives (P k) (f l[k]) (.ok ⟨⟩) (P (k + 1))) :
    Gives (P 0) (l.forM f) (.ok ⟨⟩) (P l.length) := by
  induction l generalizing P with
  | nil => exact gives_pure _
  | cons b l ih =>
    refine gives_bind (h 0 (Nat.succ_pos _)) ?_
    exact @ih (fun k => P (k + 1)) fun k hk => h (k + 1) (Nat.succ_lt_succ hk)

end

end Fallible

end Tsr.Lib
