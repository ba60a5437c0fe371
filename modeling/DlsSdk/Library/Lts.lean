import Mathlib.Data.List.Induction
import Mathlib.Data.List.Infix

/-!
# `Library.Lts` — guarded runs of a labelled transition system

A transition system here is a partial step function `step : S → A → Option S`: the label `a` fixes
everything the environment may choose, and `none` says that the step cannot be taken. `Run step ok s as t`
is a run from `s` to `t` along the labels `as`, every step of which met the guard `ok` in the state it
was taken from. Restricting a class of runs (no loss, no reordering, "nobody presses this button") is a
choice of `ok`; a run under a stronger guard is a run under a weaker one (`Run.mono`).

* `Run.invariant` — the one induction over runs: an invariant of the guarded steps holds at the end.
* `Run.invariant_since` — the same, with the steps allowed to use what is known of their source states.
* `Run.project` / `Run.lift` — the runs of a system that carries more in its state than its steps need.
* `Run.steps_iff` — a property of steps together with the guard it takes: an equivalence over whole runs.
* `Past` — the values an observable has had along a run, including the last one.
* `Run.wrote` — the value of an observable comes from the start or from a step that may change it.
* `Run.of_exec` — a run on given labels is a computation, for concrete runs.
-/

namespace Lts

variable {S A : Type}

/-- A run from `s`, step by step at its end; `ok` is asked of every step in its source state. -/
inductive Run (step : S → A → Option S) (ok : S → A → Prop) (s : S) : List A → S → Prop where
  | nil : Run step ok s [] s
  | snoc {as : List A} {t : S} {a : A} {u : S} (h : Run step ok s as t) (hok : ok t a)
      (hs : step t a = some u) : Run step ok s (as ++ [a]) u

variable {step : S → A → Option S} {ok ok' : S → A → Prop} {s t u : S} {as bs : List A}

theorem Run.mono (hok : ∀ t a, ok t a → ok' t a) (h : Run step ok s as t) :
    Run step ok' s as t := by
  induction h with
  | nil => exact .nil
  | snoc _ hg hs ih => exact .snoc ih (hok _ _ hg) hs

/-- **Invariant rule.** What holds at the start and is kept by every guarded step holds at the end. -/
theorem Run.invariant {I : S → Prop} (h0 : I s)
    (hstep : ∀ t a u, I t → ok t a → step t a = some u → I u) (h : Run step ok s as t) : I t := by
  induction h with
  | nil => exact h0
  | snoc _ hg hs ih => exact hstep _ _ _ ih hg hs

/-- The invariant rule over an invariant `J` that is already known of every step's source. -/
theorem Run.invariant_since {I J : S → Prop} (h0 : I s)
    (hJ : ∀ as t, Run step ok s as t → J t)
    (hstep : ∀ t a u, J t → I t → ok t a → step t a = some u → I u) (h : Run step ok s as t) :
    I t := by
  induction h with
  | nil => exact h0
  | snoc hr hg hs ih => exact hstep _ _ _ (hJ _ _ hr) ih hg hs

theorem Run.append (h : Run step ok s as t) (h' : Run step ok t bs u) :
    Run step ok s (as ++ bs) u := by
  induction h' with
  | nil => rw [List.append_nil]; exact h
  | snoc _ hg hs ih => rw [← List.append_assoc]; exact .snoc ih hg hs

/-- One more step, as a run. -/
theorem Run.single {a : A} (hok : ok s a) (hs : step s a = some t) : Run step ok s [a] t :=
  show Run step ok s ([] ++ [a]) t from .snoc .nil hok hs

/-- The last step of a run. -/
theorem Run.of_snoc {a : A} (h : Run step ok s (as ++ [a]) u) :
    ∃ t, Run step ok s as t ∧ ok t a ∧ step t a = some u := by
  generalize hcs : as ++ [a] = cs at h
  cases h with
  | nil => exact absurd hcs (by simp)
  | snoc hr hok hs =>
      obtain ⟨rfl, hlast⟩ := List.append_inj' hcs rfl
      obtain rfl := List.singleton_inj.mp hlast
      exact ⟨_, hr, hok, hs⟩

/-- The first part of a run. -/
theorem Run.of_append (h : Run step ok s (as ++ bs) u) : ∃ t, Run step ok s as t := by
  induction bs using List.reverseRecOn generalizing u with
  | nil => exact ⟨u, by rw [List.append_nil] at h; exact h⟩
  | append_singleton bs b ih =>
      rw [← List.append_assoc] at h
      obtain ⟨t, ht, -, -⟩ := h.of_snoc
      exact ih ht

/-- The labels fix the run. -/
theorem Run.unique (h : Run step ok s as t) (h' : Run step ok' s as u) : t = u := by
  induction h generalizing u with
  | nil =>
      generalize hcs : ([] : List A) = cs at h'
      cases h' with
      | nil => rfl
      | snoc => exact absurd hcs (by simp)
  | snoc _ _ hs ih =>
      obtain ⟨t, ht, -, hs'⟩ := h'.of_snoc
      obtain rfl := ih ht
      exact Option.some.inj (hs.symm.trans hs')

/-! ## Runs under a projection

`f` forgets a part of the state of a system `step'` that does not matter to its steps: forgetting it gives
the steps of `step`. -/

section Projection
variable {S' : Type} {step' : S' → A → Option S'} {f : S' → S} {s' t' : S'}

theorem Run.project (hf : ∀ s' a, (step' s' a).map f = step (f s') a)
    (h : Run step' (fun s' a => ok (f s') a) s' as t') : Run step ok (f s') as (f t') := by
  induction h with
  | nil => exact .nil
  | @snoc as t' a u' _ hok hs ih =>
      refine .snoc ih hok ?_
      rw [← hf, hs]
      rfl

/-- Every run is a projection. -/
theorem Run.lift (hf : ∀ s' a, (step' s' a).map f = step (f s') a) (h : Run step ok (f s') as t) :
    ∃ t', Run step' (fun s' a => ok (f s') a) s' as t' ∧ f t' = t := by
  induction h with
  | nil => exact ⟨s', .nil, rfl⟩
  | @snoc as t a u _ hok hs ih =>
      obtain ⟨t', hr, rfl⟩ := ih
      rw [← hf] at hs
      obtain ⟨u', hu, rfl⟩ := Option.map_eq_some_iff.mp hs
      exact ⟨u', .snoc hr hok hu, rfl⟩

end Projection

/-! ## Properties of the steps of a run -/

/-- Every step along the labels, from its source over its label to its target, has the property `D`. -/
def Steps (step : S → A → Option S) (D : S → A → S → Prop) (s : S) (as : List A) : Prop :=
  ∀ pre a t u, pre ++ [a] <+: as → Run step (fun _ _ => True) s pre t → step t a = some u → D t a u

/-- **The guard of a property.** If under an invariant `I` the guarded steps keep `I` and have `D`, and the
    other steps do not have `D`, then all steps of a run have `D` exactly when all its steps meet the
    guard. -/
theorem Run.steps_iff {I : S → Prop} {D : S → A → S → Prop} (h0 : I s)
    (hgood : ∀ t a u, I t → ok t a → step t a = some u → I u ∧ D t a u)
    (hbad : ∀ t a u, I t → ¬ ok t a → step t a = some u → ¬ D t a u)
    (h : Run step (fun _ _ => True) s as t) : Steps step D s as ↔ Run step ok s as t := by
  have hinv : ∀ {bs : List A} {v : S}, Run step ok s bs v → I v := fun hr =>
    hr.invariant h0 fun t a u hI hok hs => (hgood t a u hI hok hs).1
  constructor
  · intro hD
    induction h with
    | nil => exact .nil
    | @snoc as t a u hr _ hs ih =>
        have hbefore := ih fun pre b v w hpre => hD pre b v w (hpre.trans (List.prefix_append _ _))
        by_cases hok : ok t a
        · exact .snoc hbefore hok hs
        · exact absurd (hD as a t u (List.prefix_refl _) hr hs) (hbad t a u (hinv hbefore) hok hs)
  · rintro hr pre a v w ⟨post, rfl⟩ hpre hs
    obtain ⟨x, hx⟩ := hr.of_append
    obtain ⟨v', hv', hok, -⟩ := hx.of_snoc
    obtain rfl := hpre.unique hv'
    exact (hgood v a w (hinv hv') hok hs).2

/-! ## Past values of an observable -/

/-- Along the labels `as` the observable `f` has had the value `v`, at the end or before. -/
def Past {V : Type} (step : S → A → Option S) (ok : S → A → Prop) (s : S) (f : S → V)
    (as : List A) (v : V) : Prop :=
  ∃ pre t, pre <+: as ∧ Run step ok s pre t ∧ f t = v

theorem Run.past {V : Type} (f : S → V) (h : Run step ok s as t) : Past step ok s f as (f t) :=
  ⟨as, t, List.prefix_rfl, h, rfl⟩

theorem Past.mono {V : Type} {f : S → V} {v : V} (h : Past step ok s f as v) (hp : as <+: bs) :
    Past step ok s f bs v := by
  obtain ⟨pre, t, hpre, hr, hv⟩ := h
  exact ⟨pre, t, hpre.trans hp, hr, hv⟩

/-! ## The last write of an observable -/

/-- Along the labels `as`, a step with a label in `W` has left the observable `f` with the value `v`. -/
def Wrote {V : Type} (step : S → A → Option S) (ok : S → A → Prop) (s : S) (f : S → V)
    (W : A → Prop) (as : List A) (v : V) : Prop :=
  ∃ pre a t u, pre ++ [a] <+: as ∧ W a ∧ Run step ok s pre t ∧ step t a = some u ∧ f u = v

theorem Wrote.mono {V : Type} {f : S → V} {W : A → Prop} {v : V} (h : Wrote step ok s f W as v)
    (hp : as <+: bs) : Wrote step ok s f W bs v := by
  obtain ⟨pre, a, t, u, hpre, ha, hr, hs, hv⟩ := h
  exact ⟨pre, a, t, u, hpre.trans hp, ha, hr, hs, hv⟩

/-- **Attribution.** What only the steps in `W` can change is what it was at the start, or what such a step
    has left. -/
theorem Run.wrote {V : Type} {f : S → V} {W : A → Prop}
    (hf : ∀ t a u, step t a = some u → W a ∨ f u = f t) (h : Run step ok s as t) :
    f t = f s ∨ Wrote step ok s f W as (f t) := by
  induction h with
  | nil => exact .inl rfl
  | @snoc as t a u hr _ hs ih =>
      obtain hw | hsame := hf t a u hs
      · exact .inr ⟨as, a, t, u, List.prefix_rfl, hw, hr, hs, rfl⟩
      · rw [hsame]
        exact ih.imp id fun hw => hw.mono (List.prefix_append as [a])

/-! ## Executing labels -/

/-- Run the labels in order; `none` as soon as a step cannot be taken or its guard fails. -/
def exec (step : S → A → Option S) (okb : S → A → Bool) : S → List A → Option S
  | s, [] => some s
  | s, a :: as => if okb s a then (step s a).bind fun t => exec step okb t as else none

theorem run_of_exec {okb : S → A → Bool} (hok : ∀ t a, okb t a = true → ok t a) :
    ∀ (as : List A) (s t : S), exec step okb s as = some t → Run step ok s as t := by
  intro as
  induction as with
  | nil => intro s t h; exact Option.some.inj h ▸ .nil
  | cons a as ih =>
      intro s t h
      unfold exec at h
      split at h
      · rename_i hg
        obtain ⟨u, hu, ht⟩ := Option.bind_eq_some_iff.mp h
        exact (Run.single (hok s a hg) hu).append (ih u t ht)
      · exact absurd h (by simp)

/-- **Concrete runs.** If the labels execute to a state with `p`, there is a run along them that ends
    there. -/
theorem Run.of_exec [∀ t a, Decidable (ok t a)] {p : S → Prop} [DecidablePred p]
    (h : ∃ t, t ∈ exec step (fun t a => decide (ok t a)) s as ∧ p t) :
    ∃ t, Run step ok s as t ∧ p t := by
  obtain ⟨t, ht, hp⟩ := h
  exact ⟨t, run_of_exec (fun _ _ hok => of_decide_eq_true hok) as s t ht, hp⟩

end Lts
