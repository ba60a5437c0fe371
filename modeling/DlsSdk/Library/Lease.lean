import Mathlib.Logic.Basic

/-!
# `Library.Lease` — a shared register that names the owner of a role

Several participants may believe that they hold a role; a shared register names at most one of them. The
role is exclusive as long as nobody enters it without being named and nobody is named while somebody else
holds it. `Exclusive` is the invariant, with one lemma per kind of step: leaving the role (`leave`),
entering it under the register's name (`enter`) and a new name in the register (`rename`).
-/

namespace Lease

variable {ι : Type} {holds holds' named named' : ι → Prop}

/-- At most one participant holds the role, and while somebody is named only the named one does. -/
structure Exclusive (holds named : ι → Prop) : Prop where
  one : ∀ i j, holds i → holds j → i = j
  owner : ∀ i j, holds i → named j → i = j

theorem Exclusive.of_free (h : ∀ i, ¬ holds i) : Exclusive holds named where
  one i _ hi _ := absurd hi (h i)
  owner i _ hi _ := absurd hi (h i)

/-- Holders may leave. -/
theorem Exclusive.leave (he : Exclusive holds named) (h : ∀ i, holds' i → holds i) :
    Exclusive holds' named where
  one i j hi hj := he.one i j (h i hi) (h j hj)
  owner i j hi hj := he.owner i j (h i hi) hj

/-- The register may name somebody else as soon as nobody but the new owner holds the role. -/
theorem Exclusive.rename (he : Exclusive holds named) (h : ∀ i j, holds i → named' j → i = j) :
    Exclusive holds named' where
  one := he.one
  owner := h

/-- The named participant may enter: every holder was the named one already. -/
theorem Exclusive.enter {k : ι} (he : Exclusive holds named)
    (hfun : ∀ i j, named i → named j → i = j) (hk : named k)
    (h : ∀ i, holds' i → holds i ∨ i = k) : Exclusive holds' named := by
  -- whoever holds the role afterwards is the named participant
  have hall : ∀ i, holds' i → i = k := by
    intro i hi
    rcases h i hi with hi' | rfl
    · exact he.owner i k hi' hk
    · rfl
  constructor
  · intro i j hi hj
    rw [hall i hi, hall j hj]
  · intro i j hi hj
    rw [hall i hi]
    exact hfun k j hk hj

end Lease
