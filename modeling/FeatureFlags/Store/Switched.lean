import FeatureFlags.Store.Basic

/-!
# Switched stores

A store that can be made to refuse its calls, to try out what sits on a store that is
not reliable. A call that is refused does not reach the store behind.
-/

namespace FeatureFlags

/-- The state of a switched store over a store with states of type `τ`. -/
structure SwitchedStore (τ : Type) where
  /-- The store behind the switches. -/
  inner : τ
  /-- Whether loads are refused. -/
  refusesLoads : Bool := false
  /-- Whether saves are refused. -/
  refusesSaves : Bool := false

namespace SwitchedStore

variable {τ : Type} (inner : RecordStore τ)

/-- The calls of the store behind the switches. -/
def through : RecordStore (SwitchedStore τ) := inner.within (·.inner) fun t s => { s with inner := t }

/-- The calls of the switched store. -/
def store : RecordStore (SwitchedStore τ) :=
  { load := fun unit reads s =>
      if s.refusesLoads then (.error (.backend "load refused"), s)
      else (through inner).load unit reads s
    save := fun unit records s =>
      if s.refusesSaves then (.error (.backend "store refused"), s)
      else (through inner).save unit records s }

end SwitchedStore

end FeatureFlags
