import Sprout.Authentication.Json

/-!
# The AV store

`avstore.h` and `avstore.cpp` are not in the source. The store is modelled
from the spec: a transient map from (private identity, nonce) to an
Authentication Vector, whose `get` does not consume the entry, and whose
entries a background sweep removes once expired.
-/

namespace Sprout.Authentication

open Json

/-- Modelled from the spec: the AV store, keyed by private identity and nonce. -/
structure AvStore where
  entries : String → String → Option Value

namespace AvStore

/-- Modelled from the spec: the store as the process starts. -/
def empty : AvStore := ⟨fun _ _ => none⟩

/-- Modelled from the spec: `get_av(impi, nonce)` reads the entry and leaves it stored. -/
def getAv (store : AvStore) (impi nonce : String) : Option Value := store.entries impi nonce

/-- Modelled from the spec: `set_av(impi, nonce, av)` writes the entry. -/
def setAv (store : AvStore) (impi nonce : String) (av : Value) : AvStore :=
  ⟨fun i n => if i = impi ∧ n = nonce then some av else store.entries i n⟩

/-- Modelled from the spec: the expiry sweep removes one entry. -/
def expire (store : AvStore) (impi nonce : String) : AvStore :=
  ⟨fun i n => if i = impi ∧ n = nonce then none else store.entries i n⟩

@[simp] theorem getAv_empty (impi nonce : String) : empty.getAv impi nonce = none := rfl

@[simp] theorem getAv_setAv (store : AvStore) (impi nonce i n : String) (av : Value) :
    (store.setAv impi nonce av).getAv i n =
      if i = impi ∧ n = nonce then some av else store.getAv i n := rfl

@[simp] theorem getAv_expire (store : AvStore) (impi nonce i n : String) :
    (store.expire impi nonce).getAv i n = if i = impi ∧ n = nonce then none else store.getAv i n :=
  rfl

end AvStore

end Sprout.Authentication
