import Mathlib.Logic.Basic

/-!
# MMFService: the addresses MMF is applied to

`MMFService` keeps a map from address to `MMFCfg`. `apply_mmf_pre_as` and
`apply_mmf_post_as` read an address's configuration with `std::map::at`, which
throws `std::out_of_range` for a missing key, but only once
`has_config_for_address` has found the key: the `&&` short-circuits. Both
therefore answer for every address, true exactly when the address has a
configuration whose flag is set.

## Implementation notes

`mmf.h` is not in the source: `MMFCfg` keeps the two flags the service reads.
The constructor, `update_config` and `read_config` (the file and its parser), the
alarm and the read-write lock handed to callers are left out.
-/

namespace Sprout

/-- The flags of an `MMFCfg` that `MMFService` reads. -/
structure MMFCfg where
  applyPreAs : Bool
  applyPostAs : Bool
  deriving DecidableEq, Repr

/-- An `MMFService` by its `_mmf_config`: at most one configuration per address. -/
structure MMFService where
  mmfConfig : String → Option MMFCfg

namespace MMFService

/-- `std::out_of_range`, thrown by `std::map::at` for a missing key. -/
inductive Fault where
  | outOfRange
  deriving DecidableEq, Repr

/-- `_mmf_config.count(address)`, converted to `bool`. -/
def hasConfigForAddress (s : MMFService) (address : String) : Bool := (s.mmfConfig address).isSome

/-- `get_address_config`: `_mmf_config.at(address)`. -/
def getAddressConfig (s : MMFService) (address : String) : Except Fault MMFCfg :=
  match s.mmfConfig address with
  | some cfg => .ok cfg
  | none => .error .outOfRange

/-- The body `apply_mmf_pre_as` and `apply_mmf_post_as` share, for the flag each reads:
`has_config_for_address(address) && get_address_config(address)->flag()`, then
`true` or `false` by the branch taken. -/
def applyMmf (flag : MMFCfg → Bool) (s : MMFService) (address : String) : Except Fault Bool := do
  let cond ← if s.hasConfigForAddress address then flag <$> s.getAddressConfig address else pure false
  if cond then pure true else pure false

def applyMmfPreAs (s : MMFService) (address : String) : Except Fault Bool :=
  applyMmf MMFCfg.applyPreAs s address

def applyMmfPostAs (s : MMFService) (address : String) : Except Fault Bool :=
  applyMmf MMFCfg.applyPostAs s address

/-- `get_address_config` throws exactly for an address without configuration. -/
theorem getAddressConfig_eq_error_iff (s : MMFService) (address : String) :
    (∃ f, s.getAddressConfig address = .error f) ↔ s.hasConfigForAddress address = false := by
  unfold getAddressConfig hasConfigForAddress
  cases s.mmfConfig address with
  | none => exact iff_of_true ⟨.outOfRange, rfl⟩ rfl
  | some cfg => simp

/-- Whatever the flag, the guarded read never throws: it answers whether the address
has a configuration with the flag set. -/
theorem applyMmf_eq (flag : MMFCfg → Bool) (s : MMFService) (address : String) :
    s.applyMmf flag address = .ok ((s.mmfConfig address).any flag) := by
  unfold applyMmf hasConfigForAddress getAddressConfig
  cases s.mmfConfig address with
  | none => rfl
  | some cfg =>
      show (if flag cfg = true then pure true else pure false : Except Fault Bool) = .ok (flag cfg)
      cases flag cfg <;> rfl

end MMFService

end Sprout
