import Mathlib.Data.List.Dedup
import Mathlib.Data.List.Forall2
import Mathlib.Data.List.Sort
import Mathlib.Data.String.Basic

/-!
# Native policies of the plugins

A plugin sets a policy for a native callback of Pin, a specification of what the callback is to
do.  `publish` of such a policy reads the specifications of the running plugins by their names,
checks them, puts a new snapshot in place of the old one and has Pin remove the instrumentation
of the ranges that changed.

This module has what the policies share: the specifications in the order of the names
(`runningSpecs`) and in any order (`liveSpecs`), and the removal of the instrumentation.
-/

namespace PinBridge.Policies

/-! ## Specifications -/

/-- `STATE_RUNNING`. -/
def stateRunning : UInt8 := 1

/-- A plugin, with its specification for one policy. -/
structure Plugin (Spec : Type*) where
  /-- Its name. -/
  name : String
  /-- Its state. -/
  state : UInt8
  /-- What it has set. -/
  spec : Option Spec

variable {Spec : Type*}

/-- What the running plugins have set, with their names. -/
def namedSpecs (plugins : List (Plugin Spec)) : List (String × Spec) :=
  (plugins.filter (·.state = stateRunning)).filterMap fun plugin =>
    plugin.spec.map fun spec => (plugin.name, spec)

/-- What `publish` reads, in the order of the names. -/
def runningSpecs (plugins : List (Plugin Spec)) : List Spec :=
  ((namedSpecs plugins).mergeSort fun left right => left.1 ≤ right.1).map (·.2)

/-- What the running plugins have set. -/
def liveSpecs (plugins : List (Plugin Spec)) : List Spec :=
  (plugins.filter (·.state = stateRunning)).filterMap (·.spec)

theorem map_namedSpecs (plugins : List (Plugin Spec)) :
    (namedSpecs plugins).map (·.2) = liveSpecs plugins := by
  rw [namedSpecs, liveSpecs, List.map_filterMap]
  congr 1
  funext plugin
  cases plugin.spec with
  | none => rfl
  | some spec => rfl

/-- The names say only in which order the specifications are read. -/
theorem runningSpecs_perm (plugins : List (Plugin Spec)) :
    (runningSpecs plugins).Perm (liveSpecs plugins) := by
  rw [← map_namedSpecs]
  exact (List.mergeSort_perm _ _).map _

/-! ## Removal of instrumentation -/

/-- `PbStatus`. -/
abbrev PbStatus : Type := Int32

/-- `PB_OK`. -/
def pbOk : PbStatus := 0

/-- `PB_ERR_INVALID_ARGUMENT`. -/
def pbErrInvalidArgument : PbStatus := 1

/-- `sort_unstable` and `dedup` on ranges. -/
def sortRanges (ranges : List (UInt64 × UInt64)) : List (UInt64 × UInt64) :=
  (ranges.mergeSort fun a b => a.1 < b.1 || (a.1 == b.1 && a.2 ≤ b.2)).dedup

/-- Remove the instrumentation of the ranges, up to the first failure. -/
def removeRanges (remove : UInt64 → UInt64 → PbStatus) : List (UInt64 × UInt64) → PbStatus
  | [] => pbOk
  | (start, stop) :: ranges =>
      if remove start stop ≠ pbOk then remove start stop else removeRanges remove ranges

end PinBridge.Policies
