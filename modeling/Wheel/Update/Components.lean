import Mathlib
import Wheel.Update.State

/-!
# Which part of Wheel a changed path belongs to

`classify` gives a changed path its component, and `of` the components of a list
of changed paths, sorted and without repeats. A path of the build's own checks is
in `ci`, and a range that has one may only be applied for the operator.
-/

namespace Wheel

namespace Update

namespace Component

/-- What `wheeld` runs. -/
def wheeldRuns : List Component := [.core, .engine, .cli, .host, .api]

/-- The order of the components in a notice. -/
def rank : Component → ℕ
  | .ci => 0
  | .core => 1
  | .engine => 2
  | .cli => 3
  | .host => 4
  | .api => 5
  | .web => 6
  | .docs => 7
  | .other => 8

/-- The path starts with `dir`. -/
def under (path dir : String) : Bool := dir.toList.isPrefixOf path.toList

def endsWith (path suffix : String) : Bool := suffix.toList.isSuffixOf path.toList

/-- A JSON file right in `qa/`. -/
def qaBudget (path : String) : Bool :=
  under path "qa/" && !((path.toList.drop 3).contains '/') &&
    ".json".toList.isSuffixOf (path.toList.drop 3)

/-- What a changed path belongs to; the first match wins. -/
def classify (path : String) : Component :=
  if under path ".github/" || path == "qa/check.sh" || under path "qa/tools/" ||
      qaBudget path || path == "Makefile" then .ci
  else if under path "crates/wheel-core/" || under path "crates/wheel-sqlite/" ||
      path == "Cargo.toml" || path == "Cargo.lock" || under path "rust-toolchain" then .core
  else if under path "crates/wheel-engine/" then .engine
  else if under path "crates/wheel-cli/" then .cli
  else if under path "crates/wheel-host/" || under path "crates/wheeld/" then .host
  else if under path "crates/wheel-api/" then .api
  -- a crate nobody has classified yet
  else if under path "crates/" then .core
  else if under path "web/" then .web
  else if under path "docs/" || under path "redteam/" || endsWith path ".md" then .docs
  else .other

/-- The components of the changed paths, sorted and without repeats. -/
def of (paths : List String) : List Component :=
  ((paths.map classify).insertionSort fun a b => a.rank ≤ b.rank).dedup

/-- Does a change touch what a deployment runs? -/
def pertinent (changed runs : List Component) : Bool :=
  let runsRust := runs.any fun c => wheeldRuns.contains c
  changed.any fun c => runs.contains c || (c == .core && runsRust)

/-- The components a notice names. -/
def named (changed runs : List Component) : List Component :=
  changed.filter fun c => c == .ci || runs.contains c

theorem mem_of_iff (paths : List String) (c : Component) :
    c ∈ of paths ↔ ∃ p ∈ paths, classify p = c := by
  rw [of, List.mem_dedup, List.mem_insertionSort, List.mem_map]

end Component

end Update

end Wheel
