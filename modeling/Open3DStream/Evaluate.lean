import Open3DStream.Subject
import Open3DStream.Context

namespace Open3DStream

variable {α β : Type} [Numeric α β]

namespace Evaluate

/-- The first loop of `calcMatrices`: check, update and check again, one transform
after the other. The message is that of the transform it stopped at. -/
def locals : List (Transform α) → Option (Option String × List (Transform α))
  | [] => some (none, [])
  | t :: ts =>
    if !t.allFinite then some (some ("Invalid xform: " ++ t.mName), t :: ts)
    else do
      let t' ← t.update
      if !t'.allFinite then some (some ("Bad calc for: " ++ t'.mName), t' :: ts)
      else do
        let (e, ts') ← locals ts
        some (e, t' :: ts')

def isRoot (t : Transform α) : Bool := decide (t.mParentId = -1)

/-- A root's matrix is its world matrix. -/
def markRoot (t : Transform α) : Transform α :=
  if isRoot t then { t with mWorldMatrix := t.mMatrix, bWorldMatrix := true } else t

inductive Visit (α : Type) where
  | skip
  | fail (error : String) (ts : List (Transform α))
  | resolved (ts : List (Transform α))

/-- The body of the inner loop at index `id`; the range check is what lets it read
the parent. -/
def visit (ts : List (Transform α)) (id : Nat) : Visit α :=
  match ts[id]? with
  | none => .skip
  | some t =>
    if t.bWorldMatrix then .skip
    else if (id : Int) = t.mParentId then
      .fail ("ParentId of " ++ t.mName ++ " points to self (" ++ toString id ++ ")") ts
    else if h : t.mParentId < 0 ∨ (ts.length : Int) ≤ t.mParentId then
      .fail "Invalid Parent Id" ts
    else
      let p := ts.get ⟨t.mParentId.toNat, by omega⟩
      if !p.bWorldMatrix then .skip
      else
        let t' := { t with mWorldMatrix := p.mWorldMatrix * t.mMatrix, bWorldMatrix := true }
        if !t'.mWorldMatrix.allFinite then .fail ("WM Error: " ++ t.mName) (ts.set id t')
        else .resolved (ts.set id t')

/-- One pass over the given indices; the flag is `done`. -/
def sweep : List Nat → List (Transform α) → Bool →
    Except (String × List (Transform α)) (List (Transform α) × Bool)
  | [], ts, done => .ok (ts, done)
  | id :: ids, ts, done =>
    match visit ts id with
    | .skip => sweep ids ts done
    | .fail e ts' => .error (e, ts')
    | .resolved ts' => sweep ids ts' false

/-- The outer loop; `passes` counts down the passes that `iterations` still allows. -/
def loop : Nat → List (Transform α) → Except (String × List (Transform α)) (List (Transform α))
  | 0, ts => .error ("Cycle detected in transform hierarchy", ts)
  | passes + 1, ts =>
    match sweep (List.range ts.length) ts true with
    | .error e => .error e
    | .ok (ts', done) => if done then .ok ts' else loop passes ts'

def convert (conv : Option ConversionContext) (ts : List (Transform α)) : List (Transform α) :=
  match conv with
  | none => ts
  | some c =>
    if c.isIdentity then ts
    else ts.map fun t => { t with mWorldMatrix := c.convertMatrix t.mWorldMatrix }

end Evaluate

open Evaluate

/-- `none` is a read past the end of `mMatrices`; a call that fails leaves the
transforms it has already reached changed. -/
def Subject.calcMatrices (s : Subject α β) (conv : Option ConversionContext) :
    Option (Bool × Subject α β) := do
  match ← locals s.mTransforms with
  | (some e, ts) => some (false, { s with mTransforms := ts, mError := e })
  | (none, ts) =>
    let ts := ts.map markRoot
    let rootCount := ts.countP isRoot
    if rootCount = 0 then
      some (false, { s with mTransforms := ts, mError := "Could not find a root" })
    else if 1 < rootCount then
      some (false, { s with mTransforms := ts, mError := "More than one root found" })
    else match loop ts.length ts with
      | .error (e, ts) => some (false, { s with mTransforms := ts, mError := e })
      | .ok ts => some (true, { s with mTransforms := convert conv ts })

end Open3DStream
