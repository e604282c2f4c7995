import Loadout.Damage.Effective
import Loadout.Document

/-!
# The damage of one hit

Against a target, an attack deals raw damage by its motion value and elemental damage if the element
is a true one; both are rounded apart and then added.
-/

namespace Loadout

open Document

/-- An attack and the target it is aimed at. -/
structure DamageModel where
  motionValue : Nat
  elementFactor : ElementKind → Option Quantity
  hitzoneRaw : Nat
  /-- How much of each true element the target takes, in percent. -/
  hitzone : ElementKind → Nat

structure Hit (R : Type) where
  raw : R
  element : R
  total : R
  dealt : Nat

namespace DamageModel

def elements : List (ElementKind × String) :=
  [(.fire, "fire"), (.water, "water"), (.thunder, "thunder"), (.ice, "ice"), (.dragon, "dragon")]

def fieldNames : List String :=
  "raw_mv" :: elements.map ("elemod_" ++ ·.2) ++ "hzv_raw" :: elements.map ("hzv_" ++ ·.2)

def read {δ : Type} [Document δ] (j : δ) : Option DamageModel := do
  let r ← record? fieldNames false j
  let factors ← elements.mapM fun e => do return (e.1, ← r.required ("elemod_" ++ e.2) quantity?)
  let zones ← elements.mapM fun e => do return (e.1, ← r.required ("hzv_" ++ e.2) word?)
  return {
    motionValue := ← r.required "raw_mv" word?
    elementFactor := fun kind => (factors.find? (·.1 = kind)).map (·.2)
    hitzoneRaw := ← r.required "hzv_raw" word?
    hitzone := fun kind => ((zones.find? (·.1 = kind)).map (·.2)).getD 0 }

end DamageModel

namespace Hit

variable {R : Type} [Reckoning R]

/-- The elemental damage of an effective element; statuses deal none. -/
def elementDamage (m : DamageModel) (element : R) (kind : ElementKind) : R :=
  if Reckoning.isZero element then Reckoning.ofInt 0
  else
    match m.elementFactor kind with
    | some factor =>
        Reckoning.ofQuantity factor * element * Reckoning.percent (m.hitzone kind)
    | none => Reckoning.ofInt 0

def ofEffective (m : DamageModel) (e : Effective R) : Except Fault (Hit R) := do
  let raw := e.raw / Reckoning.ofInt 100 * Reckoning.ofInt m.motionValue *
    Reckoning.percent m.hitzoneRaw
  let element := elementDamage m e.element e.elementKind
  let dealt ← Fault.word (Reckoning.toWord raw + Reckoning.toWord element)
  return { raw, element, total := raw + element, dealt }

end Hit

end Loadout
