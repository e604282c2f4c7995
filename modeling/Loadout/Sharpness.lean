/-!
# Sharpness gauges

A gauge holds the hits of seven tiers, red first and purple last.  A blade loses hits from the
highest tier down, so a gauge cut to a total keeps its lowest hits (`keepLowest`), and one gauge
is at least as good as another if at every tier it has at least as many hits at that tier or
above.
-/

namespace Loadout

def tierCount : Nat := 7

def tierMax : Nat := 65535

/-- The hits of each tier, red to purple. -/
structure Gauge where
  hits : List Nat
  length_eq : hits.length = tierCount
  bounded : ∀ h ∈ hits, h ≤ tierMax

namespace Gauge

instance : DecidableEq Gauge := fun a b =>
  if h : a.hits = b.hits then isTrue (by cases a; cases b; cases h; rfl)
  else isFalse (fun hab => h (hab ▸ rfl))

instance : Inhabited Gauge := ⟨⟨List.replicate tierCount 0, by simp, by simp [tierMax]⟩⟩

/-- The gauge of seven tiers, if each number can be recorded. -/
def ofHits? (hits : List Nat) : Option Gauge :=
  if h : hits.length = tierCount ∧ ∀ x ∈ hits, x ≤ tierMax then some ⟨hits, h.1, h.2⟩ else none

def sumOf (hits : List Nat) : Nat := hits.foldr (· + ·) 0

@[simp] theorem sumOf_nil : sumOf [] = 0 := rfl

@[simp] theorem sumOf_cons (h : Nat) (rest : List Nat) : sumOf (h :: rest) = h + sumOf rest := rfl

def total (g : Gauge) : Nat := sumOf g.hits

def keepLowest : Nat → List Nat → List Nat
  | _, [] => []
  | n, h :: rest => min n h :: keepLowest (n - h) rest

@[simp] theorem keepLowest_nil (n : Nat) : keepLowest n [] = [] := by cases n <;> rfl

@[simp] theorem keepLowest_cons (n h : Nat) (rest : List Nat) :
    keepLowest n (h :: rest) = min n h :: keepLowest (n - h) rest := by cases n <;> rfl

@[simp] theorem length_keepLowest (n : Nat) (hits : List Nat) :
    (keepLowest n hits).length = hits.length := by
  induction hits generalizing n with
  | nil => simp
  | cons h rest ih => simp [ih]

theorem keepLowest_bounded {n bound : Nat} {hits : List Nat} (hb : ∀ h ∈ hits, h ≤ bound) :
    ∀ h ∈ keepLowest n hits, h ≤ bound := by
  induction hits generalizing n with
  | nil => simp
  | cons h rest ih =>
    intro x hx
    rw [keepLowest_cons, List.mem_cons] at hx
    rcases hx with rfl | hx
    · have := hb h (by simp)
      omega
    · exact ih (fun y hy => hb y (by simp [hy])) x hx

/-- The gauge with hits taken off from the top until at most a total remains. -/
def truncate (g : Gauge) (most : Nat) : Gauge :=
  ⟨keepLowest most g.hits, by rw [length_keepLowest, g.length_eq], keepLowest_bounded g.bounded⟩

def maxHandicraft : Nat := 5

def hitsPerLevel : Nat := 10

/-- The gauge at a handicraft level, where the gauge itself is the one at the highest level. -/
def withHandicraft (g : Gauge) (level : Nat) : Gauge :=
  g.truncate (g.total - (maxHandicraft - level) * hitsPerLevel)

/-- The highest position with a positive number, or the first. -/
def topOf : List Nat → Nat
  | [] => 0
  | _ :: rest => if rest.any (0 < ·) then topOf rest + 1 else 0

/-- The highest tier with any hits; red for an empty gauge. -/
def top (g : Gauge) : Nat := topOf g.hits

/-- Adds to the number at one position, up to what a tier records. -/
def addAt (extra : Nat) : Nat → List Nat → List Nat
  | _, [] => []
  | 0, h :: rest => min (h + extra) tierMax :: rest
  | n + 1, h :: rest => h :: addAt extra n rest

theorem length_addAt (extra n : Nat) (hits : List Nat) :
    (addAt extra n hits).length = hits.length := by
  fun_induction addAt extra n hits <;> simp_all

theorem addAt_bounded {extra n : Nat} {hits : List Nat} (hb : ∀ h ∈ hits, h ≤ tierMax) :
    ∀ h ∈ addAt extra n hits, h ≤ tierMax := by
  fun_induction addAt extra n hits with
  | case1 => simp
  | case2 h rest =>
    intro x hx
    rcases List.mem_cons.1 hx with rfl | hx
    · omega
    · exact hb x (by simp [hx])
  | case3 n h rest ih =>
    intro x hx
    rcases List.mem_cons.1 hx with rfl | hx
    · exact hb x (by simp)
    · exact ih (fun y hy => hb y (by simp [hy])) x hx

def addTop (g : Gauge) (extra : Nat) : Gauge :=
  ⟨addAt extra g.top g.hits, by rw [length_addAt, g.length_eq], addAt_bounded g.bounded⟩

/-- Whether at every position the first list has at least the second's total from there on. -/
def coversFromTop : List Nat → List Nat → Bool
  | a :: as, b :: bs => sumOf (b :: bs) ≤ sumOf (a :: as) && coversFromTop as bs
  | _, _ => true

/-- Whether one gauge has at least as many hits as another at or above every tier. -/
def covers (g other : Gauge) : Bool := coversFromTop g.hits other.hits

def tierNames : List String := ["red", "orange", "yellow", "green", "blue", "white", "purple"]

def topName (g : Gauge) : String := tierNames.getD g.top ""

/-- The factor on raw damage of each tier, in hundredths. -/
def rawHundredths : List Nat := [50, 75, 100, 105, 120, 132, 139]

/-- The factor on elemental damage of each tier, in ten-thousandths. -/
def elementTenThousandths : List Nat := [2500, 5000, 7500, 10000, 10625, 11500, 12500]

/-- The hits, and the name of the highest tier. -/
def describe (g : Gauge) : String :=
  " ".intercalate (g.hits.map toString) ++ " (" ++ g.topName ++ ")"

end Gauge

end Loadout
