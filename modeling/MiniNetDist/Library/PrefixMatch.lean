import Mathlib.Algebra.Ring.Nat
import Mathlib.Data.List.Nodup
import Mathlib.Data.List.Perm.Basic

/-! Routes to blocks of addresses that share a prefix: the longest prefix decides, and two routes to the halves of a
block can be joined into one to the block. -/

namespace MiniNetDist.Library.PrefixMatch

variable {Hop : Type*} {width : Nat}

/-- A route to all addresses that begin as `network` does, for so many of their bits. -/
structure Route (Hop : Type*) where
  network : Nat
  length : Nat
  hop : Hop

namespace Route

/-- How many addresses a route leads to. -/
def size (width : Nat) (route : Route Hop) : Nat := 2 ^ (width - route.length)

def Covers (width : Nat) (route : Route Hop) (address : Nat) : Prop :=
  address / route.size width = route.network / route.size width

/-- A block is named by its first address and the length of its prefix. -/
def key (route : Route Hop) : Nat × Nat := (route.network, route.length)

/-- The network has no bits behind the prefix. -/
structure Clean (width : Nat) (route : Route Hop) : Prop where
  short : route.length ≤ width
  aligned : route.size width ∣ route.network

/-- The route to the block that is twice as large. -/
def parent (width : Nat) (route : Route Hop) : Route Hop where
  network := route.network / 2 ^ (width - (route.length - 1)) * 2 ^ (width - (route.length - 1))
  length := route.length - 1
  hop := route.hop

/-- Two routes to blocks of the same size in the same larger one, by the same hop. -/
structure Siblings (width : Nat) (a b : Route Hop) : Prop where
  length : a.length = b.length
  positive : a.length ≠ 0
  hop : a.hop = b.hop
  joined : (a.parent width).network = (b.parent width).network

variable {a b route other : Route Hop} {address : Nat}

theorem size_pos (route : Route Hop) : 0 < route.size width := Nat.two_pow_pos _

theorem size_parent (short : a.length ≤ width) (positive : a.length ≠ 0) :
    (a.parent width).size width = a.size width * 2 := by
  have more : width - (a.length - 1) = width - a.length + 1 := by omega
  unfold size parent
  rw [more, Nat.pow_succ]

theorem network_parent (short : a.length ≤ width) (positive : a.length ≠ 0) :
    (a.parent width).network = a.network / (a.size width * 2) * (a.size width * 2) := by
  rw [← size_parent short positive]
  rfl

/-- Blocks of one size that share an address are the same. -/
theorem network_eq_of_covers (first : route.Clean width) (second : other.Clean width)
    (covers : route.Covers width address) (covers' : other.Covers width address) (same : route.length = other.length) :
    route.network = other.network := by
  have sizes : other.size width = route.size width := by
    unfold size
    rw [same]
  have quotients : route.network / route.size width = other.network / route.size width := by
    unfold Covers at covers covers'
    rw [← covers, ← sizes, covers']
  rw [← Nat.div_mul_cancel first.aligned, quotients, Nat.div_mul_cancel (sizes ▸ second.aligned)]

theorem key_eq_of_covers (first : route.Clean width) (second : other.Clean width) (covers : route.Covers width address)
    (covers' : other.Covers width address) (same : route.length = other.length) : route.key = other.key :=
  Prod.ext (network_eq_of_covers first second covers covers' same) same

theorem clean_parent (clean : a.Clean width) : (a.parent width).Clean width :=
  ⟨Nat.le_trans (Nat.sub_le _ _) clean.short, Nat.dvd_mul_left _ _⟩

/-- The larger block is its two halves. -/
theorem parent_covers_iff (siblings : Siblings width a b) (first : a.Clean width) (second : b.Clean width)
    (different : a.network ≠ b.network) :
    (a.parent width).Covers width address ↔ a.Covers width address ∨ b.Covers width address := by
  have sizes : b.size width = a.size width := by
    unfold size
    rw [siblings.length]
  have positive : 0 < a.size width := a.size_pos
  have double : 0 < a.size width * 2 := Nat.mul_pos positive Nat.two_pos
  have bShort := siblings.length ▸ first.short
  have bPositive := siblings.length ▸ siblings.positive
  obtain ⟨p, hp⟩ := first.aligned
  obtain ⟨q, hq⟩ := sizes ▸ second.aligned
  have halves : p / 2 = q / 2 := by
    have joined := siblings.joined
    rw [network_parent first.short siblings.positive, network_parent bShort bPositive, sizes, hp, hq,
      Nat.mul_div_mul_left _ _ positive, Nat.mul_div_mul_left _ _ positive] at joined
    exact Nat.eq_of_mul_eq_mul_right double joined
  have apart : p ≠ q := by
    rintro rfl
    exact different (hp.trans hq.symm)
  have whole : (a.parent width).network / (a.size width * 2) = p / 2 := by
    rw [network_parent first.short siblings.positive, Nat.mul_div_cancel _ double, hp,
      Nat.mul_div_mul_left _ _ positive]
  unfold Covers
  rw [size_parent first.short siblings.positive, sizes, whole, ← Nat.div_div_eq_div_mul, hp, hq,
    Nat.mul_div_cancel_left _ positive, Nat.mul_div_cancel_left _ positive]
  omega

end Route

/-- The route that is taken: none to the address has a longer prefix. -/
structure Best (width : Nat) (routes : List (Route Hop)) (address : Nat) (route : Route Hop) : Prop where
  mem : route ∈ routes
  covers : route.Covers width address
  longest : ∀ other ∈ routes, other.Covers width address → other.length ≤ route.length

/-- Routes to different blocks, each given by a network without host bits. -/
structure Wellformed (width : Nat) (routes : List (Route Hop)) : Prop where
  clean : ∀ route ∈ routes, route.Clean width
  distinct : (routes.map Route.key).Nodup

/-- The second table takes every address where the first does, and is well formed as well. -/
structure Preserves (width : Nat) (routes others : List (Route Hop)) : Prop where
  wellformed : Wellformed width others
  best : ∀ address route, Best width routes address route →
    ∃ route', Best width others address route' ∧ route'.hop = route.hop
  covered : ∀ address, (∃ route ∈ others, route.Covers width address) ↔ ∃ route ∈ routes, route.Covers width address

variable {routes others : List (Route Hop)} {a b route other : Route Hop} {address : Nat}

theorem Best.congr (same : ∀ route, route ∈ routes ↔ route ∈ others) (best : Best width routes address route) :
    Best width others address route where
  mem := (same route).mp best.mem
  covers := best.covers
  longest other inside := best.longest other ((same other).mpr inside)

theorem Wellformed.eq_of_key (wellformed : Wellformed width routes) (inside : route ∈ routes) (inside' : other ∈ routes)
    (same : route.key = other.key) : route = other :=
  List.inj_on_of_nodup_map wellformed.distinct inside inside' same

theorem Best.unique (wellformed : Wellformed width routes) (first : Best width routes address route)
    (second : Best width routes address other) : route = other := by
  have same := Nat.le_antisymm (second.longest route first.mem first.covers)
    (first.longest other second.mem second.covers)
  exact wellformed.eq_of_key first.mem second.mem (Route.key_eq_of_covers (wellformed.clean route first.mem)
    (wellformed.clean other second.mem) first.covers second.covers same)

section Join

variable (wellformed : Wellformed width (a :: b :: others)) (siblings : Route.Siblings width a b)

include wellformed siblings

theorem Wellformed.different : a.network ≠ b.network := by
  intro same
  have distinct := wellformed.distinct
  have equal : a.key = b.key := Prod.ext same siblings.length
  simp [equal] at distinct

omit siblings in
/-- If no route leads to the larger block yet, the two can be replaced by one to it. -/
theorem Wellformed.join (free : (a.parent width).key ∉ others.map Route.key) :
    Wellformed width (a.parent width :: others) where
  clean route inside := by
    rcases List.mem_cons.mp inside with rfl | other
    · exact Route.clean_parent (wellformed.clean a List.mem_cons_self)
    · exact wellformed.clean route (List.mem_cons_of_mem _ (List.mem_cons_of_mem _ other))
  distinct := List.nodup_cons.mpr ⟨free, (List.nodup_cons.mp (List.nodup_cons.mp wellformed.distinct).2).2⟩

theorem Wellformed.parent_covers_iff :
    (a.parent width).Covers width address ↔ a.Covers width address ∨ b.Covers width address :=
  Route.parent_covers_iff siblings (wellformed.clean a (by simp)) (wellformed.clean b (by simp))
    (wellformed.different siblings)

/-- The joined table leads nowhere the halves did not, and by the same hops. -/
theorem Wellformed.best_join (best : Best width (a :: b :: others) address route) :
    ∃ route', Best width (a.parent width :: others) address route' ∧ route'.hop = route.hop := by
  have covered : (a.parent width).Covers width address ↔ a.Covers width address ∨ b.Covers width address :=
    wellformed.parent_covers_iff siblings
  -- another route to the address is not as long as the half the address is in
  have shorter : ∀ half ∈ [a, b], half.Covers width address → ∀ other ∈ others, other.Covers width address →
      other.length ≤ half.length → other.length ≤ half.length - 1 := by
    intro half isHalf covers other inside covers' less
    by_contra longer
    have cleanHalf : half ∈ a :: b :: others := by
      rcases List.mem_pair.mp isHalf with rfl | rfl <;> simp
    have same : other.length = half.length := by omega
    have key := Route.key_eq_of_covers (wellformed.clean other (by simp [inside])) (wellformed.clean half cleanHalf)
      covers' covers same
    have distinct := wellformed.distinct
    rw [List.map_cons, List.map_cons, List.nodup_cons, List.nodup_cons, List.mem_cons] at distinct
    rcases List.mem_pair.mp isHalf with rfl | rfl
    · exact distinct.1 (.inr (key ▸ List.mem_map_of_mem inside))
    · exact distinct.2.1 (key ▸ List.mem_map_of_mem inside)
  have joined : ∀ half ∈ [a, b], Best width (a :: b :: others) address half →
      Best width (a.parent width :: others) address (a.parent width) := by
    intro half isHalf best
    have length : half.length = a.length := by
      rcases List.mem_pair.mp isHalf with rfl | rfl
      · rfl
      · exact siblings.length.symm
    refine ⟨List.mem_cons_self, covered.mpr ?_, fun other inside covers => ?_⟩
    · rcases List.mem_pair.mp isHalf with rfl | rfl
      · exact .inl best.covers
      · exact .inr best.covers
    · rcases List.mem_cons.mp inside with rfl | inside
      · exact Nat.le_refl _
      · have less := best.longest other (by simp [inside]) covers
        have strict := shorter half isHalf best.covers other inside covers less
        exact Nat.le_trans strict (Nat.sub_le_sub_right (Nat.le_of_eq length) 1)
  rcases List.mem_cons.mp best.mem with rfl | rest
  · exact ⟨_, joined route (by simp) best, rfl⟩
  rcases List.mem_cons.mp rest with rfl | inside
  · exact ⟨_, joined route (by simp) best, siblings.hop⟩
  · refine ⟨route, ⟨List.mem_cons_of_mem _ inside, best.covers, fun other inside' covers => ?_⟩, rfl⟩
    rcases List.mem_cons.mp inside' with rfl | inside'
    · have half : a.length ≤ route.length := by
        rcases covered.mp covers with covers | covers
        · exact best.longest a (by simp) covers
        · exact siblings.length ▸ best.longest b (by simp) covers
      exact Nat.le_trans (Nat.sub_le _ _) half
    · exact best.longest other (by simp [inside']) covers

theorem Wellformed.covered_join :
    (∃ route ∈ a.parent width :: others, route.Covers width address) ↔
      ∃ route ∈ a :: b :: others, route.Covers width address := by
  simp only [List.mem_cons, or_and_right, exists_or, exists_eq_left]
  rw [wellformed.parent_covers_iff siblings, or_assoc]

end Join

theorem Wellformed.preserves_self (wellformed : Wellformed width routes) : Preserves width routes routes :=
  ⟨wellformed, fun _ route best => ⟨route, best, rfl⟩, fun _ => Iff.rfl⟩

theorem Preserves.trans {further : List (Route Hop)} (first : Preserves width routes others)
    (second : Preserves width others further) : Preserves width routes further where
  wellformed := second.wellformed
  best address route best := by
    obtain ⟨middle, best', hop⟩ := first.best address route best
    obtain ⟨last, best'', hop'⟩ := second.best address middle best'
    exact ⟨last, best'', hop'.trans hop⟩
  covered address := (second.covered address).trans (first.covered address)

/-- The order of the routes does not matter. -/
theorem Wellformed.preserves_perm (wellformed : Wellformed width routes) (perm : routes.Perm others) :
    Preserves width routes others where
  wellformed := ⟨fun route inside => wellformed.clean route (perm.mem_iff.mpr inside),
    (perm.map Route.key).nodup_iff.mp wellformed.distinct⟩
  best _ route best := ⟨route, best.congr fun _ => perm.mem_iff, rfl⟩
  covered _ := exists_congr fun _ => and_congr_left fun _ => perm.mem_iff.symm

/-- Two halves of a block that no other route leads to can be joined. -/
theorem Wellformed.preserves_join (wellformed : Wellformed width (a :: b :: others))
    (siblings : Route.Siblings width a b) (free : (a.parent width).key ∉ others.map Route.key) :
    Preserves width (a :: b :: others) (a.parent width :: others) where
  wellformed := wellformed.join free
  best _ _ best := wellformed.best_join siblings best
  covered _ := wellformed.covered_join siblings

end MiniNetDist.Library.PrefixMatch
